import LanguageClient.Proofs.Setup.Reading
import LanguageClient.Proofs.Table

namespace LanguageClient

theorem Table.get?_append {α : Type} (k : String) (t u : Table α) :
    get? k (t ++ u) = (get? k t).or (get? k u) := by
  simp [get?, Option.map_or]

theorem Table.get?_filter {α : Type} (k : String) (t : Table α) :
    get? k (t.filter (·.1 == k)) = get? k t := by
  simp only [get?, List.find?_filter, and_self, Bool.decide_eq_true]

namespace Setup

/-- A server as it can be had: made of its parts, or read from a value. One that is taken out of a
setup, which may have filled in its language id, is not among them, so nothing is said of what comes
of adding it to another setup. -/
inductive Server.Given : Server → Prop
  | make {command languageId : String} {args extensions : List String} {s : Server} :
      Server.make command args (some languageId) extensions = .ok s → Given s
  | ofJson {spare : Bool} {v : Json} {s : Server} : Server.ofJson spare v = .ok s → Given s

/-- Waits as they can be had: the usual ones, others that are stated, or read from a value. -/
inductive Timeouts.Given : Timeouts → Prop
  | usual : Given {}
  | ofNanoseconds (request handshake shutdown : Nat) :
      Given (.ofNanoseconds request handshake shutdown)
  | ofJson {spare : Bool} {v : Json} {t : Timeouts} : Timeouts.ofJson spare v = .ok t → Given t

/-- A setup as it can be had. -/
inductive Built : Setup → Prop
  | empty : Built {}
  | usual : Built default
  | ofJson {spare : Bool} {v : Json} {c : Setup} : Setup.ofJson spare v = .ok c → Built c
  | ofText {text : String} {c : Setup} : Setup.ofText text = .ok c → Built c
  | withServer {c : Setup} {server : Server} (language : String) :
      Built c → server.Given → Built (c.withServer language server)
  | withTimeouts {c : Setup} {t : Timeouts} : Built c → t.Given → Built (c.withTimeouts t)

/-- A setup that is built from the empty one. -/
inductive Made : Setup → Prop
  | empty : Made {}
  | withServer {c : Setup} {server : Server} (language : String) :
      Made c → server.Given → Made (c.withServer language server)
  | withTimeouts {c : Setup} {t : Timeouts} : Made c → t.Given → Made (c.withTimeouts t)

theorem Server.Given.exists_make {s : Server} (h : s.Given) :
    ∃ command args languageId extensions,
      Server.make command args languageId extensions = .ok s := by
  cases h with
  | make h => exact ⟨_, _, _, _, h⟩
  | ofJson h => exact Server.exists_make h

variable {c : Setup} {calls calls' : List (String × Server)}

theorem eq_of_servers {c c' : Setup} (hservers : c.servers = c'.servers)
    (htimeouts : c.timeouts = c'.timeouts) : c = c' := by
  cases c
  cases c'
  rw [mk.injEq]
  exact ⟨hservers, htimeouts⟩

theorem withServers_append_one (c : Setup) (calls : List (String × Server)) (language : String)
    (server : Server) :
    c.withServers (calls ++ [(language, server)]) =
      (c.withServers calls).withServer language server := by
  simp [withServers]

theorem Made.withServers (h : c.Made) (hcalls : ∀ call ∈ calls, call.2.Given) :
    (c.withServers calls).Made := by
  induction calls using List.reverseRecOn with
  | nil => exact h
  | append_singleton calls call ih =>
    rw [withServers_append_one]
    exact (ih fun other hother => hcalls other (by simp [hother])).withServer _
      (hcalls call (by simp))

theorem default_eq : default = ({} : Setup).withServers default.servers :=
  eq_of_servers (by decide) rfl

theorem given_of_mem_default {call : String × Server} (h : call ∈ default.servers) :
    call.2.Given := by
  have hall : ∀ call ∈ default.servers, Server.make call.2.command call.2.args
      (some call.2.languageId) call.2.extensions = .ok call.2 := by decide
  exact .make (hall call h)

theorem made_of_ofJson {spare : Bool} {v : Json} (h : Setup.ofJson spare v = .ok c) : c.Made := by
  obtain ⟨-, calls, t, hcalls, ht, rfl⟩ := ofJson_eq_ok.mp h
  have hgiven : t.Given := by
    obtain ⟨-, rfl⟩ | ⟨w, -, hw⟩ := ht
    · exact .usual
    · exact .ofJson hw
  refine (Made.empty.withTimeouts hgiven).withServers fun call hcall => ?_
  obtain ⟨-, rfl⟩ | ⟨fields, -, hfields⟩ := hcalls
  · cases hcall
  · have hall := hfields.flip.imp (S := fun call _ => call.2.Given ∧ True)
      fun _ _ hfield => ⟨.ofJson hfield.2, trivial⟩
    exact ((List.forall₂_and_left _ _).mp hall).1 call hcall

theorem Built.made (h : c.Built) : c.Made := by
  induction h with
  | empty => exact .empty
  | usual =>
    rw [default_eq]
    exact Made.empty.withServers fun call hcall => given_of_mem_default hcall
  | ofJson h => exact made_of_ofJson h
  | ofText h =>
    obtain ⟨v, -, hv⟩ := ofText_eq_ok.mp h
    exact made_of_ofJson hv
  | withServer language _ hserver ih => exact ih.withServer language hserver
  | withTimeouts _ ht ih => exact ih.withTimeouts ht

theorem Made.ascends (h : c.Made) : c.servers.Ascends := by
  induction h with
  | empty => exact .nil
  | withServer language _ _ ih => exact ih.set
  | withTimeouts _ _ ih => exact ih

section Calls

theorem server?_withServer (c : Setup) (language k : String) (server : Server) :
    (c.withServer language server).server? k =
      if language = k then some (server.named language) else c.server? k := by
  simp [server?, withServer]

theorem server?_withServers (c : Setup) (calls : List (String × Server)) (k : String) :
    (c.withServers calls).server? k =
      ((Table.get? k calls.reverse).map (Server.named k)).or (c.server? k) := by
  induction calls using List.reverseRecOn with
  | nil => rfl
  | append_singleton calls call ih =>
    obtain ⟨language, server⟩ := call
    rw [withServers_append_one, server?_withServer, ih, List.reverse_append,
      List.reverse_singleton, List.singleton_append, Table.get?_cons]
    by_cases h : language = k
    · simp [h]
    · simp [h]

theorem timeouts_withServers (c : Setup) (calls : List (String × Server)) :
    (c.withServers calls).timeouts = c.timeouts := by
  induction calls using List.reverseRecOn with
  | nil => rfl
  | append_singleton calls call ih =>
    rw [withServers_append_one]
    exact ih

theorem ascends_withServers (h : c.servers.Ascends) (calls : List (String × Server)) :
    (c.withServers calls).servers.Ascends := by
  induction calls using List.reverseRecOn with
  | nil => exact h
  | append_singleton calls call ih =>
    rw [withServers_append_one]
    exact ih.set

theorem withServers_congr (h : c.servers.Ascends)
    (hlast : ∀ k, Table.get? k calls.reverse = Table.get? k calls'.reverse) :
    c.withServers calls = c.withServers calls' := by
  have hservers : (c.withServers calls).servers = (c.withServers calls').servers := by
    refine (ascends_withServers h calls).ext (ascends_withServers h calls') fun k => ?_
    have hserver := server?_withServers c calls k
    rw [hlast, ← server?_withServers] at hserver
    exact hserver
  have htimeouts : (c.withServers calls).timeouts = (c.withServers calls').timeouts := by
    rw [timeouts_withServers, timeouts_withServers]
  exact eq_of_servers hservers htimeouts

/-- How the servers of different names follow each other makes no difference. -/
theorem withServers_eq_of_filter (h : c.servers.Ascends)
    (hcalls : ∀ k, calls.filter (·.1 == k) = calls'.filter (·.1 == k)) :
    c.withServers calls = c.withServers calls' := by
  refine withServers_congr h fun k => ?_
  rw [← Table.get?_filter k calls.reverse, List.filter_reverse, hcalls, ← List.filter_reverse,
    Table.get?_filter]

/-- A server that is replaced later might as well not have been added. -/
theorem withServers_replaced (h : c.servers.Ascends) {before after : List (String × Server)}
    {language : String} (server : Server) (hafter : language ∈ after.map (·.1)) :
    c.withServers (before ++ (language, server) :: after) = c.withServers (before ++ after) := by
  refine withServers_congr h fun k => ?_
  simp only [List.reverse_append, List.reverse_cons, List.append_assoc, Table.get?_append]
  by_cases hk : language = k
  · subst hk
    obtain ⟨⟨_, later⟩, hmem, rfl⟩ := List.mem_map.mp hafter
    obtain ⟨found, hfound⟩ := Option.isSome_iff_exists.mp
      (Table.get?_isSome_of_mem (List.mem_reverse.mpr hmem))
    simp [hfound]
  · simp [Table.get?_cons, hk]

end Calls

end Setup
end LanguageClient
