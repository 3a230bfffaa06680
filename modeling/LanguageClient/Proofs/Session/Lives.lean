import LanguageClient.Proofs.Session.Coherence

namespace LanguageClient

/-- A message that begins, goes on with or ends the life of a document. -/
inductive Sync where
  | opened (version : Int)
  | changed (version : Int)
  | closed
  deriving DecidableEq, Repr

def Mention.sync? (uri : String) : Mention → Option Sync
  | .opened u version _ => if u = uri then some (.opened version) else none
  | .changed u version _ => if u = uri then some (.changed version) else none
  | .closed u => if u = uri then some .closed else none
  | .asked _ _ _ => none

/-- All that was sent about the life of one document. -/
def syncs (uri : String) (sent : List Outgoing) : List Sync :=
  sent.filterMap fun o => o.mention?.bind (·.sync? uri)

/-- A life so far, with this many changes. -/
def life (changes : Nat) : List Sync :=
  .opened 1 :: (List.range changes).map fun i => .changed (i + 2)

theorem life_succ (n : Nat) : life (n + 1) = life n ++ [.changed (n + 2)] := by
  simp [life, List.range_succ]

theorem syncs_append_one (uri : String) (sent : List Outgoing) (o : Outgoing) :
    syncs uri (sent ++ [o]) = syncs uri sent ++ (o.mention?.bind (·.sync? uri)).toList := by
  unfold syncs
  rw [List.filterMap_append]
  cases h : o.mention?.bind (·.sync? uri) <;> simp [h]

/-- How a document, with the number of its contents and the last of them, goes through its life. -/
inductive Sync.Next : Option (Nat × String) → Sync → Option (Nat × String) → Prop
  | opened (text : String) : Next none (.opened 1) (some (1, text))
  | changed (n : Nat) (old text : String) :
      Next (some (n, old)) (.changed (Int32.ofNat (n + 1)).toInt) (some (n + 1, text))
  | closed (d : Nat × String) : Next (some d) .closed none

theorem Replica.learn_of_sync?_eq_none {r : Replica} {m : Mention} {uri : String}
    (h : m.sync? uri = none) : r.learn m uri = r uri := by
  cases m with
  | opened u version text | changed u version text | closed u =>
    have hne : uri ≠ u := by
      rintro rfl
      simp [Mention.sync?] at h
    exact Function.update_of_ne hne _ _
  | asked method u at_ => rfl

theorem Mention.Proper.next {r : Replica} {m : Mention} {uri : String} {s : Sync}
    (h : m.Proper r) (hs : m.sync? uri = some s) : Sync.Next (r uri) s (r.learn m uri) := by
  have hsame {u : String} {t : Sync} (hu : (if u = uri then some t else none) = some s) :
      u = uri ∧ t = s := by
    split at hu
    · rename_i heq
      exact ⟨heq, Option.some.inj hu⟩
    · cases hu
  cases m with
  | opened u version text =>
    obtain ⟨rfl, rfl⟩ := hsame hs
    obtain ⟨hclosed, rfl⟩ := h
    rw [hclosed, Replica.learn, Function.update_self]
    exact .opened text
  | changed u version text =>
    obtain ⟨rfl, rfl⟩ := hsame hs
    obtain ⟨n, old, hknown, rfl⟩ := h
    rw [Replica.learn, Function.update_self, hknown]
    exact .changed n old text
  | closed u =>
    obtain ⟨rfl, rfl⟩ := hsame hs
    obtain ⟨d, hknown⟩ := h
    rw [Replica.learn, Function.update_self, hknown]
    exact .closed d
  | asked method u at_ => cases hs

namespace Orderly

variable {sent : List Outgoing} {o : Outgoing}

theorem init (h : Orderly (sent ++ [o])) : Orderly sent := by
  intro front o' back m heq hm
  exact h front o' (back ++ [o]) m (by simp [heq]) hm

/-- A message goes on with the life of a document, or is not about it. -/
theorem next (h : Orderly (sent ++ [o])) (uri : String) :
    syncs uri (sent ++ [o]) = syncs uri sent ∧
        Replica.ofSent (sent ++ [o]) uri = Replica.ofSent sent uri ∨
      ∃ s, syncs uri (sent ++ [o]) = syncs uri sent ++ [s] ∧
        Sync.Next (Replica.ofSent sent uri) s (Replica.ofSent (sent ++ [o]) uri) := by
  rw [syncs_append_one, Replica.ofSent_append_one]
  unfold Replica.receive
  cases hm : o.mention? with
  | none => exact .inl ⟨by simp, rfl⟩
  | some m =>
    simp only [Option.bind_some]
    cases hs : m.sync? uri with
    | none => exact .inl ⟨by simp, Replica.learn_of_sync?_eq_none hs⟩
    | some s => exact .inr ⟨s, rfl, (h sent o [] m rfl hm).next hs⟩

theorem count_le_length (h : Orderly sent) {uri text : String} {n : Nat}
    (hn : Replica.ofSent sent uri = some (n, text)) : n ≤ sent.length := by
  induction sent using List.reverseRecOn generalizing n text with
  | nil => cases hn
  | append_singleton sent o ih =>
    rw [List.length_append, List.length_singleton]
    obtain ⟨-, hsame⟩ | ⟨s, -, hnext⟩ := h.next uri
    · have hle := ih h.init (hsame ▸ hn)
      omega
    · rw [hn] at hnext
      generalize hd : Replica.ofSent sent uri = d at hnext
      cases hnext with
      | opened => omega
      | changed k old =>
        have hle := ih h.init hd
        omega

/-- What was sent about a document is a row of full lives, and the one that it leads now. -/
theorem row_of_lives (h : Orderly sent) (uri : String)
    (hcount : ∀ front back n text, sent = front ++ back →
      Replica.ofSent front uri = some (n, text) → n < 2147483647) :
    ∃ (lives : List Nat) (last : List Sync),
      syncs uri sent = lives.flatMap (fun n => life n ++ [.closed]) ++ last ∧
      (Replica.ofSent sent uri = none ∧ last = [] ∨
        ∃ n text, Replica.ofSent sent uri = some (n + 1, text) ∧ last = life n) := by
  induction sent using List.reverseRecOn with
  | nil => exact ⟨[], [], rfl, .inl ⟨rfl, rfl⟩⟩
  | append_singleton sent o ih =>
    obtain ⟨lives, last, hsyncs, hlast⟩ := ih h.init fun front back n text heq =>
      hcount front (back ++ [o]) n text (by simp [heq])
    obtain ⟨hsame, hreplica⟩ | ⟨s, hmore, hnext⟩ := h.next uri
    · rw [hsame, hreplica]
      exact ⟨lives, last, hsyncs, hlast⟩
    · rw [hmore, hsyncs]
      have hbound := hcount (sent ++ [o]) []
      generalize Replica.ofSent (sent ++ [o]) uri = d' at hnext hbound
      generalize Replica.ofSent sent uri = d at hnext hlast
      cases hnext with
      | opened text =>
        obtain ⟨-, rfl⟩ | ⟨n, old, hd, -⟩ := hlast
        · exact ⟨lives, life 0, by simp [life], .inr ⟨0, text, rfl, rfl⟩⟩
        · cases hd
      | changed n old text =>
        -- below the bound, counting in 32 bits does not wrap around
        have hlt := hbound (n + 1) text (by simp) rfl
        have hversion : (Int32.ofNat (n + 1)).toInt = (n + 1 : Nat) :=
          Int32.toInt_ofNat_of_lt (by omega)
        obtain ⟨hd, -⟩ | ⟨k, old', hd, rfl⟩ := hlast
        · cases hd
        · cases hd
          refine ⟨lives, life (k + 1), ?_, .inr ⟨k + 1, text, rfl, rfl⟩⟩
          rw [hversion, life_succ, List.append_assoc]
          rfl
      | closed d =>
        obtain ⟨hd, -⟩ | ⟨k, old', hd, rfl⟩ := hlast
        · cases hd
        · refine ⟨lives ++ [k], [], ?_, .inl ⟨rfl, rfl⟩⟩
          simp

end Orderly

namespace Session

/-- On every connection and for every document, the openings, changes and closings that are sent form
lives one after another, of which only the last may still go on: each begins with version one, its
versions go up one by one, and no other begins before its end. -/
theorem syncs_eq_lives (language : String) (server : Setup.Server)
    (timeouts : Setup.Timeouts) (processId : Nat) (rootUri : String) (es : List Event)
    {c : Nat} {k : Connection}
    (hk : ((new language server timeouts processId rootUri).run es).connection? c = some k)
    (uri : String)
    (hcount : ∀ front back n text, k.link.sent = front ++ back →
      Replica.ofSent front uri = some (n, text) → n < 2147483647) :
    ∃ (lives : List Nat) (last : List Sync),
      syncs uri k.link.sent = lives.flatMap (fun n => life n ++ [.closed]) ++ last ∧
      (last = [] ∨ ∃ n, last = life n) := by
  have hcoherent := (Coherent.new language server timeouts processId rootUri).run es
  obtain ⟨lives, last, hsyncs, hlast⟩ :=
    (hcoherent.connections hk).orderly.row_of_lives uri hcount
  refine ⟨lives, last, hsyncs, ?_⟩
  obtain ⟨-, rfl⟩ | ⟨n, text, -, rfl⟩ := hlast
  · exact .inl rfl
  · exact .inr ⟨n, rfl⟩

/-- A document is opened, which starts the server, and then changed, closed and opened again. -/
def reopening : List Event :=
  let m : Moment := ⟨0, .ok false, fun _ => .ok [], fun _ => false⟩
  let path : Path := ⟨[0x2F, 0x61]⟩
  [.begin m (.open path "one"), .receive 0 (Frame.write (Message.answer (.nat 1) .null)), .read 0,
    .resume m 0, .change path "two", .close path, .begin m (.open path "three")]

theorem syncs_eq_lives_reopening :
    ∃ k, ((new "lua" ⟨"luals", [], "lua", []⟩ {} 1 "file:///").run reopening).connection? 0 =
        some k ∧
      k.link.sent.length < 2147483647 ∧
      syncs "file:///a" k.link.sent = [.opened 1, .changed 2, .closed, .opened 1] ∧
      ∃ (lives : List Nat) (last : List Sync),
        syncs "file:///a" k.link.sent = lives.flatMap (fun n => life n ++ [.closed]) ++ last ∧
        (last = [] ∨ ∃ n, last = life n) := by
  have hrun : (((new "lua" ⟨"luals", [], "lua", []⟩ {} 1 "file:///").run reopening).connection?
      0).map (fun k => (k.link.sent.length, syncs "file:///a" k.link.sent)) =
        some (6, [.opened 1, .changed 2, .closed, .opened 1]) := by decide +kernel
  obtain ⟨k, hk, hpair⟩ := Option.map_eq_some_iff.mp hrun
  obtain ⟨hlength, hsyncs⟩ := Prod.mk.inj hpair
  have hshort : k.link.sent.length < 2147483647 := by omega
  refine ⟨k, hk, hshort, hsyncs, syncs_eq_lives _ _ _ _ _ _ hk _ ?_⟩
  intro front back n text heq hn
  have horderly := (((Coherent.new _ _ _ _ _).run _).connections hk).orderly
  have hfront : Orderly front := by
    intro front' o back' m heq' hm
    exact horderly front' o (back' ++ back) m (by simp [heq, heq']) hm
  have hle := hfront.count_le_length hn
  have hsum : k.link.sent.length = front.length + back.length := by
    rw [heq, List.length_append]
  omega

end Session
end LanguageClient
