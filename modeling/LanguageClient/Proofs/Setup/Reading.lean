import LanguageClient.Proofs.Json.Record
import LanguageClient.Setup.Text

namespace LanguageClient.Setup

variable {α β ε : Type} {spare : Bool} {v : Json}

section Outcomes

variable {x : Except ε α} {f : α → Except ε β}

theorem bind_eq_ok {b : β} : (x >>= f) = .ok b ↔ ∃ a, x = .ok a ∧ f a = .ok b := by
  cases x with
  | error e =>
    constructor
    · intro h
      cases h
    · rintro ⟨a, h, -⟩
      cases h
  | ok a =>
    constructor
    · exact fun h => ⟨a, rfl, h⟩
    · rintro ⟨_, ⟨rfl⟩, h⟩
      exact h

theorem mapM_eq_ok {xs : List α} {ys : List β} :
    xs.mapM f = .ok ys ↔ List.Forall₂ (fun x y => f x = .ok y) xs ys := by
  induction xs generalizing ys with
  | nil =>
    rw [List.mapM_nil, List.forall₂_nil_left_iff]
    exact ⟨fun h => (Except.ok.inj h).symm, fun h => congrArg Except.ok h.symm⟩
  | cons x xs ih =>
    rw [List.mapM_cons, bind_eq_ok, List.forall₂_cons_left_iff]
    simp only [bind_eq_ok, ih]
    constructor
    · rintro ⟨y, hy, ys, hys, ⟨rfl⟩⟩
      exact ⟨y, ys, hy, hys, rfl⟩
    · rintro ⟨y, ys, hy, hys, rfl⟩
      exact ⟨y, hy, ys, hys, rfl⟩

theorem orMalformed_eq_ok {v : Option α} {a : α} : orMalformed v = .ok a ↔ v = some a := by
  cases v <;> simp [orMalformed]

end Outcomes

/-- The value can be a record of so many fields. An array goes on behind them only where there may
be something to spare. -/
def IsRecord (spare : Bool) (size : Nat) (v : Json) : Prop :=
  match v with
  | .obj _ => True
  | .arr items => spare = true ∨ items.length ≤ size
  | _ => False

theorem record_eq_ok {size : Nat} {s : Json.Source} :
    record spare size v = .ok s ↔ Json.source? v = some s ∧ IsRecord spare size v := by
  rw [record, orMalformed_eq_ok, Option.filter_eq_some_iff]
  refine and_congr_right fun hs => ?_
  cases v with
  | obj fields | arr items =>
    cases hs
    simp [Json.Source.within, IsRecord]
  | null | bool | int | float | str => cases hs

theorem exists_source {size : Nat} (h : IsRecord spare size v) : ∃ s, Json.source? v = some s := by
  cases v with
  | obj fields => exact ⟨.named fields, rfl⟩
  | arr items => exact ⟨.listed items, rfl⟩
  | null | bool | int | float | str => cases h

theorem Server.exists_make {s : Server} (h : Server.ofJson spare v = .ok s) :
    ∃ command args languageId extensions, make command args languageId extensions = .ok s := by
  unfold Server.ofJson at h
  obtain ⟨_, -, h⟩ := bind_eq_ok.mp h
  obtain ⟨command, -, h⟩ := bind_eq_ok.mp h
  obtain ⟨args, -, h⟩ := bind_eq_ok.mp h
  obtain ⟨languageId, -, h⟩ := bind_eq_ok.mp h
  obtain ⟨extensions, -, h⟩ := bind_eq_ok.mp h
  exact ⟨command, args, languageId, extensions, h⟩

/-- The value gives these servers: under each name the one that its own value gives. -/
def StatesServers (spare : Bool) (v : Json) (calls : List (String × Server)) : Prop :=
  v.member? 0 "servers" = none ∧ calls = [] ∨
    ∃ fields, v.member? 0 "servers" = some (.obj fields) ∧
      List.Forall₂ (fun field call => call.1 = field.1 ∧ Server.ofJson spare field.2 = .ok call.2)
        fields calls

def StatesTimeouts (spare : Bool) (v : Json) (t : Timeouts) : Prop :=
  v.member? 1 "timeouts" = none ∧ t = {} ∨
    ∃ w, v.member? 1 "timeouts" = some w ∧ Timeouts.ofJson spare w = .ok t

theorem serversOfJson_eq_ok {calls : List (String × Server)} :
    serversOfJson spare v = .ok calls ↔ ∃ fields, v = .obj fields ∧
      List.Forall₂ (fun field call => call.1 = field.1 ∧ Server.ofJson spare field.2 = .ok call.2)
        fields calls := by
  cases v with
  | obj fields =>
    have hentry (field : String × Json) (call : String × Server) :
        (do return (field.1, ← Server.ofJson spare field.2) : Except Fault _) = .ok call ↔
          call.1 = field.1 ∧ Server.ofJson spare field.2 = .ok call.2 := by
      rw [bind_eq_ok]
      constructor
      · rintro ⟨s, hs, ⟨rfl⟩⟩
        exact ⟨rfl, hs⟩
      · rintro ⟨hname, hs⟩
        exact ⟨call.2, hs, by rw [← hname]; rfl⟩
    rw [serversOfJson, mapM_eq_ok]
    simp only [hentry, Json.obj.injEq, exists_eq_left']
  | null | bool | int | float | str | arr => simp [serversOfJson]

theorem statedServers_eq_ok {s : Json.Source} (hs : Json.source? v = some s)
    {calls : List (String × Server)} :
    statedServers spare s = .ok calls ↔ StatesServers spare v calls := by
  unfold statedServers StatesServers
  rw [Json.value?_of_source? hs]
  cases v.member? 0 "servers" with
  | none => simp [eq_comm]
  | some w => simp [serversOfJson_eq_ok]

theorem statedTimeouts_eq_ok {s : Json.Source} (hs : Json.source? v = some s) {t : Timeouts} :
    statedTimeouts spare s = .ok t ↔ StatesTimeouts spare v t := by
  unfold statedTimeouts StatesTimeouts
  rw [Json.value?_of_source? hs]
  cases v.member? 1 "timeouts" with
  | none => simp [eq_comm]
  | some w => simp

/-- A setup is read wherever its parts are, and it is the one that is built of them. -/
theorem ofJson_eq_ok {c : Setup} :
    Setup.ofJson spare v = .ok c ↔ IsRecord spare 2 v ∧ ∃ calls t, StatesServers spare v calls ∧
      StatesTimeouts spare v t ∧ c = ({ timeouts := t } : Setup).withServers calls := by
  unfold Setup.ofJson
  rw [bind_eq_ok]
  constructor
  · rintro ⟨s, hs, h⟩
    rw [orMalformed_eq_ok] at hs
    obtain ⟨calls, hcalls, h⟩ := bind_eq_ok.mp h
    obtain ⟨t, ht, h⟩ := bind_eq_ok.mp h
    obtain ⟨_, hrecord, ⟨rfl⟩⟩ := bind_eq_ok.mp h
    exact ⟨(record_eq_ok.mp hrecord).2, calls, t, (statedServers_eq_ok hs).mp hcalls,
      (statedTimeouts_eq_ok hs).mp ht, rfl⟩
  · rintro ⟨hrecord, calls, t, hcalls, ht, rfl⟩
    obtain ⟨s, hs⟩ := exists_source hrecord
    refine ⟨s, orMalformed_eq_ok.mpr hs, ?_⟩
    rw [(statedServers_eq_ok hs).mpr hcalls, (statedTimeouts_eq_ok hs).mpr ht,
      record_eq_ok.mpr ⟨hs, hrecord⟩]
    rfl

theorem ofText_eq_ok {text : String} {c : Setup} :
    ofText text = .ok c ↔ ∃ v, Toml.ofString? text = some v ∧ Setup.ofJson true v = .ok c := by
  unfold ofText
  split
  case h_1 v hv => simp [hv]
  case h_2 hnone => simp [hnone]

end LanguageClient.Setup
