import LanguageClient.Json.Decode
import LanguageClient.Proofs.Message

namespace LanguageClient.Json

variable {α : Type} {v : Json} {place size : Nat} {key : String}

def member? (v : Json) (place : Nat) (key : String) : Option Json :=
  match v with
  | .obj fields => field? key fields
  | .arr items => items[place]?
  | _ => none

/-- The value can be a record of so many members. An object may hold others besides, and an array
may not. -/
def IsRecord (v : Json) (size : Nat) : Prop :=
  match v with
  | .obj _ => True
  | .arr items => items.length ≤ size
  | _ => False

def Holds (v : Json) (place : Nat) (key : String) (is : Json → Prop) : Prop :=
  ∃ w, v.member? place key = some w ∧ is w

/-- A member that there need not be: it may be `null`, and an object may do without. -/
def MayHold (v : Json) (place : Nat) (key : String) (is : α → Json → Prop) : Option α → Prop
  | some x => v.Holds place key (is x)
  | none => v.member? place key = some .null ∨
      ∃ fields, v = .obj fields ∧ field? key fields = none

/-- What is decoded is what is given by the value. -/
def Reads (decode : Json → Option α) (is : α → Json → Prop) : Prop :=
  ∀ v x, decode v = some x ↔ is x v

section Scalars

theorem isNull_iff {v : Json} : v.isNull = true ↔ v = .null := by
  cases v <;> simp [isNull]

theorem str?_eq_some {v : Json} {s : String} : v.str? = some s ↔ v = .str s := by
  cases v <;> simp [str?]

theorem arr?_eq_some {v : Json} {items : List Json} : v.arr? = some items ↔ v = .arr items := by
  cases v <;> simp [arr?]

theorem int?_bind_eq_some {P : Int → Prop} [DecidablePred P] {f : Int → α} {x : α} :
    (v.int?.bind fun n => if P n then some (f n) else none) = some x ↔
      ∃ n, v = .int n ∧ P n ∧ f n = x := by
  cases v with
  | int m => simp
  | null | bool | float | str | arr | obj => simp [int?]

theorem word?_eq_some {v : Json} {id : UInt64} : v.word? = some id ↔ v = nat id.toNat := by
  refine int?_bind_eq_some.trans ⟨?_, ?_⟩
  · rintro ⟨n, rfl, ⟨hpos, hlt⟩, rfl⟩
    have hword : n.toNat < UInt64.size := by omega
    rw [UInt64.toNat_ofNat_of_lt' hword, nat, Int.toNat_of_nonneg hpos]
  · rintro rfl
    exact ⟨_, rfl, ⟨Int.natCast_nonneg _, Int.ofNat_lt.mpr id.toNat_lt_size⟩, by simp⟩

theorem uint32?_eq_some {v : Json} {n : UInt32} : v.uint32? = some n ↔ v = nat n.toNat := by
  refine int?_bind_eq_some.trans ⟨?_, ?_⟩
  · rintro ⟨m, rfl, ⟨hpos, hlt⟩, rfl⟩
    have hword : m.toNat < UInt32.size := by omega
    rw [UInt32.toNat_ofNat_of_lt' hword, nat, Int.toNat_of_nonneg hpos]
  · rintro rfl
    exact ⟨_, rfl, ⟨Int.natCast_nonneg _, Int.ofNat_lt.mpr n.toNat_lt_size⟩, by simp⟩

theorem int64?_eq_some {v : Json} {n : Int} :
    v.int64? = some n ↔ v = .int n ∧ -0x8000000000000000 ≤ n ∧ n < 0x8000000000000000 := by
  refine int?_bind_eq_some.trans ⟨?_, ?_⟩
  · rintro ⟨m, rfl, hbounds, rfl⟩
    exact ⟨rfl, hbounds⟩
  · rintro ⟨rfl, hbounds⟩
    exact ⟨n, rfl, hbounds, rfl⟩

theorem reads_str? : Reads str? fun s v => v = .str s := fun _ _ => str?_eq_some

theorem reads_arr? : Reads arr? fun items v => v = .arr items := fun _ _ => arr?_eq_some

theorem reads_word? : Reads word? fun n v => v = .nat n.toNat := fun _ _ => word?_eq_some

theorem reads_uint32? : Reads uint32? fun n v => v = .nat n.toNat := fun _ _ => uint32?_eq_some

end Scalars

section Members

variable {decode : Json → Option α} {is : α → Json → Prop} {s : Source} {x : α}

theorem value?_of_source? (hs : source? v = some s) : s.value? place key = v.member? place key := by
  cases v with
  | obj fields =>
    cases hs
    rfl
  | arr items =>
    cases hs
    rfl
  | null | bool | int | float | str => cases hs

theorem record?_eq_some {read : Source → Option α} {P : Prop}
    (hread : ∀ s, source? v = some s → (read s = some x ↔ P)) :
    record? size read v = some x ↔ v.IsRecord size ∧ P := by
  unfold record?
  cases v with
  | obj fields => simp [source?, Source.within, IsRecord, Option.filter, hread _ rfl]
  | arr items =>
    by_cases hlength : items.length ≤ size <;>
      simp [source?, Source.within, IsRecord, Option.filter, hread _ rfl, hlength]
  | null | bool | int | float | str => simp [source?, IsRecord]

theorem required_eq_some (hs : source? v = some s) (h : Reads decode is) :
    s.required place key decode = some x ↔ v.Holds place key (is x) := by
  rw [Source.required, value?_of_source? hs, Option.bind_eq_some_iff]
  simp only [Holds, h _ x]

theorem nullable_eq_some {w : Json} {x? : Option α} (h : Reads decode is)
    (hnull : decode .null = none) :
    nullable decode w = some x? ↔ w = .null ∧ x? = none ∨ ∃ x, x? = some x ∧ is x w := by
  by_cases hw : w = .null
  · subst hw
    have hnot : ∀ x, ¬ is x .null := fun x hx => by
      rw [(h _ x).mpr hx] at hnull
      cases hnull
    simp [nullable, hnot, eq_comm]
  · have hdecode : nullable decode w = (decode w).map some := by
      cases w with
      | null => exact absurd rfl hw
      | bool | int | float | str | arr | obj => rfl
    rw [hdecode, Option.map_eq_some_iff]
    simp only [h w, hw, false_and, false_or, and_comm, eq_comm]

theorem optional_eq_some {x? : Option α} (hs : source? v = some s) (h : Reads decode is)
    (hnull : decode .null = none) :
    s.optional place key decode = some x? ↔ v.MayHold place key is x? := by
  unfold Source.optional
  rw [value?_of_source? hs]
  cases hw : v.member? place key with
  | some w =>
    have hfields : ∀ fields, v = .obj fields → field? key fields = some w := by
      rintro fields rfl
      exact hw
    cases x? <;> simp_all [nullable_eq_some h hnull, MayHold, Holds]
  | none =>
    cases v with
    | obj fields =>
      cases hs
      have hfield : field? key fields = none := hw
      cases x? <;> simp [MayHold, Holds, hw, hfield]
    | arr items =>
      cases hs
      cases x? <;> simp [MayHold, Holds, hw]
    | null | bool | int | float | str => cases hs

theorem defaulted_eq_some {default : α} (hs : source? v = some s) (h : Reads decode is) :
    s.defaulted place key default decode = some x ↔
      v.Holds place key (is x) ∨ v.member? place key = none ∧ x = default := by
  unfold Source.defaulted
  rw [value?_of_source? hs]
  cases hw : v.member? place key with
  | none => simp [Holds, hw, eq_comm]
  | some w => simp [Holds, hw, h w x]

end Members

end LanguageClient.Json
