import LanguageClient.Position
import LanguageClient.Proofs.Json.Record
import Mathlib.Data.Prod.Lex

namespace LanguageClient

namespace Position

variable {p q : Position} {v : Json}

/-- Places are in the order of these pairs. -/
def key (p : Position) : ℕ ×ₗ ℕ :=
  toLex (p.line.toNat, p.character.toNat)

theorem lt_iff_key : p < q ↔ p.key < q.key := by
  show p.line < q.line ∨ p.line = q.line ∧ p.character < q.character ↔ _
  simp [key, Prod.Lex.toLex_lt_toLex, UInt32.lt_iff_toNat_lt, ← UInt32.toNat_inj]

theorem key_injective : Function.Injective key := by
  rintro ⟨line, character⟩ ⟨line', character'⟩ h
  obtain ⟨hline, hcharacter⟩ := Prod.mk.inj (toLex.injective h)
  exact congrArg₂ Position.mk (UInt32.toNat_inj.mp hline) (UInt32.toNat_inj.mp hcharacter)

/-- The value gives a place, by its line and its character. -/
def GivenBy (p : Position) (v : Json) : Prop :=
  v.IsRecord 2 ∧ v.Holds 0 "line" (· = .nat p.line.toNat) ∧
    v.Holds 1 "character" (· = .nat p.character.toNat)

theorem reads_ofJson? : Json.Reads ofJson? GivenBy := by
  refine fun v p => Json.record?_eq_some fun s hs => ?_
  simp only [Option.bind_eq_bind, Option.bind_eq_some_iff,
    Json.required_eq_some hs Json.reads_uint32?]
  constructor
  · rintro ⟨line, hline, character, hcharacter, heq⟩
    cases heq
    exact ⟨hline, hcharacter⟩
  · rintro ⟨hline, hcharacter⟩
    exact ⟨_, hline, _, hcharacter, rfl⟩

theorem givenBy_json (p : Position) : p.GivenBy p.json := by
  simp [GivenBy, json, Json.IsRecord, Json.Holds, Json.member?, Json.ofFields, Json.field?,
    Table.ofEntries]

end Position

namespace Range

def GivenBy (r : Range) (v : Json) : Prop :=
  v.IsRecord 2 ∧ v.Holds 0 "start" r.start.GivenBy ∧ v.Holds 1 "end" r.stop.GivenBy

theorem reads_ofJson? : Json.Reads ofJson? GivenBy := by
  refine fun v r => Json.record?_eq_some fun s hs => ?_
  simp only [Option.bind_eq_bind, Option.bind_eq_some_iff,
    Json.required_eq_some hs Position.reads_ofJson?]
  constructor
  · rintro ⟨start, hstart, stop, hstop, heq⟩
    cases heq
    exact ⟨hstart, hstop⟩
  · rintro ⟨hstart, hstop⟩
    exact ⟨_, hstart, _, hstop, rfl⟩

theorem givenBy_json (r : Range) : r.GivenBy r.json := by
  simp [GivenBy, json, Json.IsRecord, Json.Holds, Json.member?, Json.ofFields, Json.field?,
    Table.ofEntries, Position.givenBy_json]

end Range
end LanguageClient
