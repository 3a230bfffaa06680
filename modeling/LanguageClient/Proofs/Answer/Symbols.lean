import LanguageClient.Answer.Symbol
import LanguageClient.Proofs.Position
import LanguageClient.Proofs.StableSort
import LanguageClient.Proofs.Text.Order

namespace LanguageClient

def Location.GivenBy (l : Location) (v : Json) : Prop :=
  v.IsRecord 2 ∧ v.Holds 0 "uri" (· = .str l.uri) ∧ v.Holds 1 "range" l.range.GivenBy

theorem Location.reads_plain? : Json.Reads plain? GivenBy := by
  refine fun v l => Json.record?_eq_some fun s hs => ?_
  simp only [Option.bind_eq_bind, Option.bind_eq_some_iff, Json.required_eq_some hs Json.reads_str?,
    Json.required_eq_some hs Range.reads_ofJson?]
  constructor
  · rintro ⟨uri, huri, range, hrange, heq⟩
    cases heq
    exact ⟨huri, hrange⟩
  · rintro ⟨huri, hrange⟩
    exact ⟨_, huri, _, hrange, rfl⟩

namespace Symbol

/-- The value says this, and these are the values below it. -/
def Told.GivenBy (t : Told) (below : List Json) (v : Json) : Prop :=
  v.IsRecord 7 ∧ v.Holds 0 "name" (· = .str t.name) ∧
    v.MayHold 1 "detail" (fun s w => w = .str s) t.detail ∧
    v.MayHold 2 "kind" (fun n w => w = .nat n.toNat) t.code ∧
    v.MayHold 3 "range" Range.GivenBy t.range ∧
    v.MayHold 4 "selectionRange" Range.GivenBy t.selection ∧
    (v.Holds 5 "children" (· = .arr below) ∨ v.member? 5 "children" = none ∧ below = []) ∧
    v.MayHold 6 "location" Location.GivenBy t.location

/-- The stretch is the symbol's own range or that of its location. -/
def Told.Spans (t : Told) (range : Range) : Prop :=
  t.range = some range ∨ t.range = none ∧ ∃ l, t.location = some l ∧ l.range = range

def alone : Symbol → Symbol
  | mk name detail kind range selection _ => mk name detail kind range selection []

/-- The value tells of this symbol, and these are the values below it. -/
def ToldBy (s : Symbol) (below : List Json) (v : Json) : Prop :=
  ∃ (t : Told) (range : Range), t.GivenBy below v ∧ t.Spans range ∧
    s = .mk t.name (t.detail.filter (· != "")) (t.code.bind fun n => Kind.ofCode? n.toNat) range
      (t.selection.getD range) []

section Reading

variable {v : Json} {below : List Json} {s : Symbol}

theorem Told.ofJson?_eq_some {t : Told} :
    Told.ofJson? v = some t ↔ ∃ below, t.GivenBy below v := by
  simp only [Told.GivenBy, exists_and_left]
  refine Json.record?_eq_some fun s hs => ?_
  simp only [Told.ofSource?, Option.bind_eq_bind, Option.bind_eq_some_iff,
    Json.required_eq_some hs Json.reads_str?, Json.optional_eq_some hs Json.reads_str? rfl,
    Json.optional_eq_some hs Json.reads_word? rfl, Json.optional_eq_some hs Range.reads_ofJson? rfl,
    Json.defaulted_eq_some hs Json.reads_arr?, Json.optional_eq_some hs Location.reads_plain? rfl]
  constructor
  · rintro ⟨name, hname, detail, hdetail, code, hcode, range, hrange, selection, hselection, below,
      hbelow, location, hlocation, heq⟩
    cases heq
    exact ⟨hname, hdetail, hcode, hrange, hselection, below, hbelow, hlocation⟩
  · rintro ⟨hname, hdetail, hcode, hrange, hselection, below, hbelow, hlocation⟩
    exact ⟨_, hname, _, hdetail, _, hcode, _, hrange, _, hselection, below, hbelow, _, hlocation, rfl⟩

/-- The values that are told below a value. -/
def valuesBelow (v : Json) : List Json :=
  ((v.member? 5 "children").bind Json.arr?).getD []

theorem Told.GivenBy.valuesBelow {t : Told} (h : t.GivenBy below v) : valuesBelow v = below := by
  obtain ⟨-, -, -, -, -, -, hbelow, -⟩ := h
  unfold Symbol.valuesBelow
  obtain ⟨w, hw, rfl⟩ | ⟨hw, rfl⟩ := hbelow
  · rw [hw]
    rfl
  · rw [hw]
    rfl

theorem children?_getD (w? : Option Json) :
    (w?.map children?).getD [] = usable ((w?.bind Json.arr?).getD []) := by
  cases w? with
  | none => rfl
  | some w => cases w <;> rfl

theorem fieldChildren_eq (fields : List (String × Json)) :
    fieldChildren fields = ((Json.field? "children" fields).map children?).getD [] := by
  induction fields with
  | nil => rfl
  | cons field rest ih =>
    obtain ⟨key, v⟩ := field
    unfold fieldChildren
    by_cases hkey : key = "children"
    · simp [hkey, Json.field?, Table.get?]
    · simpa [hkey, Json.field?, Table.get?] using ih

theorem placeChildren_eq (n : Nat) (items : List Json) :
    placeChildren n items = (items[n]?.map children?).getD [] := by
  induction items generalizing n with
  | nil => rfl
  | cons v rest ih =>
    cases n with
    | zero => rfl
    | succ n => exact ih n

theorem usable_eq (items : List Json) : usable items = items.filterMap ofJson? := by
  induction items with
  | nil => rfl
  | cons v rest ih =>
    rw [usable, List.filterMap_cons, ih]
    cases ofJson? v <;> rfl

theorem ofJson?_eq (v : Json) :
    ofJson? v = (Told.ofJson? v).bind fun t => t.symbol? (usable (valuesBelow v)) := by
  cases v with
  | obj fields =>
    rw [ofJson?, fieldChildren_eq, children?_getD]
    rfl
  | arr items =>
    rw [ofJson?, placeChildren_eq, children?_getD]
    rfl
  | null | bool | int | float | str => rfl

theorem extent_eq_some {t : Told} {range : Range} :
    (t.range <|> t.location.map (·.range)) = some range ↔ t.Spans range := by
  unfold Told.Spans
  cases t.range <;> simp

/-- What is read of a value is what it tells of, and below it what can be read there. -/
theorem ofJson?_eq_some : ofJson? v = some s ↔
    ∃ below, s.alone.ToldBy below v ∧ s.children = sort (usable below) := by
  obtain ⟨name, detail, kind, range, selection, children⟩ := s
  rw [ofJson?_eq, Option.bind_eq_some_iff]
  simp only [Told.symbol?, Option.bind_eq_bind, Option.bind_eq_some_iff, extent_eq_some]
  constructor
  · rintro ⟨t, ht, range, hrange, heq⟩
    obtain ⟨below, hbelow⟩ := Told.ofJson?_eq_some.mp ht
    cases heq
    rw [hbelow.valuesBelow]
    exact ⟨below, ⟨t, range, hbelow, hrange, rfl⟩, rfl⟩
  · rintro ⟨below, ⟨t, range, ht, hrange, halone⟩, rfl⟩
    cases halone
    refine ⟨t, Told.ofJson?_eq_some.mpr ⟨below, ht⟩, range, hrange, ?_⟩
    rw [ht.valuesBelow]
    rfl

theorem ToldBy.exists_ofJson? (h : s.ToldBy below v) :
    ∃ u, ofJson? v = some u ∧ u.alone = s ∧ u.children = sort (usable below) := by
  have halone : s.alone = s := by
    obtain ⟨t, range, -, -, rfl⟩ := h
    rfl
  obtain ⟨name, detail, kind, range, selection, children⟩ := s
  refine ⟨.mk name detail kind range selection (sort (usable below)), ?_, halone, rfl⟩
  exact ofJson?_eq_some.mpr ⟨below, by rwa [← halone] at h, rfl⟩

theorem ToldBy.valuesBelow (h : s.ToldBy below v) : valuesBelow v = below := by
  obtain ⟨t, _, ht, -⟩ := h
  exact ht.valuesBelow

end Reading

section Order

variable {s t : Symbol}

/-- One starts before the other or, where both start at the same place, has the smaller name. -/
def Precedes (s t : Symbol) : Prop :=
  s.range.start < t.range.start ∨ s.range.start = t.range.start ∧ utf8 s.name < utf8 t.name

/-- Both start at the same place and have the same name. -/
def Ties (s t : Symbol) : Prop :=
  s.range.start = t.range.start ∧ s.name = t.name

/-- Symbols are in the order of these keys. -/
def key (s : Symbol) : (ℕ ×ₗ ℕ) ×ₗ String :=
  toLex (s.range.start.key, s.name)

theorem precedes_iff_key : s.Precedes t ↔ s.key < t.key := by
  unfold Precedes key
  rw [Prod.Lex.toLex_lt_toLex, Position.lt_iff_key, utf8_lt_iff, Position.key_injective.eq_iff]

theorem ties_iff_key : s.Ties t ↔ s.key = t.key := by
  unfold Ties key
  rw [toLex.injective.eq_iff, Prod.mk.injEq, Position.key_injective.eq_iff]

theorem key_alone (s : Symbol) : s.alone.key = s.key := by
  cases s
  rfl

theorem sits_eq (s t : Symbol) : sits s t = decide (s.key ≤ t.key) := by
  have hkey : s.key ≤ t.key ↔ s.range.start.key < t.range.start.key ∨
      s.range.start.key = t.range.start.key ∧ s.name ≤ t.name := Prod.Lex.toLex_le_toLex
  simp only [sits, Position.order, Position.lt_iff_key, hkey]
  obtain hlt | heq | hgt := lt_trichotomy s.range.start.key t.range.start.key
  · simp [hlt]
  · simp [heq]
  · simp [hgt, hgt.not_gt, hgt.ne']

theorem sort_eq (symbols : List Symbol) : sort symbols = sortBy key symbols := by
  unfold sort sortBy
  congr 1
  funext s t
  exact sits_eq s t

end Order

end Symbol
end LanguageClient
