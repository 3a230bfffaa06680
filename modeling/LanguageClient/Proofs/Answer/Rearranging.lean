import LanguageClient.Proofs.Answer.Arrangement

namespace LanguageClient.Symbol

/-- Both values tell of symbols that start at the same place and have the same name. -/
def TiedValues (v w : Json) : Prop :=
  ∃ (s t : Symbol) (below below' : List Json), s.ToldBy below v ∧ t.ToldBy below' w ∧ s.Ties t

/-- The value with other values below it. -/
def putBelow (v : Json) (below : List Json) : Json :=
  match v with
  | .obj fields => .obj (Table.set "children" (.arr below) fields)
  | .arr items => .arr (items.set 5 (.arr below))
  | v => v

/-- Values that differ only in the order of those beside one another that are not tied, here or
anywhere below. -/
inductive Rearranged : List Json → List Json → Prop
  | refl (items : List Json) : Rearranged items items
  | swap {v w : Json} (free : ¬ TiedValues v w) (rest : List Json) :
      Rearranged (v :: w :: rest) (w :: v :: rest)
  | cons (v : Json) {items items' : List Json} (behind : Rearranged items items') :
      Rearranged (v :: items) (v :: items')
  | deeper {v : Json} {below below' : List Json} (rest : List Json)
      (here : v.member? 5 "children" = some (.arr below)) (there : Rearranged below below') :
      Rearranged (v :: rest) (putBelow v below' :: rest)
  | trans {xs ys zs : List Json} (first : Rearranged xs ys) (second : Rearranged ys zs) :
      Rearranged xs zs

section Ties

variable {v w : Json}

instance (s t : Symbol) : Decidable (s.Ties t) :=
  inferInstanceAs (Decidable (_ ∧ _))

theorem tiedValues_iff : TiedValues v w ↔
    ∃ s, ofJson? v = some s ∧ ∃ t, ofJson? w = some t ∧ s.Ties t := by
  constructor
  · rintro ⟨_, _, below, below', told, told', hties⟩
    obtain ⟨s, hs, rfl, -⟩ := told.exists_ofJson?
    obtain ⟨t, ht, rfl, -⟩ := told'.exists_ofJson?
    rw [ties_iff_key, key_alone, key_alone, ← ties_iff_key] at hties
    exact ⟨s, hs, t, ht, hties⟩
  · rintro ⟨s, hs, t, ht, hties⟩
    obtain ⟨below, told, -⟩ := ofJson?_eq_some.mp hs
    obtain ⟨below', told', -⟩ := ofJson?_eq_some.mp ht
    rw [ties_iff_key, ← key_alone s, ← key_alone t, ← ties_iff_key] at hties
    exact ⟨_, _, below, below', told, told', hties⟩

instance (v w : Json) : Decidable (TiedValues v w) :=
  decidable_of_iff ((ofJson? v).any fun s => (ofJson? w).any fun t => s.Ties t) <| by
    rw [tiedValues_iff]
    cases ofJson? v <;> cases ofJson? w <;> simp

end Ties

section Members

variable {α : Type} {v : Json} {below below' : List Json} {place : Nat} {key : String}

theorem member?_putBelow_of_ne (hplace : place ≠ 5) (hkey : key ≠ "children") :
    (putBelow v below').member? place key = v.member? place key := by
  cases v with
  | obj fields => simp [putBelow, Json.member?, Json.field?, hkey.symm]
  | arr items => simp [putBelow, Json.member?, hplace.symm]
  | null | bool | int | float | str => rfl

theorem member?_putBelow (hv : v.member? 5 "children" = some (.arr below)) :
    (putBelow v below').member? 5 "children" = some (.arr below') := by
  cases v with
  | obj fields => simp [putBelow, Json.member?, Json.field?]
  | arr items =>
    obtain ⟨hlength, -⟩ := List.getElem?_eq_some_iff.mp hv
    simp [putBelow, Json.member?, hlength]
  | null | bool | int | float | str => cases hv

theorem isRecord_putBelow {size : Nat} : (putBelow v below').IsRecord size ↔ v.IsRecord size := by
  cases v <;> simp [putBelow, Json.IsRecord]

theorem holds_putBelow (hplace : place ≠ 5) (hkey : key ≠ "children") (is : Json → Prop) :
    (putBelow v below').Holds place key is ↔ v.Holds place key is := by
  rw [Json.Holds, Json.Holds, member?_putBelow_of_ne hplace hkey]

theorem mayHold_putBelow (hplace : place ≠ 5) (hkey : key ≠ "children") (is : α → Json → Prop)
    (x? : Option α) :
    (putBelow v below').MayHold place key is x? ↔ v.MayHold place key is x? := by
  cases x? with
  | some x => exact holds_putBelow hplace hkey (is x)
  | none =>
    unfold Json.MayHold
    rw [member?_putBelow_of_ne hplace hkey]
    cases v with
    | obj fields => simp [putBelow, Json.field?, hkey.symm]
    | arr items => simp [putBelow]
    | null | bool | int | float | str => exact Iff.rfl

theorem toldBy_putBelow {s : Symbol} (hv : v.member? 5 "children" = some (.arr below)) :
    s.ToldBy below' (putBelow v below') ↔ s.ToldBy below v := by
  have hgiven (t : Told) : t.GivenBy below' (putBelow v below') ↔ t.GivenBy below v := by
    have hchildren : (putBelow v below').Holds 5 "children" (· = .arr below') :=
      ⟨_, member?_putBelow hv, rfl⟩
    have hchildren' : v.Holds 5 "children" (· = .arr below) := ⟨_, hv, rfl⟩
    simp (disch := decide) only [Told.GivenBy, isRecord_putBelow, holds_putBelow, mayHold_putBelow,
      hchildren, hchildren', true_or]
  simp only [ToldBy, hgiven]

/-- What is read of a value, where it is known what is below it. -/
theorem ofJson?_eq_some_of_member? {s : Symbol}
    (hv : v.member? 5 "children" = some (.arr below)) :
    ofJson? v = some s ↔ s.alone.ToldBy below v ∧ s.children = sort (usable below) := by
  rw [ofJson?_eq_some]
  refine ⟨?_, fun h => ⟨below, h⟩⟩
  rintro ⟨below', told, hchildren⟩
  have hbelow : below' = below := by
    rw [← told.valuesBelow, valuesBelow, hv]
    rfl
  subst hbelow
  exact ⟨told, hchildren⟩

/-- What is read of a value depends on the values below it only by what can be read of them, in its
order. -/
theorem ofJson?_putBelow (hv : v.member? 5 "children" = some (.arr below))
    (hsort : sort (usable below') = sort (usable below)) :
    ofJson? (putBelow v below') = ofJson? v := by
  refine Option.ext fun s => ?_
  rw [ofJson?_eq_some_of_member? (member?_putBelow hv), ofJson?_eq_some_of_member? hv,
    toldBy_putBelow hv, hsort]

end Members

section Keys

variable {items items' : List Json}

theorem usable_cons (v : Json) (items : List Json) :
    usable (v :: items) = (ofJson? v).toList ++ usable items := by
  rw [usable]
  cases ofJson? v <;> rfl

theorem filter_swap {s? t? : Option Symbol} (k : (ℕ ×ₗ ℕ) ×ₗ String)
    (h : ∀ s t, s? = some s → t? = some t → s.key ≠ t.key) :
    (t?.toList ++ s?.toList).filter (key · = k) = (s?.toList ++ t?.toList).filter (key · = k) := by
  cases s? with
  | none => simp
  | some s =>
    cases t? with
    | none => simp
    | some t =>
      have hne := h s t rfl rfl
      by_cases hs : s.key = k
      · have ht : ¬ t.key = k := fun ht => hne (hs.trans ht.symm)
        simp [hs, ht]
      · simp [hs, List.filter_cons]

theorem sort_congr {symbols symbols' : List Symbol}
    (h : ∀ k, symbols.filter (key · = k) = symbols'.filter (key · = k)) :
    sort symbols = sort symbols' := by
  rw [sort_eq, sort_eq, sortBy_congr key h]

theorem Rearranged.filter_usable (h : Rearranged items items') (k : (ℕ ×ₗ ℕ) ×ₗ String) :
    (usable items').filter (key · = k) = (usable items).filter (key · = k) := by
  -- for all keys at once: what is below a value is read as a whole
  induction h generalizing k with
  | refl => rfl
  | @swap v w free rest =>
    simp only [usable_cons, ← List.append_assoc]
    rw [List.filter_append (_ ++ _), List.filter_append (_ ++ _),
      filter_swap k fun s t hs ht hkey =>
        free (tiedValues_iff.mpr ⟨s, hs, t, ht, ties_iff_key.mpr hkey⟩)]
  | cons v _ ih => rw [usable_cons, usable_cons, List.filter_append, List.filter_append, ih]
  | deeper rest here there ih =>
    rw [usable_cons, usable_cons, ofJson?_putBelow here (sort_congr ih)]
  | trans _ _ ih ih' => exact (ih' k).trans (ih k)

/-- Values of which no two are tied may stand in any order. -/
theorem rearranged_of_perm (h : items.Perm items')
    (hfree : items.Pairwise fun v w => ¬ TiedValues v w) : Rearranged items items' := by
  have hsymm {v w : Json} (h : ¬ TiedValues v w) : ¬ TiedValues w v := by
    rintro ⟨s, t, below, below', told, told', hstart, hname⟩
    exact h ⟨t, s, below', below, told', told, hstart.symm, hname.symm⟩
  induction h with
  | nil => exact .refl []
  | cons v _ ih => exact .cons v (ih hfree.tail)
  | swap v w rest => exact .swap (List.rel_of_pairwise_cons hfree List.mem_cons_self) rest
  | trans first _ ih ih' => exact (ih hfree).trans (ih' ((first.pairwise_iff hsymm).mp hfree))

end Keys

/-- An answer is shown as a forest: each value that tells of a symbol, and is below none but such, has
one node, below that of the value above it. On every level the symbols go by where they start and by
the bytes of their names, and then by their order in the answer, so that another order of what is not
tied makes no difference. A walk comes to every node once, and to what is below it later. -/
theorem answers_become_forests (items : List Json) :
    (∃ place, Arranges items (ofAnswer (.arr items)) place) ∧
      (∀ level, Level (ofAnswer (.arr items)) level →
        level.Pairwise fun s t => ¬ t.Precedes s) ∧
      (∀ items', Rearranged items items' → ofAnswer (.arr items') = ofAnswer (.arr items)) ∧
      IsWalk (ofAnswer (.arr items)) (walkAll (ofAnswer (.arr items))) := by
  refine ⟨⟨_, arranges_place items⟩, fun level hlevel => ?_, fun items' h => ?_,
    isWalk_walkAll _⟩
  · obtain ⟨below, rfl⟩ := exists_of_level hlevel
    exact pairwise_sort (usable below)
  · exact sort_congr h.filter_usable

def noted (name : String) (line : UInt32) (others : List (String × Json)) : Json :=
  .ofFields (("name", .str name) :: ("range", Range.json ⟨⟨line, 0⟩, ⟨line, 9⟩⟩) :: others)

/-- Two methods, and between them something that has no range. -/
def methods : List Json :=
  [noted "b" 7 [], .ofFields [("name", .str "lost")], noted "a" 6 []]

/-- A function is told by its location alone. -/
def function : Json :=
  .ofFields [("name", .str "f"), ("location", Location.json ⟨"file:///a", ⟨⟨1, 0⟩, ⟨2, 0⟩⟩⟩)]

def classOf (below : List Json) : Json :=
  noted "C" 5 [("children", .arr below)]

theorem answers_become_forests_shuffled :
    let reply := [classOf methods, .null, function]
    let shuffled := [function, classOf methods.reverse, .null]
    Rearranged reply shuffled ∧ ofAnswer (.arr shuffled) = ofAnswer (.arr reply) ∧
      (ofAnswer (.arr reply)).length = 2 := by
  intro reply shuffled
  have hbelow : Rearranged methods methods.reverse :=
    rearranged_of_perm (List.reverse_perm methods).symm (by decide +kernel)
  have hmember : (classOf methods).member? 5 "children" = some (.arr methods) := by
    simp [classOf, noted, Json.ofFields, Json.member?, Json.field?, Table.ofEntries]
  have hclass : Rearranged reply [classOf methods.reverse, .null, function] :=
    .deeper [.null, function] hmember hbelow
  have hreply : Rearranged reply shuffled :=
    hclass.trans (rearranged_of_perm
      (List.perm_append_singleton function [classOf methods.reverse, .null]) (by decide +kernel))
  have hlength : (ofAnswer (.arr reply)).length = 2 := by
    rw [ofAnswer, sort, List.length_mergeSort]
    decide +kernel
  obtain ⟨-, -, hsame, -⟩ := answers_become_forests reply
  exact ⟨hreply, hsame _ hreply, hlength⟩

end LanguageClient.Symbol
