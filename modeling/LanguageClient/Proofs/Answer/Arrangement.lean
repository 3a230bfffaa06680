import LanguageClient.Proofs.Answer.Forest
import LanguageClient.Proofs.Answer.Symbols

namespace LanguageClient.Symbol

/-- At an address of an answer there is a value that tells of this symbol, and so does every value
on the way there. -/
inductive Stands : List Json → List Nat → Symbol → Prop
  | top {items below : List Json} {i : Nat} {v : Json} {s : Symbol} (value : items[i]? = some v)
      (told : s.ToldBy below v) : Stands items [i] s
  | under {items below : List Json} {i : Nat} {v : Json} {s u : Symbol} {address : List Nat}
      (value : items[i]? = some v) (told : s.ToldBy below v) (there : Stands below address u) :
      Stands items (i :: address) u

/-- Each symbol of an answer has its node in a forest, at the place of its address. -/
structure Arranges (items : List Json) (forest : List Symbol) (place : List Nat → List Nat) :
    Prop where
  shown {a : List Nat} {s : Symbol} :
    Stands items a s → ∃ u, Node forest (place a) u ∧ u.alone = s
  /-- No node is there for anything else. -/
  told {b : List Nat} {u : Symbol} :
    Node forest b u → ∃ a, Stands items a u.alone ∧ place a = b
  once {a b : List Nat} {s t : Symbol} :
    Stands items a s → Stands items b t → place a = place b → a = b
  root : place [] = []
  /-- What is below a value is below its node. -/
  kept {a : List Nat} {i : Nat} {s : Symbol} :
    Stands items (a ++ [i]) s → ∃ k, place (a ++ [i]) = place a ++ [k]
  ordered {a : List Nat} {i j k l : Nat} {s t : Symbol} :
    Stands items (a ++ [i]) s → Stands items (a ++ [j]) t →
      place (a ++ [i]) = place a ++ [k] → place (a ++ [j]) = place a ++ [l] →
      (k < l ↔ s.Precedes t ∨ s.Ties t ∧ i < j)

/-- Symbols beside one another: those at the top, or those below one node. -/
def Level (forest level : List Symbol) : Prop :=
  level = forest ∨ ∃ address s, Node forest address s ∧ level = s.children

section Placing

variable {items below : List Json} {v : Json} {s u : Symbol} {i : Nat} {a b : List Nat}

theorem sort_usable (items : List Json) :
    sort (usable items) = sortBy key (items.filterMap ofJson?) := by
  rw [sort_eq, usable_eq]

def valuesUnder (items : List Json) (i : Nat) : List Json :=
  (items[i]?.map valuesBelow).getD []

/-- Where the value at an address is shown. On every level, it has gone to where sorting takes it. -/
def place : List Json → List Nat → List Nat
  | _, [] => []
  | items, i :: a => rank key ofJson? items i :: place (valuesUnder items i) a

theorem stands_cons_iff : Stands items (i :: a) u ↔
    ∃ v below s, items[i]? = some v ∧ s.ToldBy below v ∧
      (a = [] ∧ u = s ∨ Stands below a u) := by
  constructor
  · rintro (⟨value, told⟩ | ⟨value, told, there⟩)
    · exact ⟨_, _, u, value, told, .inl ⟨rfl, rfl⟩⟩
    · exact ⟨_, _, _, value, told, .inr there⟩
  · rintro ⟨v, below, s, value, told, ⟨rfl, rfl⟩ | there⟩
    · exact .top value told
    · exact .under value told there

theorem valuesUnder_eq (value : items[i]? = some v) (told : s.ToldBy below v) :
    valuesUnder items i = below := by
  rw [valuesUnder, value, Option.map_some, Option.getD_some, told.valuesBelow]

theorem length_place (items : List Json) (a : List Nat) : (place items a).length = a.length := by
  induction a generalizing items with
  | nil => rfl
  | cons i a ih => rw [place, List.length_cons, List.length_cons, ih]

theorem place_append (items : List Json) (a b : List Nat) :
    place items (a ++ b) = place items a ++ place (a.foldl valuesUnder items) b := by
  induction a generalizing items with
  | nil => rfl
  | cons i a ih => rw [List.cons_append, place, ih, List.foldl_cons, place, List.cons_append]

theorem exists_of_stands (h : Stands items (a ++ [i]) s) :
    ∃ v below, (a.foldl valuesUnder items)[i]? = some v ∧ s.ToldBy below v := by
  induction a generalizing items with
  | nil =>
    obtain ⟨v, below, t, value, told, ⟨-, rfl⟩ | there⟩ := stands_cons_iff.mp h
    · exact ⟨v, below, value, told⟩
    · cases there
  | cons j a ih =>
    obtain ⟨v, below, t, value, told, ⟨hnil, -⟩ | there⟩ := stands_cons_iff.mp h
    · simp at hnil
    · rw [List.foldl_cons, valuesUnder_eq value told]
      exact ih there

theorem node_of_stands (h : Stands items a s) :
    ∃ u, Node (sort (usable items)) (place items a) u ∧ u.alone = s := by
  induction h with
  | top value told =>
    obtain ⟨u, hread, halone, -⟩ := told.exists_ofJson?
    refine ⟨u, .top ?_, halone⟩
    rw [sort_usable]
    exact sortBy_rank key value hread
  | under value told _ ih =>
    obtain ⟨t, hread, -, hchildren⟩ := told.exists_ofJson?
    obtain ⟨u, hu, halone⟩ := ih
    refine ⟨u, .under (s := t) ?_ ?_, halone⟩
    · rw [sort_usable]
      exact sortBy_rank key value hread
    · rwa [hchildren, valuesUnder_eq value told]

theorem stands_of_node (h : Node (sort (usable items)) b u) :
    ∃ a, Stands items a u.alone ∧ place items a = b := by
  induction b generalizing items with
  | nil => exact absurd h not_node_nil
  | cons k b ih =>
    obtain ⟨t, ht, hrest⟩ := node_cons_iff.mp h
    rw [sort_usable] at ht
    obtain ⟨i, v, value, hread, rfl⟩ := exists_rank key ht
    obtain ⟨below, told, hchildren⟩ := ofJson?_eq_some.mp hread
    obtain ⟨rfl, rfl⟩ | hnode := hrest
    · exact ⟨[i], .top value told, rfl⟩
    · rw [hchildren] at hnode
      obtain ⟨a, hstands, rfl⟩ := ih hnode
      refine ⟨i :: a, .under value told hstands, ?_⟩
      rw [place, valuesUnder_eq value told]

theorem eq_of_place_eq {t : Symbol} (ha : Stands items a s) (hb : Stands items b t)
    (h : place items a = place items b) : a = b := by
  induction a generalizing items b with
  | nil => cases ha
  | cons i a ih =>
    obtain _ | ⟨j, b⟩ := b
    · cases hb
    obtain ⟨v, below, s', value, told, hrest⟩ := stands_cons_iff.mp ha
    obtain ⟨w, below', t', value', told', hrest'⟩ := stands_cons_iff.mp hb
    obtain ⟨hrank, htail⟩ := List.cons.inj h
    obtain ⟨x, hx, -⟩ := told.exists_ofJson?
    obtain ⟨y, hy, -⟩ := told'.exists_ofJson?
    obtain rfl := eq_of_rank_eq key value hx value' hy hrank
    have hunder := valuesUnder_eq value told
    obtain rfl : below' = below := (valuesUnder_eq value' told').symm.trans hunder
    have hlength : a.length = b.length := by
      simpa [length_place] using congrArg List.length htail
    -- either both end here, or both go on below the same value
    obtain ⟨rfl, -⟩ | there := hrest
    · rw [List.eq_nil_of_length_eq_zero hlength.symm]
    · obtain ⟨rfl, -⟩ | there' := hrest'
      · rw [List.eq_nil_of_length_eq_zero hlength]
      · rw [hunder] at htail
        rw [ih there there' htail]

/-- Symbols beside one another go by their keys and, for the same key, by their order. -/
theorem place_lt_iff {j k l : Nat} {t : Symbol} (hs : Stands items (a ++ [i]) s)
    (ht : Stands items (a ++ [j]) t) (hk : place items (a ++ [i]) = place items a ++ [k])
    (hl : place items (a ++ [j]) = place items a ++ [l]) :
    k < l ↔ s.Precedes t ∨ s.Ties t ∧ i < j := by
  obtain ⟨v, below, value, told⟩ := exists_of_stands hs
  obtain ⟨w, below', value', told'⟩ := exists_of_stands ht
  obtain ⟨x, hx, rfl, -⟩ := told.exists_ofJson?
  obtain ⟨y, hy, rfl, -⟩ := told'.exists_ofJson?
  rw [place_append, List.append_cancel_left_eq] at hk hl
  obtain ⟨rfl, -⟩ := List.cons.inj hk
  obtain ⟨rfl, -⟩ := List.cons.inj hl
  rw [rank_lt_rank_iff key value hx value' hy, precedes_iff_key, ties_iff_key, key_alone, key_alone]

theorem arranges_place (items : List Json) :
    Arranges items (sort (usable items)) (place items) where
  shown := node_of_stands
  told := stands_of_node
  once := eq_of_place_eq
  root := rfl
  kept _ := ⟨_, place_append items _ _⟩
  ordered := place_lt_iff

theorem exists_of_level {level : List Symbol} (h : Level (sort (usable items)) level) :
    ∃ below, level = sort (usable below) := by
  obtain rfl | ⟨b, s, hnode, rfl⟩ := h
  · exact ⟨items, rfl⟩
  · induction b generalizing items with
    | nil => exact absurd hnode not_node_nil
    | cons k b ih =>
      obtain ⟨t, ht, hrest⟩ := node_cons_iff.mp hnode
      rw [sort_usable] at ht
      obtain ⟨i, v, -, hread, -⟩ := exists_rank key ht
      obtain ⟨below, -, hchildren⟩ := ofJson?_eq_some.mp hread
      obtain ⟨-, rfl⟩ | hnode := hrest
      · exact ⟨below, hchildren⟩
      · rw [hchildren] at hnode
        exact ih hnode

theorem pairwise_sort (symbols : List Symbol) :
    (sort symbols).Pairwise fun s t => ¬ t.Precedes s := by
  rw [sort_eq]
  refine (pairwise_sortBy key symbols).imp fun h => ?_
  rwa [precedes_iff_key, not_lt]

end Placing

end LanguageClient.Symbol
