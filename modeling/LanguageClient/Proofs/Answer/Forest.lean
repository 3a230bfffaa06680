import LanguageClient.Answer.Symbol
import Mathlib.Data.List.Forall2
import Mathlib.Data.List.Lex
import Mathlib.Data.List.Nodup

namespace LanguageClient.Symbol

inductive Node : List Symbol → List Nat → Symbol → Prop
  | top {forest : List Symbol} {i : Nat} {s : Symbol} (here : forest[i]? = some s) :
      Node forest [i] s
  | under {forest : List Symbol} {i : Nat} {s u : Symbol} {address : List Nat}
      (parent : forest[i]? = some s) (there : Node s.children address u) :
      Node forest (i :: address) u

/-- These are the nodes of the forest, each of them once, and none before the one that it is below. -/
def IsWalk (forest walked : List Symbol) : Prop :=
  ∃ addresses : List (List Nat), List.Forall₂ (Node forest) addresses walked ∧ addresses.Nodup ∧
    (∀ address s, Node forest address s → address ∈ addresses) ∧
    addresses.Pairwise fun a b => ∀ i, a ≠ b ++ [i]

mutual

/-- A walk, with the addresses below the symbol at which it begins. -/
def visits : Symbol → List (List Nat × Symbol)
  | mk name detail kind range selection children =>
    ([], mk name detail kind range selection children) :: visitsFrom 0 children

/-- A walk through a forest whose first symbol is at this place. -/
def visitsFrom : Nat → List Symbol → List (List Nat × Symbol)
  | _, [] => []
  | i, s :: rest => (visits s).map (fun (address, u) => (i :: address, u)) ++ visitsFrom (i + 1) rest

end

section Walking

variable {forest : List Symbol} {address : List Nat} {u : Symbol} {i : Nat}

theorem node_cons_iff : Node forest (i :: address) u ↔
    ∃ s, forest[i]? = some s ∧ (address = [] ∧ u = s ∨ Node s.children address u) := by
  constructor
  · rintro (⟨here⟩ | ⟨parent, there⟩)
    · exact ⟨u, here, .inl ⟨rfl, rfl⟩⟩
    · exact ⟨_, parent, .inr there⟩
  · rintro ⟨s, hs, ⟨rfl, rfl⟩ | there⟩
    · exact .top hs
    · exact .under hs there

theorem not_node_nil : ¬ Node forest [] u :=
  nofun

theorem visits_eq (s : Symbol) : visits s = ([], s) :: visitsFrom 0 s.children := by
  cases s
  rfl

mutual

theorem map_snd_visits (s : Symbol) : (visits s).map (·.2) = walk s := by
  cases s with
  | mk name detail kind range selection children =>
    rw [visits, walk, List.map_cons, map_snd_visitsFrom]

theorem map_snd_visitsFrom (i : Nat) (forest : List Symbol) :
    (visitsFrom i forest).map (·.2) = walkAll forest := by
  cases forest with
  | nil => rfl
  | cons s rest =>
    rw [visitsFrom, walkAll, List.map_append, List.map_map, map_snd_visitsFrom (i + 1) rest,
      ← map_snd_visits s]
    rfl

end

theorem mem_visitsFrom : (address, u) ∈ visitsFrom i forest ↔
    ∃ k s below, forest[k]? = some s ∧ address = (i + k) :: below ∧ (below, u) ∈ visits s := by
  induction forest generalizing i with
  | nil => simp [visitsFrom]
  | cons s rest ih =>
    rw [visitsFrom, List.mem_append, ih]
    constructor
    · rintro (h | ⟨k, t, below, ht, rfl, hbelow⟩)
      · obtain ⟨⟨below, w⟩, hbelow, heq⟩ := List.mem_map.mp h
        cases heq
        exact ⟨0, s, below, rfl, rfl, hbelow⟩
      · exact ⟨k + 1, t, below, ht, by rw [Nat.add_right_comm, Nat.add_assoc], hbelow⟩
    · rintro ⟨k, t, below, ht, rfl, hbelow⟩
      cases k with
      | zero =>
        cases ht
        exact .inl (List.mem_map.mpr ⟨_, hbelow, rfl⟩)
      | succ k => exact .inr ⟨k, t, below, ht, by rw [Nat.add_right_comm, Nat.add_assoc], hbelow⟩

theorem mem_visitsFrom_iff_node : (address, u) ∈ visitsFrom 0 forest ↔ Node forest address u := by
  -- by the address, which becomes shorter with each level, and not by the forest
  induction address generalizing forest with
  | nil => simp [mem_visitsFrom, not_node_nil]
  | cons i address ih =>
    have hvisits (s : Symbol) : (address, u) ∈ visits s ↔
        address = [] ∧ u = s ∨ Node s.children address u := by
      rw [visits_eq, List.mem_cons, ih, Prod.mk.injEq]
    simp only [mem_visitsFrom, node_cons_iff, ← hvisits, Nat.zero_add, List.cons.injEq]
    constructor
    · rintro ⟨_, s, _, hs, ⟨rfl, rfl⟩, h⟩
      exact ⟨s, hs, h⟩
    · rintro ⟨s, hs, h⟩
      exact ⟨i, s, address, hs, ⟨rfl, rfl⟩, h⟩

def addresses (visited : List (List Nat × Symbol)) : List (List Nat) :=
  visited.map (·.1)

theorem lt_of_mem_visitsFrom {b : List Nat} (h : b ∈ addresses (visitsFrom (i + 1) forest)) :
    (i :: address) < b := by
  obtain ⟨⟨_, u⟩, hmem, rfl⟩ := List.mem_map.mp h
  obtain ⟨k, _, below, _, rfl, _⟩ := mem_visitsFrom.mp hmem
  exact List.cons_lt_cons_iff.mpr (.inl (by omega))

mutual

/-- A walk goes along the addresses in their order. -/
theorem pairwise_visits (s : Symbol) : (addresses (visits s)).Pairwise (· < ·) := by
  cases s with
  | mk name detail kind range selection children =>
    refine List.pairwise_cons.mpr ⟨fun b hb => ?_, pairwise_visitsFrom 0 children⟩
    obtain ⟨⟨_, u⟩, hmem, rfl⟩ := List.mem_map.mp hb
    obtain ⟨k, _, below, _, rfl, _⟩ := mem_visitsFrom.mp hmem
    exact List.nil_lt_cons _ _

theorem pairwise_visitsFrom (i : Nat) (forest : List Symbol) :
    (addresses (visitsFrom i forest)).Pairwise (· < ·) := by
  cases forest with
  | nil => exact .nil
  | cons s rest =>
    have hsplit : addresses (visitsFrom i (s :: rest)) =
        (addresses (visits s)).map (i :: ·) ++ addresses (visitsFrom (i + 1) rest) := by
      simp [visitsFrom, addresses]
    rw [hsplit]
    refine List.pairwise_append.mpr ⟨?_, pairwise_visitsFrom (i + 1) rest, ?_⟩
    · refine List.pairwise_map.mpr ((pairwise_visits s).imp fun h => ?_)
      exact List.cons_lt_cons_iff.mpr (.inr ⟨rfl, h⟩)
    · intro a ha b hb
      obtain ⟨_, _, rfl⟩ := List.mem_map.mp ha
      exact lt_of_mem_visitsFrom hb

end

theorem lt_append_singleton (b : List Nat) (i : Nat) : b < b ++ [i] := by
  have h := List.Lex.append_left (· < ·) (List.nil_lt_cons i []) b
  rwa [List.append_nil] at h

theorem isWalk_walkAll (forest : List Symbol) : IsWalk forest (walkAll forest) := by
  have hordered := pairwise_visitsFrom 0 forest
  refine ⟨addresses (visitsFrom 0 forest), ?_, hordered.imp (fun h => ne_of_lt h), ?_, ?_⟩
  · rw [← map_snd_visitsFrom 0 forest, addresses, List.forall₂_map_left_iff,
      List.forall₂_map_right_iff, List.forall₂_same]
    exact fun _ h => mem_visitsFrom_iff_node.mp h
  · intro address s h
    exact List.mem_map.mpr ⟨_, mem_visitsFrom_iff_node.mpr h, rfl⟩
  · refine hordered.imp fun {a b} h i heq => ?_
    subst heq
    exact absurd (h.trans (lt_append_singleton b i)) (lt_irrefl _)

end Walking

end LanguageClient.Symbol
