import Mathlib.Data.List.Nodup
import Mathlib.Order.Lattice

namespace LanguageClient

variable {α β κ : Type} [LinearOrder κ]

def sortBy (key : α → κ) (items : List α) : List α :=
  items.mergeSort fun a b => decide (key a ≤ key b)

section Order

variable (key : α → κ) {xs ys : List α}

theorem sortBy_perm (xs : List α) : (sortBy key xs).Perm xs :=
  List.mergeSort_perm _ _

theorem le_trans_decide (a b c : α) (hab : decide (key a ≤ key b) = true)
    (hbc : decide (key b ≤ key c) = true) : decide (key a ≤ key c) = true := by
  simp only [decide_eq_true_eq] at *
  exact hab.trans hbc

theorem le_total_decide (a b : α) :
    (decide (key a ≤ key b) || decide (key b ≤ key a)) = true := by
  simpa using le_total (key a) (key b)

theorem pairwise_sortBy (xs : List α) : (sortBy key xs).Pairwise fun a b => key a ≤ key b := by
  simpa [sortBy] using List.pairwise_mergeSort (le_trans_decide key) (le_total_decide key) xs

/-- The items of one key are the same as before, in the same order. -/
theorem filter_sortBy (xs : List α) (k : κ) :
    (sortBy key xs).filter (key · = k) = xs.filter (key · = k) := by
  have hsame : (xs.filter (key · = k)).Pairwise fun a b => decide (key a ≤ key b) = true := by
    refine List.pairwise_of_forall_mem_list fun a ha b hb => ?_
    have hkeys : key a = k ∧ key b = k := by simp_all
    simp [hkeys.1, hkeys.2]
  have hsublist : (xs.filter (key · = k)).Sublist (sortBy key xs) :=
    List.sublist_mergeSort (le_trans_decide key) (le_total_decide key) hsame List.filter_sublist
  have hfiltered := hsublist.filter (key · = k)
  rw [List.filter_filter] at hfiltered
  simp only [Bool.and_self] at hfiltered
  exact (hfiltered.eq_of_length (((sortBy_perm key xs).filter _).length_eq.symm)).symm

theorem pairwise_sortBy_of_pairwise {r : α → α → Prop} (h : xs.Pairwise r) :
    (sortBy key xs).Pairwise fun a b => key a < key b ∨ key a = key b ∧ r a b := by
  refine List.pairwise_iff_forall_sublist.mpr fun {a b} hab => ?_
  have hle := List.pairwise_iff_forall_sublist.mp (pairwise_sortBy key xs) hab
  obtain hlt | heq := hle.lt_or_eq
  · exact .inl hlt
  · have hpair := hab.filter (key · = key b)
    rw [filter_sortBy] at hpair
    have hkept : [a, b].filter (key · = key b) = [a, b] := by simp [heq]
    rw [hkept] at hpair
    have hold : [a, b].Sublist xs := hpair.trans List.filter_sublist
    exact .inr ⟨heq, List.pairwise_iff_forall_sublist.mp h hold⟩

theorem key_head_le {x : α} (hys : (x :: xs).Pairwise fun a b => key a ≤ key b) {y : α}
    (hy : y ∈ x :: xs) : key x ≤ key y := by
  obtain rfl | hy := List.mem_cons.mp hy
  · exact le_rfl
  · exact List.rel_of_pairwise_cons hys hy

/-- Of items in order, those of each key tell the list. -/
theorem eq_of_filter_eq (hxs : xs.Pairwise fun a b => key a ≤ key b)
    (hys : ys.Pairwise fun a b => key a ≤ key b)
    (h : ∀ k, xs.filter (key · = k) = ys.filter (key · = k)) : xs = ys := by
  have hmem {zs ws : List α} {z : α} (h : ∀ k, zs.filter (key · = k) = ws.filter (key · = k))
      (hz : z ∈ zs) : z ∈ ws := by
    have hkept : z ∈ zs.filter (key · = key z) := by simpa using hz
    rw [h] at hkept
    exact (List.mem_filter.mp hkept).1
  induction xs generalizing ys with
  | nil =>
    cases ys with
    | nil => rfl
    | cons y ys => cases hmem (fun k => (h k).symm) List.mem_cons_self
  | cons x xs ih =>
    cases ys with
    | nil => cases hmem h List.mem_cons_self
    | cons y ys =>
      have hkeys : key x = key y :=
        le_antisymm (key_head_le key hxs (hmem (fun k => (h k).symm) List.mem_cons_self))
          (key_head_le key hys (hmem h List.mem_cons_self))
      have hheads := h (key y)
      simp only [List.filter_cons, hkeys, decide_true, if_true] at hheads
      obtain ⟨rfl, -⟩ := List.cons.inj hheads
      refine congrArg (x :: ·) (ih hxs.tail hys.tail fun k => ?_)
      have hrest := h k
      simp only [List.filter_cons] at hrest
      split at hrest
      · exact (List.cons.inj hrest).2
      · exact hrest

/-- The order of items of different keys makes no difference. -/
theorem sortBy_congr (h : ∀ k, xs.filter (key · = k) = ys.filter (key · = k)) :
    sortBy key xs = sortBy key ys := by
  refine eq_of_filter_eq key (pairwise_sortBy key xs) (pairwise_sortBy key ys) fun k => ?_
  rw [filter_sortBy, filter_sortBy, h]

end Order

section Ranks

variable (key : α → κ) (read : β → Option α) (items : List β)

/-- What can be read of the items, in their order, and at which places. -/
def readings : List (α × Nat) :=
  items.zipIdx.filterMap fun (v, i) => (read v).map (·, i)

/-- The readings in the order of their keys. -/
def ranking : List (α × Nat) :=
  sortBy (fun r => key r.1) (readings read items)

/-- Where the item at a place has gone, when what can be read of the items is sorted. -/
def rank (i : Nat) : Nat :=
  ((ranking key read items).map (·.2)).idxOf i

variable {read items} {a b : α} {i j k : Nat}

theorem mem_readings :
    (a, i) ∈ readings read items ↔ ∃ v, items[i]? = some v ∧ read v = some a := by
  simp only [readings, List.mem_filterMap, Prod.exists, List.mk_mem_zipIdx_iff_getElem?,
    Option.map_eq_some_iff, Prod.mk.injEq]
  constructor
  · rintro ⟨v, _, hv, a, ha, rfl, rfl⟩
    exact ⟨v, hv, ha⟩
  · rintro ⟨v, hv, ha⟩
    exact ⟨v, i, hv, a, ha, rfl, rfl⟩

theorem map_fst_readings : (readings read items).map (·.1) = items.filterMap read := by
  rw [readings, List.map_filterMap]
  conv_rhs => rw [← List.zipIdx_map_fst 0 items, List.filterMap_map]
  congr 1
  funext ⟨v, i⟩
  cases h : read v <;> simp [h]

theorem pairwise_readings : (readings read items).Pairwise fun r s => r.2 < s.2 := by
  have hplaces : items.zipIdx.Pairwise fun p q => p.2 < q.2 := by
    rw [← List.pairwise_map (f := Prod.snd), List.zipIdx_map_snd]
    exact List.pairwise_lt_range'
  refine hplaces.filterMap _ ?_
  rintro ⟨v, i⟩ ⟨w, j⟩ hlt ⟨a, i'⟩ ha ⟨b, j'⟩ hb
  simp only [Option.map_eq_some_iff, Prod.mk.injEq] at ha hb
  obtain ⟨-, -, -, rfl⟩ := ha
  obtain ⟨-, -, -, rfl⟩ := hb
  exact hlt

theorem map_fst_ranking :
    (ranking key read items).map (·.1) = sortBy key (items.filterMap read) := by
  rw [← map_fst_readings]
  exact List.map_mergeSort fun _ _ _ _ => rfl

theorem pairwise_ranking : (ranking key read items).Pairwise fun r s =>
    key r.1 < key s.1 ∨ key r.1 = key s.1 ∧ r.2 < s.2 :=
  pairwise_sortBy_of_pairwise (fun r => key r.1) pairwise_readings

theorem mem_ranking :
    (a, i) ∈ ranking key read items ↔ ∃ v, items[i]? = some v ∧ read v = some a :=
  (sortBy_perm _ _).mem_iff.trans mem_readings

theorem nodup_places : ((ranking key read items).map (·.2)).Nodup := by
  have hperm : ((ranking key read items).map (·.2)).Perm ((readings read items).map (·.2)) :=
    (sortBy_perm _ _).map _
  have hnodup : ((readings read items).map (·.2)).Nodup :=
    List.pairwise_map.mpr (pairwise_readings.imp Nat.ne_of_lt)
  exact hperm.nodup_iff.mpr hnodup

theorem rank_of_getElem? (h : (ranking key read items)[k]? = some (a, i)) :
    rank key read items i = k := by
  obtain ⟨hk, hget⟩ := List.getElem?_eq_some_iff.mp h
  have hk' : k < ((ranking key read items).map (·.2)).length := by simpa using hk
  have hplace : ((ranking key read items).map (·.2))[k] = i := by simp [hget]
  rw [rank, ← hplace]
  exact (nodup_places key).idxOf_getElem k hk'

theorem ranking_rank {v : β} (hv : items[i]? = some v) (ha : read v = some a) :
    (ranking key read items)[rank key read items i]? = some (a, i) := by
  have hmem : (a, i) ∈ ranking key read items := (mem_ranking key).mpr ⟨v, hv, ha⟩
  obtain ⟨k, hk⟩ := List.mem_iff_getElem?.mp hmem
  rwa [rank_of_getElem? key hk]

theorem getElem?_sortBy :
    (sortBy key (items.filterMap read))[k]? = ((ranking key read items)[k]?).map (·.1) := by
  rw [← map_fst_ranking, List.getElem?_map]

theorem sortBy_rank {v : β} (hv : items[i]? = some v) (ha : read v = some a) :
    (sortBy key (items.filterMap read))[rank key read items i]? = some a := by
  rw [getElem?_sortBy, ranking_rank key hv ha, Option.map_some]

theorem exists_rank (h : (sortBy key (items.filterMap read))[k]? = some a) :
    ∃ i v, items[i]? = some v ∧ read v = some a ∧ rank key read items i = k := by
  rw [getElem?_sortBy, Option.map_eq_some_iff] at h
  obtain ⟨⟨a', i⟩, hget, rfl⟩ := h
  obtain ⟨v, hv, ha⟩ := (mem_ranking key).mp (List.mem_of_getElem? hget)
  exact ⟨i, v, hv, ha, rank_of_getElem? key hget⟩

theorem eq_of_rank_eq {v w : β} (hv : items[i]? = some v) (ha : read v = some a)
    (hw : items[j]? = some w) (hb : read w = some b)
    (h : rank key read items i = rank key read items j) : i = j := by
  have hfirst := ranking_rank key hv ha
  rw [h, ranking_rank key hw hb] at hfirst
  cases hfirst
  rfl

/-- One item goes before another by its key or, for the same key, by its place. -/
theorem rank_lt_rank_iff {v w : β} (hv : items[i]? = some v) (ha : read v = some a)
    (hw : items[j]? = some w) (hb : read w = some b) :
    rank key read items i < rank key read items j ↔
      key a < key b ∨ key a = key b ∧ i < j := by
  have hfirst := ranking_rank key hv ha
  have hsecond := ranking_rank key hw hb
  have hof {i j : Nat} {a b : α} {k l : Nat}
      (hk : (ranking key read items)[k]? = some (a, i))
      (hl : (ranking key read items)[l]? = some (b, j)) (hlt : k < l) :
      key a < key b ∨ key a = key b ∧ i < j := by
    obtain ⟨hk', hgetk⟩ := List.getElem?_eq_some_iff.mp hk
    obtain ⟨hl', hgetl⟩ := List.getElem?_eq_some_iff.mp hl
    have hpair := List.pairwise_iff_getElem.mp (pairwise_ranking key) k l hk' hl' hlt
    rwa [hgetk, hgetl] at hpair
  refine ⟨hof hfirst hsecond, fun hbefore => ?_⟩
  by_contra hnot
  obtain hgt | heq := Nat.lt_or_eq_of_le (Nat.not_lt.mp hnot)
  · obtain hlt | ⟨hkey, hij⟩ := hbefore <;> obtain hlt' | ⟨hkey', hij'⟩ := hof hsecond hfirst hgt
    · exact lt_asymm hlt hlt'
    · exact hlt.ne hkey'.symm
    · exact hlt'.ne hkey.symm
    · exact Nat.lt_asymm hij hij'
  · rw [heq] at hsecond
    cases hsecond.symm.trans hfirst
    obtain hlt | ⟨-, hij⟩ := hbefore
    · exact lt_irrefl _ hlt
    · exact Nat.lt_irrefl _ hij

end Ranks
end LanguageClient
