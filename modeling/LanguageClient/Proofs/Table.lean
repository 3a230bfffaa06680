import LanguageClient.Table
import Mathlib.Data.List.Induction
import Mathlib.Data.List.Nodup
import Mathlib.Data.List.Perm.Basic
import Mathlib.Data.List.Sort

namespace LanguageClient.Table

variable {α β : Type}

@[simp] theorem get?_nil (k : String) : get? k ([] : Table α) = none := rfl

theorem get?_cons (k key : String) (v : α) (t : Table α) :
    get? k ((key, v) :: t) = if key = k then some v else get? k t := by
  by_cases h : key = k <;> simp [get?, h]

@[simp] theorem get?_set (k key : String) (v : α) (t : Table α) :
    get? k (set key v t) = if key = k then some v else get? k t := by
  induction t with
  | nil => simp [set, get?_cons]
  | cons e t ih =>
    obtain ⟨l, w⟩ := e
    unfold set
    by_cases hlt : key < l
    · simp [hlt, get?_cons]
    by_cases heq : key = l
    · subst heq
      by_cases hk : key = k <;> simp [get?_cons, hk]
    -- the entry in front keeps its place, and is another one
    by_cases hk : key = k
    · subst hk
      simp [hlt, heq, get?_cons, Ne.symm heq, ih]
    · simp [hlt, heq, get?_cons, ih, hk]

theorem get?_map (f : String → α → β) (k : String) (t : Table α) :
    get? k (t.map fun (l, v) => (l, f l v)) = (get? k t).map (f k) := by
  induction t with
  | nil => rfl
  | cons e t ih =>
    obtain ⟨l, v⟩ := e
    rw [List.map_cons, get?_cons, get?_cons, ih]
    split
    case isTrue h =>
      subst h
      rfl
    case isFalse => rfl

theorem get?_isSome_of_mem {k : String} {v : α} {t : Table α} (h : (k, v) ∈ t) :
    (get? k t).isSome = true := by
  rw [get?, Option.isSome_map, List.find?_isSome]
  exact ⟨(k, v), h, beq_self_eq_true k⟩

theorem mem_of_get? {k : String} {v : α} {t : Table α} (h : get? k t = some v) : (k, v) ∈ t := by
  obtain ⟨⟨l, w⟩, hfind, rfl⟩ := Option.map_eq_some_iff.mp h
  obtain rfl : l = k := by simpa using List.find?_some hfind
  exact List.mem_of_find?_eq_some hfind

section Order

variable {key : String} {v : α} {t u : Table α}

def Ascends (t : Table α) : Prop :=
  t.Pairwise fun e f => e.1 < f.1

theorem ascends_iff : Ascends t ↔ (t.map (·.1)).Pairwise (· < ·) :=
  List.pairwise_map.symm

theorem mem_set {e : String × α} (h : e ∈ set key v t) : e = (key, v) ∨ e ∈ t := by
  induction t with
  | nil => exact .inl (List.mem_singleton.mp h)
  | cons f t ih =>
    obtain ⟨k, w⟩ := f
    unfold set at h
    split at h
    · exact List.mem_cons.mp h
    split at h
    · exact (List.mem_cons.mp h).imp_right (List.mem_cons_of_mem _)
    · obtain rfl | h := List.mem_cons.mp h
      · exact .inr List.mem_cons_self
      · exact (ih h).imp_right (List.mem_cons_of_mem _)

theorem Ascends.set (h : Ascends t) : Ascends (t.set key v) := by
  induction t with
  | nil => exact List.pairwise_singleton _ _
  | cons f t ih =>
    obtain ⟨k, w⟩ := f
    obtain ⟨hk, ht⟩ := List.pairwise_cons.mp h
    unfold Table.set
    split
    · rename_i hlt
      refine List.pairwise_cons.mpr ⟨fun e he => ?_, h⟩
      obtain rfl | he := List.mem_cons.mp he
      · exact hlt
      · exact String.lt_trans hlt (hk e he)
    split
    · rename_i heq
      exact List.pairwise_cons.mpr ⟨fun e he => heq ▸ hk e he, ht⟩
    · rename_i hlt hne
      have hgt : k < key :=
        String.not_le.mp fun hle => hne (String.le_antisymm hle (String.not_lt.mp hlt))
      refine List.pairwise_cons.mpr ⟨fun e he => ?_, ih ht⟩
      obtain rfl | he := mem_set he
      · exact hgt
      · exact hk e he

theorem Ascends.get?_of_mem (h : Ascends t) (hmem : (key, v) ∈ t) : get? key t = some v := by
  induction t with
  | nil => cases hmem
  | cons f t ih =>
    obtain ⟨k, w⟩ := f
    obtain ⟨hk, ht⟩ := List.pairwise_cons.mp h
    rw [get?_cons]
    obtain heq | hmem := List.mem_cons.mp hmem
    · cases heq
      exact if_pos rfl
    · have hne : k ≠ key := String.ne_of_lt (hk _ hmem)
      rw [if_neg hne, ih ht hmem]

theorem Ascends.mem_iff (h : Ascends t) : (key, v) ∈ t ↔ get? key t = some v :=
  ⟨h.get?_of_mem, mem_of_get?⟩

/-- Tables in which the same is found are the same. -/
theorem Ascends.ext (ht : Ascends t) (hu : Ascends u) (h : ∀ k, get? k t = get? k u) : t = u := by
  have : Std.Irrefl fun e f : String × α => e.1 < f.1 := ⟨fun e => String.lt_irrefl e.1⟩
  have : Std.Antisymm fun e f : String × α => e.1 < f.1 :=
    ⟨fun _ _ hef hfe => absurd hfe (String.lt_asymm hef)⟩
  refine List.Pairwise.eq_of_mem_iff ht hu fun ⟨k, v⟩ => ?_
  rw [ht.mem_iff, hu.mem_iff, h]

theorem perm_set (h : ∀ e ∈ t, e.1 ≠ key) : (t.set key v).Perm ((key, v) :: t) := by
  induction t with
  | nil => exact .refl _
  | cons f t ih =>
    obtain ⟨k, w⟩ := f
    have hne : key ≠ k := (h _ List.mem_cons_self).symm
    simp only [Table.set, if_neg hne]
    split
    · exact .refl _
    · exact ((ih fun e he => h e (List.mem_cons_of_mem _ he)).cons _).trans (.swap ..)

/-- Entries of different keys are all in the table that they make up, in the order of their keys. -/
theorem ascends_ofEntries {entries : List (String × α)} (h : (entries.map (·.1)).Nodup) :
    Ascends (ofEntries entries) ∧ (ofEntries entries).Perm entries := by
  induction entries using List.reverseRecOn with
  | nil => exact ⟨.nil, .refl _⟩
  | append_singleton entries e ih =>
    rw [List.map_append, List.nodup_append] at h
    obtain ⟨hnodup, -, hdisjoint⟩ := h
    obtain ⟨hascends, hperm⟩ := ih hnodup
    have hofEntries : ofEntries (entries ++ [e]) = (ofEntries entries).set e.1 e.2 := by
      simp [ofEntries]
    rw [hofEntries]
    refine ⟨hascends.set, (perm_set fun f hf => ?_).trans ?_⟩
    · exact hdisjoint f.1 (List.mem_map_of_mem (hperm.mem_iff.mp hf)) e.1 (by simp)
    · exact (hperm.cons e).trans (List.perm_append_singleton e entries).symm

theorem set_of_forall_lt {key : String} {t : Table α} (h : ∀ e ∈ t, e.1 < key) (v : α) :
    set key v t = t ++ [(key, v)] := by
  induction t with
  | nil => rfl
  | cons e t ih =>
    obtain ⟨k, w⟩ := e
    have hk : k < key := h (k, w) List.mem_cons_self
    have hne : key ≠ k := by
      rintro rfl
      exact String.lt_irrefl _ hk
    rw [set, if_neg (String.lt_asymm hk), if_neg hne, ih fun e he => h e (List.mem_cons_of_mem _ he)]
    rfl

end Order

end LanguageClient.Table
