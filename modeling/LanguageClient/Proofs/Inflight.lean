import LanguageClient.Inflight
import Mathlib.Data.List.Nodup
import Mathlib.Tactic.Common

namespace LanguageClient

theorem Slot.isEmpty_iff (s : Slot) : s.isEmpty = true ↔ s = .empty := by
  cases s <;> simp [isEmpty]

instance (s : Slot) : Decidable (s = .empty) :=
  decidable_of_iff _ s.isEmpty_iff

namespace Inflight

variable (t : Inflight) (k : Nat) (s : Slot) (r : Reply) (id : UInt64)

section Fields

@[simp] theorem owed_setSlot : (t.setSlot k s).owed = t.owed := rfl
@[simp] theorem closed_setSlot : (t.setSlot k s).closed = t.closed := rfl
@[simp] theorem language_setSlot : (t.setSlot k s).language = t.language := rfl
@[simp] theorem length_slots_setSlot : (t.setSlot k s).slots.length = t.slots.length := by
  simp [setSlot]

@[simp] theorem owed_fill : (t.fill k r).owed = t.owed := by unfold fill; split <;> rfl
@[simp] theorem closed_fill : (t.fill k r).closed = t.closed := by unfold fill; split <;> rfl
@[simp] theorem language_fill : (t.fill k r).language = t.language := by
  unfold fill; split <;> rfl
@[simp] theorem length_slots_fill : (t.fill k r).slots.length = t.slots.length := by
  unfold fill; split <;> simp

@[simp] theorem owed_spend : (t.spend k).owed = t.owed := by unfold spend; split <;> rfl
@[simp] theorem closed_spend : (t.spend k).closed = t.closed := by unfold spend; split <;> rfl
@[simp] theorem language_spend : (t.spend k).language = t.language := by
  unfold spend; split <;> rfl
@[simp] theorem length_slots_spend : (t.spend k).slots.length = t.slots.length := by
  unfold spend; split <;> simp

@[simp] theorem owed_desert : (t.desert k).owed = t.owed := rfl
@[simp] theorem closed_desert : (t.desert k).closed = t.closed := rfl
@[simp] theorem language_desert : (t.desert k).language = t.language := rfl
@[simp] theorem length_slots_desert : (t.desert k).slots.length = t.slots.length := by
  simp [desert]

@[simp] theorem owed_take? : (t.take? k).2.owed = t.owed := by unfold take?; split <;> rfl
@[simp] theorem closed_take? : (t.take? k).2.closed = t.closed := by unfold take?; split <;> rfl
@[simp] theorem language_take? : (t.take? k).2.language = t.language := by
  unfold take?; split <;> rfl
@[simp] theorem length_slots_take? : (t.take? k).2.slots.length = t.slots.length := by
  unfold take?; split <;> simp

end Fields

theorem slot_setSlot (j : Nat) :
    (t.setSlot k s).slot j = if j = k ∧ k < t.slots.length then s else t.slot j := by
  simp only [slot, setSlot, List.getElem?_set]
  by_cases hj : j = k
  · subst hj
    by_cases hl : j < t.slots.length <;> simp [hl]
  · simp [hj, Ne.symm hj]

theorem lt_length_of_slot_ne (h : t.slot k ≠ .spent) : k < t.slots.length := by
  by_contra hk
  exact h (by simp [slot, List.getElem?_eq_none (Nat.le_of_not_lt hk)])

theorem lt_length_of_slot_empty (h : t.slot k = .empty) : k < t.slots.length :=
  t.lt_length_of_slot_ne k (by simp [h])

theorem slot_fill (j : Nat) :
    (t.fill k r).slot j = if j = k ∧ t.slot k = .empty then .filled r else t.slot j := by
  unfold fill
  by_cases h : t.slot k = .empty
  · simp [h, Slot.isEmpty, slot_setSlot, t.lt_length_of_slot_empty k h]
  · rw [if_neg (by rwa [Slot.isEmpty_iff]), if_neg (by simp [h])]

theorem slot_spend (j : Nat) :
    (t.spend k).slot j = if j = k ∧ t.slot k = .empty then .spent else t.slot j := by
  unfold spend
  by_cases h : t.slot k = .empty
  · simp [h, Slot.isEmpty, slot_setSlot, t.lt_length_of_slot_empty k h]
  · rw [if_neg (by rwa [Slot.isEmpty_iff]), if_neg (by simp [h])]

theorem slot_desert_ne {j : Nat} (h : j ≠ k) : (t.desert k).slot j = t.slot j := by
  simp [desert, slot_setSlot, h]

theorem slot_take?_ne {j : Nat} (h : j ≠ k) : (t.take? k).2.slot j = t.slot j := by
  unfold take?
  split <;> simp [slot_setSlot, h]

section Finding

variable {t id} {o : Owed}

theorem mem_of_find? (h : t.find? id = some o) : o ∈ t.owed ∧ o.id = id :=
  ⟨List.mem_of_find?_eq_some h, by simpa using List.find?_some h⟩

theorem find?_eq_none : t.find? id = none ↔ ∀ o ∈ t.owed, o.id ≠ id := by
  simp [find?]

theorem find?_of_mem (hn : (t.owed.map (·.id)).Nodup) (ho : o ∈ t.owed) :
    t.find? o.id = some o := by
  cases h : t.find? o.id with
  | none => exact absurd rfl (find?_eq_none.mp h o ho)
  | some o' =>
    obtain ⟨hmem, hid⟩ := mem_of_find? h
    rw [List.inj_on_of_nodup_map hn hmem ho hid]

end Finding

theorem owed_remove : (t.remove id).2.owed = t.owed.filter (·.id != id) := by
  unfold remove
  cases h : t.find? id with
  | none =>
    refine (List.filter_eq_self.mpr fun o ho => ?_).symm
    simpa using find?_eq_none.mp h o ho
  | some o => simp

@[simp] theorem closed_remove : (t.remove id).2.closed = t.closed := by
  unfold remove; split <;> simp

@[simp] theorem language_remove : (t.remove id).2.language = t.language := by
  unfold remove; split <;> simp

@[simp] theorem length_slots_remove : (t.remove id).2.slots.length = t.slots.length := by
  unfold remove; split <;> simp

theorem mem_owed_remove {o : Owed} : o ∈ (t.remove id).2.owed ↔ o ∈ t.owed ∧ o.id ≠ id := by
  simp [owed_remove]

theorem slot_remove_of_forall {j : Nat} (h : ∀ o ∈ t.owed, o.ticket = j → o.id ≠ id) :
    (t.remove id).2.slot j = t.slot j := by
  unfold remove
  cases hf : t.find? id with
  | none => rfl
  | some o =>
    obtain ⟨hmem, hid⟩ := mem_of_find? hf
    have hj : j ≠ o.ticket := fun hj => h o hmem hj.symm hid
    change (t.spend o.ticket).slot j = t.slot j
    rw [slot_spend, if_neg (fun hc => hj hc.1)]

/-- A slot is empty afterwards only if it was so before, and its entry was not taken out. -/
theorem slot_remove_eq_empty {j : Nat} (h : (t.remove id).2.slot j = .empty) :
    t.slot j = .empty ∧ ∀ o, t.find? id = some o → o.ticket ≠ j := by
  unfold remove at h
  cases hf : t.find? id with
  | none => simpa [hf] using h
  | some o =>
    rw [hf] at h
    change (t.spend o.ticket).slot j = .empty at h
    rw [slot_spend] at h
    split at h
    · cases h
    · rename_i hc
      refine ⟨h, fun o' ho' hj => hc ?_⟩
      cases ho'
      exact ⟨hj.symm, hj ▸ h⟩

@[simp] theorem closed_complete (outcome : Outcome) :
    (t.complete id outcome).2.closed = t.closed := by
  unfold complete; split <;> simp

@[simp] theorem language_complete (outcome : Outcome) :
    (t.complete id outcome).2.language = t.language := by
  unfold complete; split <;> simp

@[simp] theorem length_slots_complete (outcome : Outcome) :
    (t.complete id outcome).2.slots.length = t.slots.length := by
  unfold complete; split <;> simp

theorem owed_complete (outcome : Outcome) :
    (t.complete id outcome).2.owed = t.owed.filter (·.id != id) := by
  unfold complete
  cases h : t.find? id with
  | none =>
    refine (List.filter_eq_self.mpr fun o ho => ?_).symm
    simpa using find?_eq_none.mp h o ho
  | some o => simp

theorem slot_complete_of_find? {outcome : Outcome} {o : Owed} (h : t.find? id = some o) (j : Nat) :
    (t.complete id outcome).2.slot j =
      if j = o.ticket ∧ t.slot o.ticket = .empty then .filled (t.replyOf o outcome)
      else t.slot j := by
  unfold complete
  rw [h]
  exact slot_fill _ _ _ _

theorem complete_of_find?_eq_none {outcome : Outcome} (h : t.find? id = none) :
    (t.complete id outcome).2 = t := by
  unfold complete
  rw [h]

section Closing

variable (reason : Closing)

theorem slot_foldl_fill (owed : List Owed) (j : Nat) :
    (owed.foldl (fun t o => t.fill o.ticket (.error (reason.failure t.language))) t).slot j =
      if t.slot j = .empty ∧ ∃ o ∈ owed, o.ticket = j then
        .filled (.error (reason.failure t.language))
      else t.slot j := by
  induction owed generalizing t with
  | nil => simp
  | cons o owed ih =>
    rw [List.foldl_cons, ih, slot_fill, language_fill]
    by_cases hj : j = o.ticket
    · subst hj
      by_cases h : t.slot o.ticket = .empty <;> simp [h]
    · by_cases h : t.slot j = .empty <;> simp [hj, Ne.symm hj, h]

@[simp] theorem language_foldl_fill (owed : List Owed) :
    (owed.foldl (fun t o => t.fill o.ticket (.error (reason.failure t.language))) t).language =
      t.language := by
  induction owed generalizing t with
  | nil => rfl
  | cons o owed ih => rw [List.foldl_cons, ih, language_fill]

@[simp] theorem length_slots_foldl_fill (owed : List Owed) :
    (owed.foldl (fun t o => t.fill o.ticket (.error (reason.failure t.language))) t).slots.length =
      t.slots.length := by
  induction owed generalizing t with
  | nil => rfl
  | cons o owed ih => rw [List.foldl_cons, ih, length_slots_fill]

@[simp] theorem owed_close : (t.close reason).2.owed = [] := rfl

@[simp] theorem closed_close : (t.close reason).2.closed = some (t.closed.getD reason) := rfl

@[simp] theorem language_close : (t.close reason).2.language = t.language := by simp [close]

@[simp] theorem length_slots_close : (t.close reason).2.slots.length = t.slots.length := by
  simp [close]

theorem slot_close (j : Nat) :
    (t.close reason).2.slot j =
      if t.slot j = .empty ∧ ∃ o ∈ t.owed, o.ticket = j then
        .filled (.error ((t.closed.getD reason).failure t.language))
      else t.slot j :=
  slot_foldl_fill t _ t.owed j

end Closing

section Registering

variable {t id} {method : String}

theorem register_of_closed {reason : Closing} (h : t.closed = some reason) :
    t.register id method = .error (reason.failure t.language) := by
  simp [register, h]

theorem register_of_open (h : t.closed = none) :
    t.register id method = .ok (t.slots.length, { (t.remove id).2 with
      owed := (t.remove id).2.owed ++ [⟨id, method, t.slots.length⟩]
      slots := (t.remove id).2.slots ++ [.empty] }) := by
  simp [register, h]

end Registering

theorem slot_append_empty (owed : List Owed) (j : Nat) :
    ({ t with owed, slots := t.slots ++ [.empty] } : Inflight).slot j =
      if j = t.slots.length then .empty else t.slot j := by
  simp only [slot, List.getElem?_append]
  by_cases hj : j < t.slots.length
  · simp [hj, Nat.ne_of_lt hj]
  · by_cases he : j = t.slots.length
    · simp [he]
    · have : ([Slot.empty] : List Slot)[j - t.slots.length]? = none := by
        simp only [List.getElem?_eq_none_iff, List.length_singleton]
        omega
      simp [hj, he, this]

end Inflight
end LanguageClient
