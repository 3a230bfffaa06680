import LanguageClient.Proofs.Link.Replies

namespace LanguageClient

namespace Inflight

variable (t : Inflight) (id : UInt64) {k : Nat} {r : Reply}

section Filled

theorem slot_remove_of_filled (h : t.slot k = .filled r) :
    (t.remove id).2.slot k = .filled r := by
  unfold remove
  cases t.find? id with
  | none => exact h
  | some o =>
    change (t.spend o.ticket).slot k = .filled r
    rw [slot_spend, if_neg, h]
    rintro ⟨rfl, hempty⟩
    rw [h] at hempty
    cases hempty

theorem slot_complete_of_filled (h : t.slot k = .filled r) (outcome : Outcome) :
    (t.complete id outcome).2.slot k = .filled r := by
  cases hf : t.find? id with
  | none => rwa [complete_of_find?_eq_none t id hf]
  | some o =>
    rw [t.slot_complete_of_find? id hf, if_neg, h]
    rintro ⟨rfl, hempty⟩
    rw [h] at hempty
    cases hempty

theorem slot_close_of_filled (h : t.slot k = .filled r) (reason : Closing) :
    (t.close reason).2.slot k = .filled r := by
  rw [slot_close, if_neg, h]
  rintro ⟨hempty, -⟩
  rw [h] at hempty
  cases hempty

end Filled

end Inflight

namespace Link

variable {l l' : Link} {p : Option Publication}

theorem slot_call_of_filled {k : Nat} {r : Reply} (h : l.inflight.slot k = .filled r)
    (now timeout : Nat) (method : String) (params : Option Json) :
    (l.call now timeout method params).2.inflight.slot k = .filled r := by
  have hk : k < l.inflight.slots.length := l.inflight.lt_length_of_slot_ne k (by simp [h])
  have henrolled : (l.enrolled method).slot k = .filled r := by
    unfold enrolled
    rw [Inflight.slot_append_empty, Inflight.length_slots_remove, if_neg (Nat.ne_of_lt hk)]
    exact Inflight.slot_remove_of_filled _ _ h
  obtain ⟨reason, hclosed⟩ | htakes | ⟨hopen, hw⟩ := l.call_cases
  · rw [l.call_of_closed now timeout method params hclosed]
    exact h
  · rw [l.call_of_takes now timeout method params htakes]
    exact henrolled
  · rw [l.call_of_not_writing now timeout method params hopen hw]
    rw [Inflight.slot_desert_ne _ _ (Nat.ne_of_lt hk)]
    exact Inflight.slot_remove_of_filled _ _ henrolled

/-- The reader finds the end of its input, something unreadable, or a message. -/
theorem readNext?_eq (h : l.readNext? = some (l', p)) :
    l.reading = true ∧
      ((Frame.read l.inputEnded l.input = .ended ∧ l' = l.stopReading .exited) ∨
      (∃ fault rest, Frame.read l.inputEnded l.input = .failed fault rest ∧
        l' = { l with input := rest }.stopReading (.protocol fault.message)) ∨
      ∃ v rest, Frame.read l.inputEnded l.input = .frame v rest ∧
        l' = ({ l with input := rest }.route v).1) := by
  unfold readNext? at h
  split at h
  · cases h
  · rename_i hreading
    refine ⟨by simpa using hreading, ?_⟩
    split at h
    · cases h
    · rename_i hread
      cases h
      exact .inl ⟨hread, rfl⟩
    · rename_i fault rest hread
      cases h
      exact .inr (.inl ⟨fault, rest, hread, rfl⟩)
    · rename_i v rest hread
      refine .inr (.inr ⟨v, rest, hread, ?_⟩)
      rw [Option.some.injEq] at h
      rw [h]

theorem writeNext?_eq {accepted : Bool} {what : Written}
    (h : l.writeNext? accepted = some (what, l')) :
    l.writing = true ∧
      ((l.sent[l.written]? = some .finish ∧
        l' = { l with written := l.written + 1, writing := false }) ∨
      (accepted = true ∧ l' = { l with written := l.written + 1 }) ∨
      (accepted = false ∧ ∃ x, l.sent[l.written]? = some (.frame x) ∧
        l' = { l.closeWith .exited with writing := false })) := by
  unfold writeNext? at h
  split at h
  · cases h
  · rename_i hwriting
    refine ⟨by simpa using hwriting, ?_⟩
    split at h
    · cases h
    · rename_i hnext
      cases h
      exact .inl ⟨hnext, rfl⟩
    · rename_i x hnext
      cases accepted with
      | true =>
        cases h
        exact .inr (.inl ⟨rfl, rfl⟩)
      | false =>
        cases h
        exact .inr (.inr ⟨rfl, x, hnext, rfl⟩)

end Link

namespace Conversation

variable {v w : Conversation} {e : Event} {language : String} {r : Closing}

theorem Change.reader (h : v.Change e w) :
    (w.link.reading = v.link.reading ∧ w.link.lost = v.link.lost) ∨
      (w.link.reading = false ∧ w.link.lost = w.link.closing? ∧ w.link.closing? ≠ none) := by
  cases h with
  | stop => exact .inr ⟨rfl, rfl, by simp⟩
  | call | expire | notify => exact .inl (by simp)
  | route => exact .inl (by simp)
  | close => exact .inl (by simp [Link.close])
  | take | giveUp | drop | nothing | receive | endInput | write | refuse | wait =>
    exact .inl ⟨rfl, rfl⟩

/-- What the reader has left behind, if it is at its end. -/
structure Reported (v : Conversation) : Prop where
  lost : v.link.lost = if v.link.reading then none else v.link.closing?
  closed : v.link.reading = false → v.link.closing? ≠ none

theorem Reported.change (h : v.Reported) (hw : v.Change e w) : w.Reported := by
  obtain ⟨hreading, hlost⟩ | ⟨hreading, hlost, hclosed⟩ := hw.reader
  · have hstays (hstopped : v.link.reading = false) : w.link.closing? = v.link.closing? :=
      hw.closing.resolve_right (h.closed hstopped)
    constructor
    case lost =>
      rw [hlost, hreading, h.lost]
      cases hr : v.link.reading with
      | true => rfl
      | false => simp [hstays hr]
    case closed =>
      intro hstopped
      rw [hreading] at hstopped
      rw [hstays hstopped]
      exact h.closed hstopped
  · exact ⟨by simp [hreading, hlost], fun _ => hclosed⟩

end Conversation
end LanguageClient
