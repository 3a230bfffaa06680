import LanguageClient.Proofs.Documents.Mirror

namespace LanguageClient

namespace Outgoing

theorem mention?_finish : finish.mention? = none := rfl

theorem mention?_replyTo (id : Json) (method : String) (params : Option Json) :
    (frame (Link.replyTo id method params)).mention? = none := by
  show (Incoming.ofJson? (Link.replyTo id method params)).bind Mention.ofIncoming? = none
  obtain h | ⟨n, outcome, h⟩ := Link.ofJson?_replyTo id method params
  · rw [h, Option.bind_none]
  · rw [h, Option.bind_some]
    rfl

end Outgoing

namespace Link

/-- From one link to the other, nothing that mentions a document is queued. -/
def Quiet (l l' : Link) : Prop :=
  (∃ os, l'.sent = l.sent ++ os ∧ ∀ o ∈ os, o.mention? = none) ∧
    (l'.takes = true → l.takes = true)

variable {l l' l'' : Link}

theorem Quiet.of_sent (hs : l'.sent = l.sent) (ht : l'.takes = true → l.takes = true) :
    Quiet l l' :=
  ⟨⟨[], by rw [hs, List.append_nil], by simp⟩, ht⟩

theorem Quiet.of_append {o : Outgoing} (ho : o.mention? = none)
    (hs : l'.sent = l.sent ++ [o] ∨ l'.sent = l.sent) (ht : l'.takes = true → l.takes = true) :
    Quiet l l' := by
  obtain hs | hs := hs
  · exact ⟨⟨[o], hs, by simpa using ho⟩, ht⟩
  · exact .of_sent hs ht

theorem Quiet.refl (l : Link) : Quiet l l :=
  .of_sent rfl id

theorem Quiet.trans (h : Quiet l l') (h' : Quiet l' l'') : Quiet l l'' := by
  obtain ⟨⟨os, hs, hos⟩, ht⟩ := h
  obtain ⟨⟨os', hs', hos'⟩, ht'⟩ := h'
  refine ⟨⟨os ++ os', by rw [hs', hs, List.append_assoc], fun o ho => ?_⟩, fun hl => ht (ht' hl)⟩
  obtain ho | ho := List.mem_append.mp ho
  · exact hos o ho
  · exact hos' o ho

theorem takes_of_closing? (hc : l'.closing? = none → l.closing? = none)
    (hw : l'.writing = true → l.writing = true) (h : l'.takes = true) : l.takes = true := by
  obtain ⟨hclosing, hwriting⟩ := l'.takes_iff.mp h
  exact l.takes_iff.mpr ⟨hc hclosing, hw hwriting⟩

variable (l)

theorem quiet_abandon (c : Call) : Quiet l (l.abandon c) :=
  .of_sent rfl (by simp)

theorem takes_notify (method : String) (params : Option Json) :
    (l.notify method params).2.takes = l.takes := by
  simp [takes]

theorem takes_call (now timeout : Nat) (method : String) (params : Option Json) :
    (l.call now timeout method params).2.takes = l.takes := by
  simp [takes]

theorem quiet_notify {method : String} {params : Option Json}
    (h : Mention.ofIncoming? (.notification method params) = none) :
    Quiet l (l.notify method params).2 := by
  have ho := (Outgoing.mention?_notification method params).trans h
  exact .of_append ho (l.sent_notify_cases method params) (by simp [takes_notify])

theorem quiet_call {method : String} (h : Mention.isAboutDocument method = false)
    (now timeout : Nat) (params : Option Json) : Quiet l (l.call now timeout method params).2 := by
  have ho := Outgoing.mention?_request l.nextId method params
  rw [h] at ho
  refine .of_append ho ?_ (by simp [takes_call])
  rw [sent_call]
  split
  · exact .inl rfl
  · exact .inr rfl

theorem quiet_poll (now : Nat) (c : Call) : Quiet l (l.poll now c).2 := by
  cases hs : l.inflight.slot c.ticket with
  | filled r =>
    rw [poll_of_filled hs]
    exact .of_sent rfl (by simp [takes, closing?])
  | spent =>
    rw [poll_of_spent hs]
    exact l.quiet_abandon c
  | deserted =>
    rw [poll_of_deserted hs]
    exact .refl l
  | empty =>
    by_cases ht : now < c.deadline
    · rw [poll_of_early hs ht]
      exact .refl l
    · rw [poll_of_late hs (Nat.le_of_not_lt ht)]
      exact (l.quiet_abandon c).trans (quiet_notify _ rfl)

theorem quiet_close : Quiet l l.close := by
  refine .of_append Outgoing.mention?_finish l.sent_close_cases fun h => ?_
  have hclosing := (l.close.takes_iff.mp h).1
  rw [closing?_close] at hclosing
  cases hclosing

theorem quiet_release : Quiet l l.release := by
  refine .of_append Outgoing.mention?_finish ?_ (takes_of_closing? (by simp) (by simp))
  rw [sent_release]
  split
  · exact .inl rfl
  · exact .inr rfl

theorem quiet_route (v : Json) : Quiet l (l.route v).1 := by
  have ht : (l.route v).1.takes = true → l.takes = true :=
    takes_of_closing? (by simp) (by simp)
  obtain hs | ⟨id, method, params, hs⟩ := l.sent_route v
  · exact .of_sent hs ht
  · exact .of_append (Outgoing.mention?_replyTo id method params) (.inl hs) ht

variable {l}

theorem quiet_readNext? {p : Option Publication} (h : l.readNext? = some (l', p)) : Quiet l l' := by
  obtain ⟨reason, rest, -, rfl⟩ | ⟨v, rest, -, rfl⟩ := readNext?_cases h
  · refine .of_sent rfl fun h => ?_
    cases (takes_iff _).mp h |>.1
  · have hroute : Quiet { l with input := rest } ({ l with input := rest }.route v).1 :=
      quiet_route _ v
    exact hroute

theorem quiet_writeNext? {accepted : Bool} {w : Written}
    (h : l.writeNext? accepted = some (w, l')) : Quiet l l' := by
  obtain ⟨n, writing, hw, -, rfl⟩ | rfl := writeNext?_cases h
  · exact .of_sent rfl (takes_of_closing? id hw)
  · refine .of_sent rfl fun h => ?_
    cases (takes_iff _).mp h |>.1

end Link
end LanguageClient
