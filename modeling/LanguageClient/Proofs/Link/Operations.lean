import LanguageClient.Link
import LanguageClient.Proofs.Inflight
import LanguageClient.Proofs.Message

namespace LanguageClient.Link

variable (l : Link)

/-- The link still takes notifications and requests. -/
def takes : Bool :=
  l.closing?.isNone && l.writing

theorem takes_iff : l.takes = true ↔ l.closing? = none ∧ l.writing = true := by
  simp [takes]

section Queue

variable (o : Outgoing)

theorem sent_queue : (l.queue o).sent = if l.writing then l.sent ++ [o] else l.sent := by
  unfold queue; split <;> rfl

@[simp] theorem inflight_queue : (l.queue o).inflight = l.inflight := by
  unfold queue; split <;> rfl

@[simp] theorem nextId_queue : (l.queue o).nextId = l.nextId := by unfold queue; split <;> rfl

@[simp] theorem writing_queue : (l.queue o).writing = l.writing := by unfold queue; split <;> rfl

@[simp] theorem closing?_queue : (l.queue o).closing? = l.closing? := by
  simp [closing?]

@[simp] theorem reading_queue : (l.queue o).reading = l.reading := by unfold queue; split <;> rfl

@[simp] theorem lost_queue : (l.queue o).lost = l.lost := by unfold queue; split <;> rfl

end Queue

section Notify

variable (method : String) (params : Option Json)

theorem notify_of_takes (h : l.takes) :
    l.notify method params =
      (.ok (), { l with sent := l.sent ++ [.frame (Message.notification method params)] }) := by
  obtain ⟨hc, hw⟩ := l.takes_iff.mp h
  simp [notify, hc, hw, queue]

theorem notify_of_not_takes (h : l.takes = false) :
    l.notify method params = (.error l.closedFailure, l) := by
  unfold notify
  cases hc : l.closing? with
  | some reason => simp [closedFailure, hc]
  | none =>
    have hw : l.writing = false := by simpa [takes, hc] using h
    simp [hw]

theorem notify_snd :
    (l.notify method params).2 =
      { l with
        sent :=
          if l.takes then l.sent ++ [.frame (Message.notification method params)]
          else l.sent } := by
  cases h : l.takes with
  | true => simp [l.notify_of_takes method params h]
  | false => simp [l.notify_of_not_takes method params h]

theorem sent_notify :
    (l.notify method params).2.sent =
      if l.takes then l.sent ++ [.frame (Message.notification method params)] else l.sent := by
  rw [notify_snd]

theorem sent_notify_cases :
    (l.notify method params).2.sent = l.sent ++ [.frame (Message.notification method params)] ∨
      (l.notify method params).2.sent = l.sent := by
  rw [sent_notify]
  split
  · exact .inl rfl
  · exact .inr rfl

@[simp] theorem inflight_notify : (l.notify method params).2.inflight = l.inflight := by
  rw [notify_snd]

@[simp] theorem nextId_notify : (l.notify method params).2.nextId = l.nextId := by
  rw [notify_snd]

@[simp] theorem writing_notify : (l.notify method params).2.writing = l.writing := by
  rw [notify_snd]

@[simp] theorem closing?_notify : (l.notify method params).2.closing? = l.closing? := by
  simp [closing?]

@[simp] theorem language_notify : (l.notify method params).2.language = l.language := by
  simp [language]

@[simp] theorem reading_notify : (l.notify method params).2.reading = l.reading := by
  rw [notify_snd]

@[simp] theorem lost_notify : (l.notify method params).2.lost = l.lost := by
  rw [notify_snd]

end Notify

section Call

variable (now timeout : Nat) (method : String) (params : Option Json)

def nextCall : Call :=
  ⟨l.nextId, method, l.inflight.slots.length, now, now + timeout⟩

def enrolled : Inflight :=
  { (l.inflight.remove l.nextId).2 with
    owed := (l.inflight.remove l.nextId).2.owed ++ [⟨l.nextId, method, l.inflight.slots.length⟩]
    slots := (l.inflight.remove l.nextId).2.slots ++ [.empty] }

theorem slot_nextCall :
    (l.enrolled method).slot (l.nextCall now timeout method).ticket = .empty := by
  refine (Inflight.slot_append_empty _ _ _).trans (if_pos ?_)
  simp [nextCall]

theorem call_of_closed {reason : Closing} (h : l.closing? = some reason) :
    l.call now timeout method params =
      (.error (reason.failure l.language), { l with nextId := l.nextId + 1 }) := by
  have hc : l.inflight.closed = some reason := h
  simp [call, Inflight.register_of_closed hc, language]

theorem call_of_takes (h : l.takes) :
    l.call now timeout method params =
      (.ok (l.nextCall now timeout method),
        { l with
          nextId := l.nextId + 1
          inflight := l.enrolled method
          sent := l.sent ++ [.frame (Message.request l.nextId method params)] }) := by
  obtain ⟨hc, hw⟩ := l.takes_iff.mp h
  have hc' : l.inflight.closed = none := hc
  simp [call, Inflight.register_of_open hc', hw, queue, nextCall, enrolled]

theorem call_of_not_writing (hc : l.closing? = none) (hw : l.writing = false) :
    l.call now timeout method params =
      (.error l.closedFailure,
        { l with
          nextId := l.nextId + 1
          inflight := ((l.enrolled method).remove l.nextId).2.desert l.inflight.slots.length }) := by
  have hc' : l.inflight.closed = none := hc
  simp [call, Inflight.register_of_open hc', hw, abandon, enrolled, closedFailure, closing?,
    language]

/-- The three ways in which a call begins. -/
theorem call_cases :
    (∃ reason, l.closing? = some reason) ∨ l.takes = true ∨
      (l.closing? = none ∧ l.writing = false) := by
  cases hc : l.closing? with
  | some reason => exact .inl ⟨reason, rfl⟩
  | none =>
    cases hw : l.writing with
    | true => exact .inr (.inl (l.takes_iff.mpr ⟨hc, hw⟩))
    | false => exact .inr (.inr ⟨rfl, rfl⟩)

theorem exists_call_snd : ∃ inflight sent,
    (l.call now timeout method params).2 = { l with nextId := l.nextId + 1, inflight, sent } := by
  obtain ⟨reason, h⟩ | h | ⟨hc, hw⟩ := l.call_cases
  · rw [l.call_of_closed now timeout method params h]
    exact ⟨l.inflight, l.sent, rfl⟩
  · rw [l.call_of_takes now timeout method params h]
    exact ⟨_, _, rfl⟩
  · rw [l.call_of_not_writing now timeout method params hc hw]
    exact ⟨_, l.sent, rfl⟩

@[simp] theorem nextId_call : (l.call now timeout method params).2.nextId = l.nextId + 1 := by
  obtain ⟨inflight, sent, h⟩ := l.exists_call_snd now timeout method params
  rw [h]

@[simp] theorem writing_call : (l.call now timeout method params).2.writing = l.writing := by
  obtain ⟨inflight, sent, h⟩ := l.exists_call_snd now timeout method params
  rw [h]

@[simp] theorem closing?_call : (l.call now timeout method params).2.closing? = l.closing? := by
  obtain ⟨reason, h⟩ | h | ⟨hc, hw⟩ := l.call_cases
  · rw [l.call_of_closed now timeout method params h]; rfl
  · rw [l.call_of_takes now timeout method params h]; simp [closing?, enrolled]
  · rw [l.call_of_not_writing now timeout method params hc hw]; simp [closing?, enrolled]

@[simp] theorem language_call : (l.call now timeout method params).2.language = l.language := by
  obtain ⟨reason, h⟩ | h | ⟨hc, hw⟩ := l.call_cases
  · rw [l.call_of_closed now timeout method params h]; rfl
  · rw [l.call_of_takes now timeout method params h]; simp [language, enrolled]
  · rw [l.call_of_not_writing now timeout method params hc hw]; simp [language, enrolled]

@[simp] theorem reading_call : (l.call now timeout method params).2.reading = l.reading := by
  obtain ⟨inflight, sent, h⟩ := l.exists_call_snd now timeout method params
  rw [h]

@[simp] theorem lost_call : (l.call now timeout method params).2.lost = l.lost := by
  obtain ⟨inflight, sent, h⟩ := l.exists_call_snd now timeout method params
  rw [h]

theorem sent_call :
    (l.call now timeout method params).2.sent =
      if l.takes then l.sent ++ [.frame (Message.request l.nextId method params)]
      else l.sent := by
  obtain ⟨reason, h⟩ | h | ⟨hc, hw⟩ := l.call_cases
  · rw [l.call_of_closed now timeout method params h]; simp [takes, h]
  · rw [l.call_of_takes now timeout method params h]; simp [h]
  · rw [l.call_of_not_writing now timeout method params hc hw]; simp [takes, hw]

end Call

section Abandon

variable (c : Call)

@[simp] theorem sent_abandon : (l.abandon c).sent = l.sent := rfl
@[simp] theorem nextId_abandon : (l.abandon c).nextId = l.nextId := rfl
@[simp] theorem writing_abandon : (l.abandon c).writing = l.writing := rfl
@[simp] theorem reading_abandon : (l.abandon c).reading = l.reading := rfl
@[simp] theorem lost_abandon : (l.abandon c).lost = l.lost := rfl
@[simp] theorem language_abandon : (l.abandon c).language = l.language := by
  simp [language, abandon]
@[simp] theorem closing?_abandon : (l.abandon c).closing? = l.closing? := by
  simp [closing?, abandon]
theorem owed_abandon :
    (l.abandon c).inflight.owed = l.inflight.owed.filter (·.id != c.id) :=
  Inflight.owed_remove _ _

@[simp] theorem takes_abandon : (l.abandon c).takes = l.takes := by simp [takes]

end Abandon

section Poll

variable {l} {now : Nat} {c : Call}

theorem poll_of_filled {r : Reply} (h : l.inflight.slot c.ticket = .filled r) :
    l.poll now c = (some r, { l with inflight := (l.inflight.take? c.ticket).2 }) := by
  simp [poll, h]

theorem poll_of_spent (h : l.inflight.slot c.ticket = .spent) :
    l.poll now c = (some (.error l.closedFailure), l.abandon c) := by
  simp [poll, h]

theorem poll_of_deserted (h : l.inflight.slot c.ticket = .deserted) :
    l.poll now c = (none, l) := by
  simp [poll, h]

theorem poll_of_early (h : l.inflight.slot c.ticket = .empty) (ht : now < c.deadline) :
    l.poll now c = (none, l) := by
  simp [poll, h, ht]

theorem poll_of_late (h : l.inflight.slot c.ticket = .empty) (ht : c.deadline ≤ now) :
    l.poll now c =
      (some (.error (.timedOut l.language c.method (now - c.begun))),
        ((l.abandon c).notify "$/cancelRequest" (some (cancelParams c))).2) := by
  have hl : ((l.abandon c).notify "$/cancelRequest" (some (cancelParams c))).2.language =
      l.language := by
    simp only [language, inflight_notify]
    exact l.language_abandon c
  simp [poll, h, Nat.not_lt.mpr ht, hl]

end Poll

section Closing

variable (reason : Closing)

@[simp] theorem closing?_closeWith :
    (l.closeWith reason).closing? = some (l.closing?.getD reason) := rfl

@[simp] theorem language_closeWith : (l.closeWith reason).language = l.language := by
  simp [language, closeWith]

@[simp] theorem sent_closeWith : (l.closeWith reason).sent = l.sent := rfl

@[simp] theorem writing_closeWith : (l.closeWith reason).writing = l.writing := rfl
@[simp] theorem reading_closeWith : (l.closeWith reason).reading = l.reading := rfl
@[simp] theorem lost_closeWith : (l.closeWith reason).lost = l.lost := rfl

theorem closing?_close : l.close.closing? = some (l.closing?.getD .shutdown) := by
  simp [close]

theorem sent_close : l.close.sent = if l.writing then l.sent ++ [.finish] else l.sent := by
  simp [close, sent_queue]

theorem sent_close_cases : l.close.sent = l.sent ++ [.finish] ∨ l.close.sent = l.sent := by
  rw [sent_close]
  split
  · exact .inl rfl
  · exact .inr rfl

theorem sent_release : l.release.sent = if l.writing then l.sent ++ [.finish] else l.sent := by
  simp [release, sent_queue]

@[simp] theorem closing?_release : l.release.closing? = l.closing? := by
  simp [release, closing?]

@[simp] theorem writing_release : l.release.writing = l.writing := by simp [release]

@[simp] theorem closing?_stopReading :
    (l.stopReading reason).closing? = some (l.closing?.getD reason) := rfl

end Closing

section Reading

variable (v : Json)

/-- The message that the reader would route next. -/
def nextFrame? : Option Json :=
  match Frame.read l.inputEnded l.input with
  | .frame v _ => some v
  | _ => none

theorem inflight_route :
    (l.route v).1.inflight =
      match Incoming.ofJson? v with
      | some (.answer id outcome) => (l.inflight.complete id outcome).2
      | _ => l.inflight := by
  unfold route
  split
  · simp [*]
  · simp [*]
  · simp [*]
  · split <;> simp [*]

@[simp] theorem nextId_route : (l.route v).1.nextId = l.nextId := by
  unfold route
  split
  case h_4 => split <;> rfl
  all_goals simp

@[simp] theorem writing_route : (l.route v).1.writing = l.writing := by
  unfold route
  split
  case h_4 => split <;> rfl
  all_goals simp

@[simp] theorem reading_route : (l.route v).1.reading = l.reading := by
  unfold route
  split
  case h_4 => split <;> rfl
  all_goals simp

@[simp] theorem lost_route : (l.route v).1.lost = l.lost := by
  unfold route
  split
  case h_4 => split <;> rfl
  all_goals simp

@[simp] theorem closing?_route : (l.route v).1.closing? = l.closing? := by
  simp only [closing?, inflight_route]
  split <;> simp

@[simp] theorem language_route : (l.route v).1.language = l.language := by
  simp only [language, inflight_route]
  split <;> simp

theorem sent_route :
    (l.route v).1.sent = l.sent ∨
      ∃ id method params,
        (l.route v).1.sent = l.sent ++ [.frame (replyTo id method params)] := by
  unfold route
  split
  · exact .inl rfl
  · exact .inl rfl
  · rename_i id method params _
    rw [sent_queue]
    split
    · exact .inr ⟨id, method, params, rfl⟩
    · exact .inl rfl
  · split <;> exact .inl rfl

theorem ofJson?_replyTo (id : Json) (method : String) (params : Option Json) :
    Incoming.ofJson? (replyTo id method params) = none ∨
      ∃ n outcome, Incoming.ofJson? (replyTo id method params) = some (.answer n outcome) := by
  apply Incoming.answer_of_method?
  unfold replyTo
  split
  case h_6 => exact Incoming.method?_ofJson?_refusal _ _
  all_goals exact Incoming.method?_ofJson?_answer _ _

variable {l}

/-- The reader either stops, or routes a message. -/
theorem readNext?_cases {l' : Link} {p : Option Publication} (h : l.readNext? = some (l', p)) :
    (∃ reason rest, l.nextFrame? = none ∧ l' = { l with input := rest }.stopReading reason) ∨
      ∃ v rest, l.nextFrame? = some v ∧ l' = ({ l with input := rest }.route v).1 := by
  unfold readNext? at h
  split at h
  · cases h
  unfold nextFrame?
  cases hr : Frame.read l.inputEnded l.input with
  | waiting => simp [hr] at h
  | ended =>
    simp only [hr, Option.some.injEq, Prod.mk.injEq] at h
    exact .inl ⟨.exited, l.input, rfl, h.1.symm⟩
  | failed fault rest =>
    simp only [hr, Option.some.injEq, Prod.mk.injEq] at h
    exact .inl ⟨.protocol fault.message, rest, rfl, h.1.symm⟩
  | frame v rest =>
    simp only [hr, Option.some.injEq] at h
    exact .inr ⟨v, rest, rfl, by rw [h]⟩

/-- The writer takes from the front of the queue, and stops at its end; or it fails and closes the
link. -/
theorem writeNext?_cases {l' : Link} {accepted : Bool} {w : Written}
    (h : l.writeNext? accepted = some (w, l')) :
    (∃ n writing, (writing = true → l.writing = true) ∧
      (writing = l.writing ∨ .finish ∈ l.sent) ∧
      l' = { l with written := n, writing := writing }) ∨
      l' = { l.closeWith .exited with writing := false } := by
  unfold writeNext? at h
  split at h
  · cases h
  rename_i hw
  have hw : l.writing = true := by simpa using hw
  split at h
  · cases h
  · rename_i hnext
    cases h
    exact .inl ⟨_, false, by simp, .inr (List.mem_of_getElem? hnext), rfl⟩
  · split at h
    · cases h
      exact .inl ⟨_, true, fun _ => hw, .inl hw.symm, by rw [← hw]⟩
    · cases h
      exact .inr rfl

end Reading

end LanguageClient.Link
