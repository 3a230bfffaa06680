import LanguageClient.Proofs.Link.Closing

namespace LanguageClient

def Outgoing.frame? : Outgoing → Option Json
  | .frame v => some v
  | .finish => none

theorem Outgoing.filterMap_frame? (vs : List Json) :
    (vs.map Outgoing.frame).filterMap Outgoing.frame? = vs := by
  simp [List.filterMap_map, Function.comp_def, frame?]

namespace Link

/-- The answer that a message of the server asks for. -/
def answerTo? (v : Json) : Option Json :=
  match Incoming.ofJson? v with
  | some (.request id method params) => some (replyTo id method params)
  | _ => none

def cancels? (l : Link) (now : Nat) (c : Call) : Option Json :=
  if (l.inflight.slot c.ticket).isEmpty ∧ c.deadline ≤ now ∧ l.takes then
    some (Message.notification "$/cancelRequest" (some (cancelParams c)))
  else none

section Writer

variable (l : Link)

@[simp] theorem written_queue (o : Outgoing) : (l.queue o).written = l.written := by
  unfold queue; split <;> rfl

@[simp] theorem written_notify (method : String) (params : Option Json) :
    (l.notify method params).2.written = l.written := by
  rw [notify_snd]

@[simp] theorem written_call (now timeout : Nat) (method : String) (params : Option Json) :
    (l.call now timeout method params).2.written = l.written := by
  obtain ⟨inflight, sent, h⟩ := l.exists_call_snd now timeout method params
  rw [h]

@[simp] theorem written_abandon (c : Call) : (l.abandon c).written = l.written := rfl

@[simp] theorem written_close : l.close.written = l.written := l.written_queue .finish

@[simp] theorem writing_close : l.close.writing = l.writing := l.writing_queue .finish

@[simp] theorem written_route (v : Json) : (l.route v).1.written = l.written := by
  unfold route
  split
  case h_4 => split <;> rfl
  all_goals simp

end Writer

theorem sent_poll (l : Link) (now : Nat) (c : Call) :
    (l.poll now c).2.sent = l.sent ++ (l.cancels? now c).toList.map .frame := by
  cases hs : l.inflight.slot c.ticket with
  | filled r => simp [poll_of_filled hs, cancels?, hs, Slot.isEmpty]
  | spent => simp [poll_of_spent hs, cancels?, hs, Slot.isEmpty]
  | deserted => simp [poll_of_deserted hs, cancels?, hs, Slot.isEmpty]
  | empty =>
    by_cases ht : now < c.deadline
    · simp [poll_of_early hs ht, cancels?, Nat.not_le.mpr ht]
    · have ht : c.deadline ≤ now := Nat.le_of_not_lt ht
      rw [poll_of_late hs ht, sent_notify, takes_abandon, sent_abandon]
      cases htakes : l.takes <;> simp [cancels?, hs, Slot.isEmpty, ht, htakes]

theorem sent_route_eq (l : Link) (v : Json) :
    (l.route v).1.sent =
      l.sent ++ (if l.writing then answerTo? v else none).toList.map .frame := by
  unfold route answerTo?
  cases hv : Incoming.ofJson? v with
  | none => simp
  | some incoming =>
    cases incoming with
    | answer id outcome => simp
    | request id method params =>
      rw [sent_queue]
      cases l.writing <;> simp
    | notification method params =>
      dsimp only
      split <;> simp

end Link

namespace Conversation

/-- The frame that a step is told it could send. -/
def enqueues? (v : Conversation) : Event → Option Json
  | .call timeout method params =>
    match (v.link.call v.now timeout method params).1 with
    | .ok c => some (Message.request c.id method params)
    | .error _ => none
  | .notify method params =>
    match (v.link.notify method params).1 with
    | .ok () => some (Message.notification method params)
    | .error _ => none
  | .look n => (v.call? n).bind (v.link.cancels? v.now)
  | .read =>
    if v.link.reading && v.link.writing then v.link.nextFrame?.bind Link.answerTo? else none
  | _ => none

theorem enqueues?_call (v : Conversation) (timeout : Nat) (method : String)
    (params : Option Json) :
    v.enqueues? (.call timeout method params) =
      if v.link.takes then some (Message.request v.link.nextId method params) else none := by
  unfold enqueues?
  obtain ⟨reason, h⟩ | h | ⟨hc, hw⟩ := v.link.call_cases
  · simp [v.link.call_of_closed v.now timeout method params h, Link.takes, h]
  · simp [v.link.call_of_takes v.now timeout method params h, h, Link.nextCall]
  · simp [v.link.call_of_not_writing v.now timeout method params hc hw, Link.takes, hw]

theorem enqueues?_notify (v : Conversation) (method : String) (params : Option Json) :
    v.enqueues? (.notify method params) =
      if v.link.takes then some (Message.notification method params) else none := by
  unfold enqueues?
  cases h : v.link.takes with
  | true => simp [v.link.notify_of_takes method params h]
  | false => simp [v.link.notify_of_not_takes method params h]

def puts (v : Conversation) : Event → List Outgoing
  | .close => if v.link.writing then [.finish] else []
  | e => (v.enqueues? e).toList.map .frame

theorem sent_look (v : Conversation) (n : Nat) :
    (v.step (.look n)).link.sent = v.link.sent ++ v.puts (.look n) := by
  cases hc : v.call? n with
  | none => simp [step_look_of_none hc, puts, enqueues?, hc]
  | some c =>
    have hsent := v.link.sent_poll v.now c
    have hputs : v.puts (.look n) = (v.link.cancels? v.now c).toList.map .frame := by
      simp [puts, enqueues?, hc]
    rw [hputs, ← hsent]
    cases hp : v.link.poll v.now c with
    | mk r l =>
      cases r with
      | none => rw [step_look_waits hc hp, link_follow]
      | some r => rw [step_look_returns hc hp, link_conclude, link_follow]

theorem sent_read (v : Conversation) :
    (v.step .read).link.sent = v.link.sent ++ v.puts .read := by
  have hputs : v.puts .read = (if v.link.reading && v.link.writing then
    v.link.nextFrame?.bind Link.answerTo? else none).toList.map .frame := rfl
  rw [hputs]
  cases hr : v.link.readNext? with
  | none =>
    rw [step_read_of_none hr]
    -- a reader that finds no message has nothing to answer
    suffices h : v.link.reading = true → v.link.nextFrame? = none by
      cases hreading : v.link.reading <;> simp_all
    intro hreading
    unfold Link.readNext? at hr
    unfold Link.nextFrame?
    cases hread : Frame.read v.link.inputEnded v.link.input <;> simp_all
  | some lp =>
    obtain ⟨l, p⟩ := lp
    rw [step_read hr, link_follow]
    have hreading := (Link.readNext?_eq hr).1
    obtain ⟨reason, rest, hf, rfl⟩ | ⟨x, rest, hf, rfl⟩ := Link.readNext?_cases hr
    · simp [hf, Link.stopReading]
    · rw [Link.sent_route_eq]
      simp [hf, hreading]

theorem sent_write (v : Conversation) (accepted : Bool) :
    (v.step (.write accepted)).link.sent = v.link.sent := by
  cases hw : v.link.writeNext? accepted with
  | none => rw [step_write_of_none hw]
  | some wl =>
    obtain ⟨w, l⟩ := wl
    rw [step_write hw, link_follow]
    obtain ⟨n, writing, -, -, rfl⟩ | rfl := Link.writeNext?_cases hw <;> rfl

theorem sent_step (v : Conversation) (e : Event) :
    (v.step e).link.sent = v.link.sent ++ v.puts e := by
  cases e with
  | call timeout method params =>
    rw [puts, enqueues?_call, step, link_addCaller, link_follow, Link.sent_call]
    · cases v.link.takes <;> simp
    · simp
  | notify method params =>
    rw [puts, enqueues?_notify, step, link_follow, Link.sent_notify]
    · cases v.link.takes <;> simp
    · simp
  | look n => exact v.sent_look n
  | read => exact v.sent_read
  | close =>
    rw [step, link_follow, Link.sent_close]
    cases hw : v.link.writing <;> simp [puts, hw]
  | drop n =>
    cases hc : v.call? n with
    | none => simp [step_drop_of_none hc, puts, enqueues?]
    | some c => simp [step_drop hc, puts, enqueues?]
  | receive bs => simp [step, puts, enqueues?, Link.receive]
  | endInput => simp [step, puts, enqueues?, Link.endInput]
  | write accepted => simp [sent_write, puts, enqueues?]
  | wait ms => simp [step, puts, enqueues?, record]

theorem writer_step (v : Conversation) {e : Event} (he : ∀ accepted, e ≠ .write accepted) :
    (v.step e).link.written = v.link.written ∧ (v.step e).link.writing = v.link.writing := by
  have hchange := v.change e
  generalize v.step e = w at hchange
  cases hchange with
  | write n writing | refuse => exact absurd rfl (he _)
  | call | giveUp | expire | drop | notify | close => simp
  | route x rest => exact ⟨Link.written_route _ _, Link.writing_route _ _⟩
  | nothing | take | receive | endInput | stop | wait => exact ⟨rfl, rfl⟩

end Conversation

/-- What the server has had of the stream: whole frames; the frame at which the writing has failed,
of which any part may have arrived; and whether it has seen the end. -/
structure Inbox where
  frames : List Json := []
  torn : Option Json := none
  ended : Bool := false

def Inbox.after (b : Inbox) (l : Link) : Conversation.Event → Inbox
  | .write accepted =>
    match l.writeNext? accepted with
    | none => b
    | some (.frame v, _) => { b with frames := b.frames ++ [v] }
    | some (.finish, _) => { b with ended := true }
    | some (.failed, _) => { b with torn := l.sent[l.written]?.bind Outgoing.frame? }
  | _ => b

/-- What stands behind the whole frames. -/
def Inbox.last (b : Inbox) : List Outgoing :=
  if b.ended then [.finish] else b.torn.toList.map .frame

/-- A conversation with both accounts of what passes to the server. -/
structure Traffic where
  talk : Conversation
  enqueued : List Json := []
  inbox : Inbox := {}

namespace Traffic

inductive Event where
  | talk (e : Conversation.Event)
  | release

/-- The events that end the stream. -/
def Event.ends : Event → Bool
  | talk .close | release => true
  | talk _ => false

def step (t : Traffic) : Event → Traffic
  | .talk e =>
    { talk := t.talk.step e
      enqueued := t.enqueued ++ (t.talk.enqueues? e).toList
      inbox := t.inbox.after t.talk.link e }
  | .release => { t with talk := t.talk.follow t.talk.link.release }

def run (language : String) (es : List Event) : Traffic :=
  es.foldl step { talk := { link := Link.start language } }

theorem run_append_one (language : String) (es : List Event) (e : Event) :
    run language (es ++ [e]) = (run language es).step e := by
  simp [run]

variable {t : Traffic} {e : Event}

/-- The accounts agree with the queue, and the writer stands where the server has got to. -/
structure Sound (t : Traffic) : Prop where
  enqueued : t.enqueued = t.talk.link.sent.filterMap Outgoing.frame?
  front : t.inbox.frames.map .frame ++ t.inbox.last <+: t.talk.link.sent
  writer : t.talk.link.writing = true →
    t.talk.link.written = t.inbox.frames.length ∧ t.inbox.ended = false ∧ t.inbox.torn = none
  whole : t.inbox.ended = true → t.inbox.torn = none

def puts (t : Traffic) : Event → List Outgoing
  | .talk e => t.talk.puts e
  | .release => if t.talk.link.writing then [.finish] else []

theorem sent_step (t : Traffic) (e : Event) :
    (t.step e).talk.link.sent = t.talk.link.sent ++ t.puts e := by
  cases e with
  | talk e => exact t.talk.sent_step e
  | release =>
    change t.talk.link.release.sent = _
    rw [Link.sent_release]
    cases hw : t.talk.link.writing <;> simp [puts, hw]

theorem enqueued_step (t : Traffic) (e : Event) :
    (t.step e).enqueued = t.enqueued ++ (t.puts e).filterMap Outgoing.frame? := by
  cases e with
  | talk e =>
    change t.enqueued ++ (t.talk.enqueues? e).toList = _
    cases e with
    | close => cases hw : t.talk.link.writing <;> simp [puts, Conversation.puts, hw, Outgoing.frame?,
        Conversation.enqueues?]
    | _ => simp only [puts, Conversation.puts, Outgoing.filterMap_frame?]
  | release =>
    change t.enqueued = _
    cases hw : t.talk.link.writing <;> simp [puts, hw, Outgoing.frame?]

theorem finish_notMem_puts (h : e.ends = false) : .finish ∉ t.puts e := by
  cases e with
  | talk e => cases e <;> simp_all [Event.ends, puts, Conversation.puts]
  | release => cases h

theorem puts_of_ends (h : e.ends = true) :
    t.puts e = if t.talk.link.writing then [.finish] else [] := by
  cases e with
  | talk e => cases e <;> simp_all [Event.ends, puts, Conversation.puts]
  | release => rfl

theorem quiet_step (t : Traffic) (he : ∀ accepted, e ≠ .talk (.write accepted)) :
    (t.step e).inbox = t.inbox ∧ (t.step e).talk.link.written = t.talk.link.written ∧
      (t.step e).talk.link.writing = t.talk.link.writing := by
  cases e with
  | talk e =>
    have he : ∀ accepted, e ≠ .write accepted := fun a h => he a (h ▸ rfl)
    refine ⟨?_, t.talk.writer_step he⟩
    cases e with
    | write accepted => exact absurd rfl (he accepted)
    | _ => rfl
  | release =>
    exact ⟨rfl, Link.written_queue _ .finish, Link.writing_release _⟩

/-- All that a turn of the writer can do. -/
inductive Turn (t : Traffic) : Bool → Traffic → Prop
  | idle {accepted : Bool} (h : t.talk.link.writeNext? accepted = none) : Turn t accepted t
  | frame {x : Json} (hw : t.talk.link.writing = true)
      (hnext : t.talk.link.sent[t.talk.link.written]? = some (.frame x)) :
      Turn t true { t with
        talk := t.talk.follow { t.talk.link with written := t.talk.link.written + 1 }
        inbox := { t.inbox with frames := t.inbox.frames ++ [x] } }
  | finish {accepted : Bool} (hw : t.talk.link.writing = true)
      (hnext : t.talk.link.sent[t.talk.link.written]? = some .finish) :
      Turn t accepted { t with
        talk := t.talk.follow
          { t.talk.link with written := t.talk.link.written + 1, writing := false }
        inbox := { t.inbox with ended := true } }
  | tear {x : Json} (hw : t.talk.link.writing = true)
      (hnext : t.talk.link.sent[t.talk.link.written]? = some (.frame x)) :
      Turn t false { t with
        talk := t.talk.follow { t.talk.link.closeWith .exited with writing := false }
        inbox := { t.inbox with torn := some x } }

theorem turn (t : Traffic) (accepted : Bool) :
    Turn t accepted (t.step (.talk (.write accepted))) := by
  have hidle (h : t.talk.link.writeNext? accepted = none) :
      Turn t accepted (t.step (.talk (.write accepted))) := by
    have hstep : t.step (.talk (.write accepted)) = t := by
      simp [step, Conversation.step, h, Inbox.after, Conversation.enqueues?]
    exact hstep.symm ▸ .idle h
  cases hw : t.talk.link.writing with
  | false => exact hidle (by simp [Link.writeNext?, hw])
  | true =>
    cases hnext : t.talk.link.sent[t.talk.link.written]? with
    | none => exact hidle (by simp [Link.writeNext?, hw, hnext])
    | some o =>
      cases o with
      | finish =>
        have hturn : Turn t accepted _ := Turn.finish hw hnext
        simpa [step, Conversation.step, Inbox.after, Link.writeNext?, hw, hnext,
          Conversation.enqueues?] using hturn
      | frame x =>
        cases accepted with
        | true =>
          simpa [step, Conversation.step, Inbox.after, Link.writeNext?, hw, hnext,
            Conversation.enqueues?] using Turn.frame hw hnext
        | false =>
          simpa [step, Conversation.step, Inbox.after, Link.writeNext?, hw, hnext,
            Conversation.enqueues?, Outgoing.frame?] using Turn.tear hw hnext

theorem prefix_of_next {xs ys : List Outgoing} {o : Outgoing} (h : xs <+: ys)
    (hnext : ys[xs.length]? = some o) : xs ++ [o] <+: ys := by
  obtain ⟨zs, rfl⟩ := h
  cases zs with
  | nil => simp at hnext
  | cons z zs =>
    obtain rfl : z = o := by simpa using hnext
    exact ⟨zs, by simp⟩

theorem Sound.step (h : t.Sound) (e : Event) : (t.step e).Sound := by
  have henqueued : (t.step e).enqueued =
      (t.step e).talk.link.sent.filterMap Outgoing.frame? := by
    rw [sent_step, enqueued_step, List.filterMap_append, h.enqueued]
  by_cases he : ∃ accepted, e = .talk (.write accepted)
  · obtain ⟨accepted, rfl⟩ := he
    -- as long as the writer is at work, the whole frames are all that has come out
    have hnext {o : Outgoing} (hw : t.talk.link.writing = true)
        (hnext : t.talk.link.sent[t.talk.link.written]? = some o) :
        t.inbox.frames.map .frame ++ [o] <+: t.talk.link.sent := by
      obtain ⟨hwritten, hended, htorn⟩ := h.writer hw
      have hfront : t.inbox.frames.map .frame <+: t.talk.link.sent := by
        simpa [Inbox.last, hended, htorn] using h.front
      exact prefix_of_next hfront (by simpa [hwritten] using hnext)
    have hturn := t.turn accepted
    generalize t.step (.talk (.write accepted)) = u at hturn henqueued ⊢
    cases hturn with
    | idle => exact h
    | frame hw hfound =>
      obtain ⟨hwritten, hended, htorn⟩ := h.writer hw
      refine ⟨henqueued, ?_, fun _ => ⟨by simp [hwritten], hended, htorn⟩, fun _ => htorn⟩
      simpa [Inbox.last, hended, htorn] using hnext hw hfound
    | finish hw hfound => exact ⟨henqueued, hnext hw hfound, nofun, fun _ => (h.writer hw).2.2⟩
    | tear hw hfound =>
      obtain ⟨-, hended, -⟩ := h.writer hw
      refine ⟨henqueued, ?_, nofun, by simp [hended]⟩
      simpa [Inbox.last, hended] using hnext hw hfound
  · obtain ⟨hinbox, hwritten, hwriting⟩ := t.quiet_step fun a ha => he ⟨a, ha⟩
    refine ⟨henqueued, ?_, ?_, hinbox ▸ h.whole⟩
    · rw [hinbox, sent_step]
      exact h.front.trans (List.prefix_append _ _)
    · rw [hinbox, hwritten, hwriting]
      exact h.writer

theorem sound_run (language : String) (es : List Event) : (run language es).Sound := by
  induction es using List.reverseRecOn with
  | nil => exact ⟨rfl, List.nil_prefix, fun _ => ⟨rfl, rfl, rfl⟩, nofun⟩
  | append_singleton es e ih => rw [run_append_one]; exact ih.step e

/-- Whatever has come out in whole or in part is at the front of the queue. -/
theorem Sound.frames_prefix (h : t.Sound) :
    (t.inbox.frames ++ t.inbox.torn.toList).map .frame <+: t.talk.link.sent := by
  cases hended : t.inbox.ended with
  | false => simpa [Inbox.last, hended] using h.front
  | true =>
    have hfront := h.front
    simp only [Inbox.last, hended, if_true] at hfront
    rw [h.whole hended, Option.toList_none, List.append_nil]
    exact (List.prefix_append _ _).trans hfront

theorem puts_of_not_writing (hw : t.talk.link.writing = false) (e : Event) : t.puts e = [] := by
  have htakes : t.talk.link.takes = false := by simp [Link.takes, hw]
  cases e with
  | release => simp [puts, hw]
  | talk e =>
    cases e with
    | call => simp [puts, Conversation.puts, Conversation.enqueues?_call, htakes]
    | notify => simp [puts, Conversation.puts, Conversation.enqueues?_notify, htakes]
    | look n =>
      cases hc : t.talk.call? n <;>
        simp [puts, Conversation.puts, Conversation.enqueues?, Link.cancels?, htakes, hc]
    | _ => simp [puts, Conversation.puts, Conversation.enqueues?, hw]

theorem writing_step (hw : t.talk.link.writing = false) (e : Event) :
    (t.step e).talk.link.writing = false := by
  by_cases he : ∃ accepted, e = .talk (.write accepted)
  · obtain ⟨accepted, rfl⟩ := he
    have hturn := t.turn accepted
    generalize t.step (.talk (.write accepted)) = u at hturn ⊢
    cases hturn with
    | idle => exact hw
    | frame hw' | finish hw' | tear hw' => simp [hw] at hw'
  · rw [(t.quiet_step fun a ha => he ⟨a, ha⟩).2.2, hw]

theorem sent_foldl_of_not_writing (hw : t.talk.link.writing = false) (es : List Event) :
    (es.foldl step t).talk.link.sent = t.talk.link.sent := by
  induction es generalizing t with
  | nil => rfl
  | cons e es ih =>
    rw [List.foldl_cons, ih (writing_step hw e), sent_step, puts_of_not_writing hw,
      List.append_nil]

theorem sent_foldl (t : Traffic) (es : List Event) :
    t.talk.link.sent <+: (es.foldl step t).talk.link.sent := by
  induction es generalizing t with
  | nil => exact List.prefix_rfl
  | cons e es ih =>
    refine .trans ?_ (ih (t.step e))
    rw [sent_step]
    exact List.prefix_append _ _

theorem finish_notMem_run {language : String} {es : List Event} (h : ∀ e ∈ es, e.ends = false) :
    .finish ∉ (run language es).talk.link.sent := by
  induction es using List.reverseRecOn with
  | nil => exact List.not_mem_nil
  | append_singleton es e ih =>
    rw [run_append_one, sent_step, List.mem_append]
    exact not_or.mpr ⟨ih fun f hf => h f (by simp [hf]), finish_notMem_puts (h e (by simp))⟩

/-- The queue after an event that ends the stream: from there on its end is fixed. -/
theorem sent_of_ends (t : Traffic) (he : e.ends = true) (es : List Event) :
    (t.talk.link.writing = true ∧
        t.talk.link.sent ++ [.finish] <+: (es.foldl step (t.step e)).talk.link.sent) ∨
      t.talk.link.writing = false ∧
        (es.foldl step (t.step e)).talk.link.sent = t.talk.link.sent := by
  cases hw : t.talk.link.writing with
  | true =>
    have hsent := sent_foldl (t.step e) es
    rw [sent_step, puts_of_ends he, if_pos hw] at hsent
    exact .inl ⟨rfl, hsent⟩
  | false => exact .inr ⟨rfl, sent_foldl_of_not_writing hw (e :: es)⟩

section Prefixes

variable {xs ys zs : List Outgoing} {o : Outgoing}

theorem prefix_of_notMem (hx : o ∉ xs) (h : xs <+: zs) (hz : ys ++ [o] <+: zs) : xs <+: ys := by
  obtain h | h := List.prefix_or_prefix_of_prefix h hz
  · obtain rfl | h := List.prefix_concat_iff.mp h
    · simp at hx
    · exact h
  · exact absurd (h.subset (by simp)) hx

theorem eq_of_first (hx : o ∉ xs) (hy : o ∉ ys) (h : xs ++ [o] <+: zs) (hz : ys ++ [o] <+: zs) :
    xs = ys :=
  (prefix_of_notMem hx ((List.prefix_append _ _).trans h) hz).eq_of_length_le
    (prefix_of_notMem hy ((List.prefix_append _ _).trans hz) h).length_le

end Prefixes

theorem finish_notMem_frames (vs : List Json) : .finish ∉ vs.map Outgoing.frame := by
  simp

theorem Sound.sent_of_open (h : t.Sound) (hopen : .finish ∉ t.talk.link.sent) :
    t.talk.link.sent = t.enqueued.map .frame := by
  rw [h.enqueued, List.map_filterMap]
  have hall : ∀ o ∈ t.talk.link.sent, o.frame?.map .frame = some o := by
    intro o ho
    cases o with
    | frame v => rfl
    | finish => exact absurd ho hopen
  rw [List.filterMap_congr hall, List.filterMap_some]

/-- A server that keeps reading: its last turn was not a refusal. -/
def Event.keepsReading : Event → Bool
  | talk (.write accepted) => accepted
  | talk _ | release => true

theorem writing_or_ended {language : String} {es : List Event}
    (h : ∀ e ∈ es, e.keepsReading = true) :
    (run language es).talk.link.writing = true ∨ (run language es).inbox.ended = true := by
  induction es using List.reverseRecOn with
  | nil => exact .inl rfl
  | append_singleton es e ih =>
    have ih := ih fun f hf => h f (by simp [hf])
    have he : e.keepsReading = true := h e (by simp)
    rw [run_append_one]
    by_cases hwrite : ∃ accepted, e = .talk (.write accepted)
    · obtain ⟨accepted, rfl⟩ := hwrite
      obtain rfl : accepted = true := he
      have hturn := (run language es).turn true
      generalize (run language es).step (.talk (.write true)) = u at hturn ⊢
      cases hturn with
      | idle | frame => exact ih
      | finish => exact .inr rfl
    · obtain ⟨hinbox, -, hwriting⟩ := (run language es).quiet_step fun a ha => hwrite ⟨a, ha⟩
      rwa [hinbox, hwriting]

theorem run_append_cons (language : String) (front back : List Event) (e : Event) :
    run language (front ++ e :: back) = back.foldl step ((run language front).step e) := by
  simp [run]

theorem queue_of_ends {language : String} {front back : List Event}
    (hfront : ∀ f ∈ front, f.ends = false) (he : e.ends = true)
    (hreads : ∀ f ∈ front, f.keepsReading = true) :
    (run language front).talk.link.sent ++ [.finish] <+:
      (run language (front ++ e :: back)).talk.link.sent := by
  rw [run_append_cons]
  obtain ⟨-, hsent⟩ | ⟨hstopped, -⟩ := sent_of_ends (run language front) he back
  · exact hsent
  · have hended : (run language front).inbox.ended = true :=
      (writing_or_ended hreads).resolve_left (by simp [hstopped])
    have hlast := (sound_run language front).front
    simp only [Inbox.last, hended, if_true] at hlast
    exact absurd (hlast.subset (by simp)) (finish_notMem_run hfront)

def Event.isWrite : Event → Bool
  | talk (.write _) => true
  | talk _ | release => false

theorem ended_turn (h : t.inbox.ended = true) (accepted : Bool) :
    (t.step (.talk (.write accepted))).inbox.ended = true := by
  have hturn := t.turn accepted
  generalize t.step (.talk (.write accepted)) = u at hturn ⊢
  cases hturn with
  | idle | frame | tear => exact h
  | finish => rfl

/-- A turn of the writer, as long as the end is still in front of it. -/
theorem Sound.write_advances (h : t.Sound) (hfinish : .finish ∈ t.talk.link.sent)
    (hw : t.talk.link.writing = true ∨ t.inbox.ended = true) :
    (t.step (.talk (.write true))).inbox.ended = true ∨
      (t.step (.talk (.write true))).inbox.frames.length = t.inbox.frames.length + 1 := by
  have hturn := t.turn true
  generalize t.step (.talk (.write true)) = u at hturn ⊢
  cases hturn with
  | frame => exact .inr (by simp)
  | finish => exact .inl rfl
  | idle hidle =>
    refine .inl (hw.resolve_left fun hw => ?_)
    have hnone : t.talk.link.sent[t.talk.link.written]? = none := by
      cases hnext : t.talk.link.sent[t.talk.link.written]? with
      | none => rfl
      | some o => cases o <;> simp [Link.writeNext?, hw, hnext] at hidle
    have hlength : t.talk.link.sent.length ≤ t.inbox.frames.length := by
      rw [← (h.writer hw).1]
      exact List.getElem?_eq_none_iff.mp hnone
    have hframes : t.inbox.frames.map .frame <+: t.talk.link.sent :=
      (List.prefix_append _ _).trans h.front
    have heq := hframes.eq_of_length_le (by simpa using hlength)
    rw [← heq] at hfinish
    exact finish_notMem_frames _ hfinish

/-- After the stream has been ended, each turn of the writer brings the server one frame more, until
it has come to the end. -/
theorem ended_or_countP_le {language : String} {front back : List Event}
    (hfront : ∀ f ∈ front, f.ends = false) (he : e.ends = true)
    (hreads : ∀ f ∈ front ++ e :: back, f.keepsReading = true) :
    (run language (front ++ e :: back)).inbox.ended = true ∨
      back.countP Event.isWrite ≤ (run language (front ++ e :: back)).inbox.frames.length := by
  induction back using List.reverseRecOn with
  | nil => exact .inr (Nat.zero_le _)
  | append_singleton back f ih =>
    have hsplit : front ++ e :: (back ++ [f]) = (front ++ e :: back) ++ [f] := by simp
    rw [hsplit] at hreads ⊢
    have hreads' : ∀ g ∈ front ++ e :: back, g.keepsReading = true :=
      fun g hg => hreads g (List.mem_append_left _ hg)
    have ih := ih hreads'
    rw [run_append_one, List.countP_append]
    by_cases hwrite : ∃ accepted, f = .talk (.write accepted)
    · obtain ⟨accepted, rfl⟩ := hwrite
      obtain rfl : accepted = true := hreads (.talk (.write accepted)) (by simp)
      have hqueue : (run language front).talk.link.sent ++ [.finish] <+:
          (run language (front ++ e :: back)).talk.link.sent :=
        queue_of_ends hfront he fun g hg => hreads' g (List.mem_append_left _ hg)
      obtain hended | hlength := (sound_run language (front ++ e :: back)).write_advances
        (hqueue.subset (by simp)) (writing_or_ended hreads')
      · exact .inl hended
      · obtain hended | hle := ih
        · exact .inl (ended_turn hended true)
        · refine .inr ?_
          rw [hlength]
          exact Nat.add_le_add_right hle 1
    · obtain ⟨hinbox, -, -⟩ := (run language (front ++ e :: back)).quiet_step
        fun a ha => hwrite ⟨a, ha⟩
      have hcount : [f].countP Event.isWrite = 0 := by
        cases f with
        | release => rfl
        | talk g =>
          cases g with
          | write accepted => exact absurd rfl (not_exists.mp hwrite accepted)
          | _ => rfl
      rwa [hinbox, hcount, Nat.add_zero]

/-- Whatever reaches the server, up to the part of a last frame that was torn, is in order and
without repetition the front of all that was queued successfully. Once the stream has been ended,
nothing queued later reaches it; and as long as it keeps reading, it gets all that was queued before
and then the end. -/
theorem received_in_order (language : String) (es : List Event) :
    (run language es).inbox.frames ++ (run language es).inbox.torn.toList <+:
        (run language es).enqueued ∧
      ∀ front e back, es = front ++ e :: back → (∀ f ∈ front, f.ends = false) → e.ends = true →
        (run language es).inbox.frames ++ (run language es).inbox.torn.toList <+:
            (run language front).enqueued ∧
          ((∀ f ∈ es, f.keepsReading = true) →
            ((run language es).inbox.ended = true →
              (run language es).inbox.frames = (run language front).enqueued) ∧
            ((run language front).enqueued.length < back.countP Event.isWrite →
              (run language es).inbox.ended = true)) := by
  have hsound := sound_run language es
  have hframes (vs : List Json) {ws : List Json} (h : vs.map Outgoing.frame <+: ws.map .frame) :
      vs <+: ws := by
    simpa only [Outgoing.filterMap_frame?] using h.filterMap Outgoing.frame?
  refine ⟨?_, ?_⟩
  · rw [hsound.enqueued]
    simpa only [Outgoing.filterMap_frame?] using hsound.frames_prefix.filterMap Outgoing.frame?
  · rintro front e back rfl hfront he
    have hfinish : .finish ∉ (run language front).talk.link.sent := finish_notMem_run hfront
    have hqueue := (sound_run language front).sent_of_open hfinish
    have hbefore : (run language (front ++ e :: back)).inbox.frames ++
        (run language (front ++ e :: back)).inbox.torn.toList <+:
          (run language front).enqueued := by
      apply hframes
      rw [← hqueue]
      have hall := hsound.frames_prefix
      obtain ⟨-, hsent⟩ | ⟨-, hsent⟩ := sent_of_ends (run language front) he back
      · exact prefix_of_notMem (finish_notMem_frames _) hall (run_append_cons .. ▸ hsent)
      · rwa [run_append_cons, hsent, ← run_append_cons] at hall
    refine ⟨hbefore, fun hreads => ⟨fun hended => ?_, fun hlt => ?_⟩⟩
    · -- both what has arrived and what was queued end at the first end of the stream
      have hend : (run language front).talk.link.sent ++ [.finish] <+:
          (run language (front ++ e :: back)).talk.link.sent :=
        queue_of_ends hfront he fun g hg => hreads g (List.mem_append_left _ hg)
      have hlast := hsound.front
      simp only [Inbox.last, hended, if_true] at hlast
      have heq := eq_of_first (finish_notMem_frames _) hfinish hlast hend
      rw [hqueue] at heq
      exact (List.map_injective_iff.mpr fun _ _ h => Outgoing.frame.inj h) heq
    · refine (ended_or_countP_le hfront he hreads).resolve_right fun hle => ?_
      have hlength := hbefore.length_le
      rw [List.length_append] at hlength
      omega

/-- A request, a question of the server and a notice, of which one has been written so far. -/
def chat : List Event :=
  [.talk (.call 1000 "initialize" none), .talk (.write true),
    .talk (.receive (Frame.write (Message.request 7 "workspace/applyEdit" none))), .talk .read,
    .talk (.notify "initialized" none)]

/-- What comes too late, and the writer's turns. -/
def afterwards : List Event :=
  [.talk (.notify "exit" none), .talk (.receive (Frame.write (Message.request 8 "x" none))),
    .talk .read, .talk .close] ++ List.replicate 4 (.talk (.write true))

theorem received_in_order_chat :
    (run "lua" (chat ++ .talk .close :: afterwards)).inbox.ended = true ∧
      (run "lua" (chat ++ .talk .close :: afterwards)).inbox.frames =
        (run "lua" chat).enqueued ∧
      (run "lua" chat).enqueued.map Json.text =
        [(Message.request 1 "initialize" none).text,
          (Message.answer (.int 7) (.ofFields [("applied", .bool false)])).text,
          (Message.notification "initialized" none).text] ∧
      (run "lua" (chat ++ .talk .close :: afterwards)).enqueued.length = 4 := by
  obtain ⟨-, hclose⟩ := received_in_order "lua" (chat ++ .talk .close :: afterwards)
  obtain ⟨-, hreads⟩ := hclose chat (.talk .close) afterwards rfl (by decide) rfl
  obtain ⟨hall, hended⟩ := hreads (by decide)
  have hended := hended (by decide +kernel)
  exact ⟨hended, hall hended, by decide +kernel, by decide +kernel⟩

end Traffic
end LanguageClient
