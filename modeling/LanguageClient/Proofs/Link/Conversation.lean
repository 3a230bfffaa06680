import LanguageClient.Proofs.Link.Operations
import Mathlib.Logic.Function.Basic

namespace LanguageClient

/-- What happens on a link while callers wait. -/
inductive Happening where
  | passed (ms : Nat)
  | routed (v : Json)
  | closed (reason : Closing)

/-- How a call fares. One that has returned remembers how much had happened by then. -/
inductive Fate where
  | waiting (c : Call)
  | returned (r : Reply) (upTo : Nat)
  | gone

/-- A call that somebody made; `start` says how much had happened before. -/
structure Caller where
  id : UInt64
  method : String
  timeout : Nat
  start : Nat
  fate : Fate

def Fate.call? : Fate → Option Call
  | waiting c => some c
  | returned _ _ | gone => none

/-- Callers stand in the order in which they called. -/
structure Conversation where
  link : Link
  now : Nat := 0
  callers : List Caller := []
  history : List Happening := []

namespace Conversation

inductive Event where
  | call (timeout : Nat) (method : String) (params : Option Json)
  /-- A caller looks whether it has its reply, or its time is up. -/
  | look (n : Nat)
  /-- A caller is dropped where it waits. -/
  | drop (n : Nat)
  | notify (method : String) (params : Option Json)
  | close
  | receive (bs : Bytes)
  | endInput
  | read
  | write (accepted : Bool)
  | wait (ms : Nat)

def call? (v : Conversation) (n : Nat) : Option Call :=
  (v.callers[n]?).bind (·.fate.call?)

/-- The closing of a link, if it lies between these two states. -/
def closings (before after : Link) : List Happening :=
  match before.closing?, after.closing? with
  | none, some reason => [.closed reason]
  | _, _ => []

/-- Goes on with a link that has come out of the present one. -/
def follow (v : Conversation) (l : Link) : Conversation :=
  { v with link := l, history := v.history ++ closings v.link l }

def conclude (v : Conversation) (n : Nat) (f : Fate) : Conversation :=
  { v with callers := v.callers.modify n fun a => { a with fate := f } }

def record (v : Conversation) (hs : List Happening) : Conversation :=
  { v with history := v.history ++ hs }

def addCaller (v : Conversation) (a : Caller) : Conversation :=
  { v with callers := v.callers ++ [a] }

def newCaller (v : Conversation) (timeout : Nat) (method : String) (params : Option Json) :
    Caller where
  id := v.link.nextId
  method := method
  timeout := timeout
  start := v.history.length
  fate := match (v.link.call v.now timeout method params).1 with
    | .ok c => .waiting c
    | .error f => .returned (.error f) v.history.length

/-- What an event does is one step. So nobody comes in between where calls are taken from the table,
for an answer or at the closing, and their callers are then told, although the program does not hold
its lock from the one to the other. -/
def step (v : Conversation) : Event → Conversation
  | .call timeout method params =>
    (v.follow (v.link.call v.now timeout method params).2).addCaller
      (v.newCaller timeout method params)
  | .look n =>
    match v.call? n with
    | none => v
    | some c =>
      match v.link.poll v.now c with
      | (none, l) => v.follow l
      | (some r, l) => (v.follow l).conclude n (.returned r v.history.length)
  | .drop n =>
    match v.call? n with
    | none => v
    | some c => (v.follow (v.link.abandon c)).conclude n .gone
  | .notify method params => v.follow (v.link.notify method params).2
  | .close => v.follow v.link.close
  | .receive bs => v.follow (v.link.receive bs)
  | .endInput => v.follow v.link.endInput
  | .read =>
    match v.link.readNext? with
    | none => v
    | some (l, _) => (v.record (v.link.nextFrame?.toList.map .routed)).follow l
  | .write accepted =>
    match v.link.writeNext? accepted with
    | none => v
    | some (_, l) => v.follow l
  | .wait ms => { v with now := v.now + ms }.record [.passed ms]

def run (language : String) (es : List Event) : Conversation :=
  es.foldl step { link := Link.start language }

@[simp] theorem run_nil (language : String) :
    run language [] = { link := Link.start language } := rfl

theorem run_append_one (language : String) (es : List Event) (e : Event) :
    run language (es ++ [e]) = (run language es).step e := by
  simp [run]

theorem run_append (language : String) (es fs : List Event) :
    run language (es ++ fs) = fs.foldl step (run language es) := by
  simp [run]

theorem getElem?_append_one {α : Type} {xs : List α} {x y : α} {n : Nat}
    (h : (xs ++ [x])[n]? = some y) : xs[n]? = some y ∨ n = xs.length ∧ y = x := by
  rw [List.getElem?_append] at h
  split at h
  · exact .inl h
  · rename_i hn
    obtain ⟨hlt, hy⟩ := List.getElem?_eq_some_iff.mp h
    simp only [List.length_singleton] at hlt
    exact .inr ⟨by omega, by simpa using hy.symm⟩

section Callers

variable (v : Conversation) (l : Link) (n : Nat)

@[simp] theorem link_follow : (v.follow l).link = l := rfl
@[simp] theorem callers_follow : (v.follow l).callers = v.callers := rfl
@[simp] theorem link_conclude (f : Fate) : (v.conclude n f).link = v.link := rfl
@[simp] theorem history_conclude (f : Fate) : (v.conclude n f).history = v.history := rfl
@[simp] theorem link_addCaller (a : Caller) : (v.addCaller a).link = v.link := rfl
@[simp] theorem history_addCaller (a : Caller) : (v.addCaller a).history = v.history := rfl

@[simp] theorem call?_follow : (v.follow l).call? = v.call? := rfl

theorem call?_eq_some {c : Call} :
    v.call? n = some c ↔ ∃ a, v.callers[n]? = some a ∧ a.fate = .waiting c := by
  unfold call?
  rw [Option.bind_eq_some_iff]
  refine exists_congr fun a => and_congr_right fun _ => ?_
  cases a.fate <;> simp [Fate.call?]

theorem call?_conclude (f : Fate) (h : f.call? = none) :
    (v.conclude n f).call? = Function.update v.call? n none := by
  funext m
  by_cases hm : m = n
  · subst hm
    simp only [call?, conclude, List.getElem?_modify, if_true, Function.update_self]
    cases v.callers[m]? <;> simp [h]
  · simp [call?, conclude, Ne.symm hm, Function.update_of_ne hm]

theorem call?_length : v.call? v.callers.length = none := by
  simp [call?]

theorem call?_addCaller (a : Caller) :
    (v.addCaller a).call? = Function.update v.call? v.callers.length a.fate.call? := by
  funext m
  simp only [call?, addCaller]
  by_cases hm : m = v.callers.length
  · subst hm
    simp
  · rw [Function.update_of_ne hm, call?]
    by_cases hlt : m < v.callers.length
    · rw [List.getElem?_append_left hlt]
    · have hlen : (v.callers ++ [a]).length ≤ m := by
        simp only [List.length_append, List.length_singleton]
        omega
      rw [List.getElem?_eq_none hlen, List.getElem?_eq_none (Nat.le_of_not_lt hlt)]

theorem callers_modify {xs : List Caller} {m : Nat} {f : Fate} {a : Caller}
    (h : (xs.modify n fun a => { a with fate := f })[m]? = some a) :
    (m ≠ n ∧ xs[m]? = some a) ∨ m = n ∧ ∃ b, xs[m]? = some b ∧ a = { b with fate := f } := by
  rw [List.getElem?_modify] at h
  by_cases hm : n = m
  · subst hm
    obtain ⟨b, hb, rfl⟩ := Option.map_eq_some_iff.mp h
    exact .inr ⟨rfl, b, hb, by simp⟩
  · obtain ⟨b, hb, rfl⟩ := Option.map_eq_some_iff.mp h
    exact .inl ⟨Ne.symm hm, by simpa [hm] using hb⟩

theorem ids_conclude (f : Fate) :
    ((v.follow l).conclude n f).callers.map (·.id) = v.callers.map (·.id) := by
  apply List.ext_getElem?
  intro m
  simp only [conclude, callers_follow, List.getElem?_map, List.getElem?_modify]
  cases v.callers[m]? with
  | none => rfl
  | some a => by_cases hm : n = m <;> simp [hm]

end Callers

section Steps

variable {v : Conversation} {n : Nat} {c : Call} {l : Link}

attribute [local simp] step

theorem step_look_of_none (h : v.call? n = none) : v.step (.look n) = v := by
  simp [h]

theorem step_look_waits (h : v.call? n = some c) (hp : v.link.poll v.now c = (none, l)) :
    v.step (.look n) = v.follow l := by
  simp [h, hp]

theorem step_look_returns {r : Reply} (h : v.call? n = some c)
    (hp : v.link.poll v.now c = (some r, l)) :
    v.step (.look n) = (v.follow l).conclude n (.returned r v.history.length) := by
  simp [h, hp]

theorem step_drop_of_none (h : v.call? n = none) : v.step (.drop n) = v := by
  simp [h]

theorem step_drop (h : v.call? n = some c) :
    v.step (.drop n) = (v.follow (v.link.abandon c)).conclude n .gone := by
  simp [h]

theorem step_read_of_none (h : v.link.readNext? = none) : v.step .read = v := by
  simp [h]

theorem step_read {p : Option Publication} (h : v.link.readNext? = some (l, p)) :
    v.step .read = (v.record (v.link.nextFrame?.toList.map .routed)).follow l := by
  simp [h]

theorem step_write_of_none {accepted : Bool} (h : v.link.writeNext? accepted = none) :
    v.step (.write accepted) = v := by
  simp [h]

theorem step_write {accepted : Bool} {w : Link.Written}
    (h : v.link.writeNext? accepted = some (w, l)) :
    v.step (.write accepted) = v.follow l := by
  simp [h]

end Steps

theorem closings_of_eq {l l' : Link} (h : l'.closing? = l.closing?) : closings l l' = [] := by
  unfold closings
  rw [h]
  cases l.closing? <;> rfl

theorem history_follow_of_eq {v : Conversation} {l : Link} (h : l.closing? = v.link.closing?) :
    (v.follow l).history = v.history := by
  simp [follow, closings_of_eq h]

theorem follow_link (v : Conversation) : v.follow v.link = v := by
  simp [follow, closings_of_eq]

inductive Change (v : Conversation) : Event → Conversation → Prop
  | nothing {e : Event} (he : ∀ t m p, e ≠ .call t m p) : Change v e v
  | call (timeout : Nat) (method : String) (params : Option Json) :
      Change v (.call timeout method params)
        ((v.follow (v.link.call v.now timeout method params).2).addCaller
          (v.newCaller timeout method params))
  | take {n : Nat} {c : Call} {r : Reply} (hc : v.call? n = some c)
      (hs : v.link.inflight.slot c.ticket = .filled r) :
      Change v (.look n)
        ((v.follow { v.link with inflight := (v.link.inflight.take? c.ticket).2 }).conclude n
          (.returned r v.history.length))
  | giveUp {n : Nat} {c : Call} (hc : v.call? n = some c)
      (hs : v.link.inflight.slot c.ticket = .spent) :
      Change v (.look n)
        ((v.follow (v.link.abandon c)).conclude n
          (.returned (.error v.link.closedFailure) v.history.length))
  | expire {n : Nat} {c : Call} (hc : v.call? n = some c)
      (hs : v.link.inflight.slot c.ticket = .empty) (ht : c.deadline ≤ v.now) :
      Change v (.look n)
        ((v.follow
          ((v.link.abandon c).notify "$/cancelRequest" (some (Link.cancelParams c))).2).conclude n
          (.returned (.error (.timedOut v.link.language c.method (v.now - c.begun)))
            v.history.length))
  | drop {n : Nat} {c : Call} (hc : v.call? n = some c) :
      Change v (.drop n) ((v.follow (v.link.abandon c)).conclude n .gone)
  | notify (method : String) (params : Option Json) :
      Change v (.notify method params) (v.follow (v.link.notify method params).2)
  | close : Change v .close (v.follow v.link.close)
  | receive (bs : Bytes) : Change v (.receive bs) (v.follow (v.link.receive bs))
  | endInput : Change v .endInput (v.follow v.link.endInput)
  | stop (reason : Closing) (rest : Bytes) :
      Change v .read (v.follow ({ v.link with input := rest }.stopReading reason))
  | route (x : Json) (rest : Bytes) :
      Change v .read ((v.record [.routed x]).follow ({ v.link with input := rest }.route x).1)
  | write {accepted : Bool} (n : Nat) (writing : Bool)
      (hw : writing = true → v.link.writing = true)
      (hf : writing = v.link.writing ∨ .finish ∈ v.link.sent) :
      Change v (.write accepted) (v.follow { v.link with written := n, writing := writing })
  | refuse {accepted : Bool} :
      Change v (.write accepted) (v.follow { v.link.closeWith .exited with writing := false })
  | wait (ms : Nat) : Change v (.wait ms) ({ v with now := v.now + ms }.record [.passed ms])

/-- What a look finds depends on the slot, and on the time only as long as that is empty. -/
theorem change_look (v : Conversation) (n : Nat) : v.Change (.look n) (v.step (.look n)) := by
  cases hc : v.call? n with
  | none =>
    rw [step_look_of_none hc]
    exact .nothing (by simp)
  | some c =>
    cases hs : v.link.inflight.slot c.ticket with
    | filled r =>
      rw [step_look_returns hc (Link.poll_of_filled hs)]
      exact .take hc hs
    | spent =>
      rw [step_look_returns hc (Link.poll_of_spent hs)]
      exact .giveUp hc hs
    | deserted =>
      rw [step_look_waits hc (Link.poll_of_deserted hs), follow_link]
      exact .nothing (by simp)
    | empty =>
      by_cases ht : v.now < c.deadline
      · rw [step_look_waits hc (Link.poll_of_early hs ht), follow_link]
        exact .nothing (by simp)
      · have ht : c.deadline ≤ v.now := Nat.le_of_not_lt ht
        rw [step_look_returns hc (Link.poll_of_late hs ht)]
        exact .expire hc hs ht

theorem change_read (v : Conversation) : v.Change .read (v.step .read) := by
  cases hr : v.link.readNext? with
  | none =>
    rw [step_read_of_none hr]
    exact .nothing (by simp)
  | some lp =>
    obtain ⟨l, p⟩ := lp
    rw [step_read hr]
    obtain ⟨reason, rest, hf, rfl⟩ | ⟨x, rest, hf, rfl⟩ := Link.readNext?_cases hr
    · have hv : v.record ((none : Option Json).toList.map .routed) = v := by
        simp [record]
      rw [hf, hv]
      exact .stop reason rest
    · rw [hf]
      exact .route x rest

theorem change_write (v : Conversation) (accepted : Bool) :
    v.Change (.write accepted) (v.step (.write accepted)) := by
  cases hw : v.link.writeNext? accepted with
  | none =>
    rw [step_write_of_none hw]
    exact .nothing (by simp)
  | some wl =>
    obtain ⟨w, l⟩ := wl
    rw [step_write hw]
    obtain ⟨n, writing, hwriting, hfinish, rfl⟩ | rfl := Link.writeNext?_cases hw
    · exact .write n writing hwriting hfinish
    · exact .refuse

theorem change (v : Conversation) (e : Event) : v.Change e (v.step e) := by
  cases e with
  | call timeout method params => exact .call timeout method params
  | look n => exact v.change_look n
  | drop n =>
    cases hc : v.call? n with
    | none =>
      rw [step_drop_of_none hc]
      exact .nothing (by simp)
    | some c =>
      rw [step_drop hc]
      exact .drop hc
  | notify method params => exact .notify method params
  | close => exact .close
  | receive bs => exact .receive bs
  | endInput => exact .endInput
  | read => exact v.change_read
  | write accepted => exact v.change_write accepted
  | wait ms => exact .wait ms

end Conversation
end LanguageClient
