import LanguageClient.Feed
import LanguageClient.Proofs.Link.Conversation

namespace LanguageClient

namespace Conversation

/-- What a step hands to whoever takes it. -/
inductive Handed where
  | called (r : Except Failure Call)
  | looked (r : Option Reply)
  | notified (r : Except Failure Unit)
  | nothing

def handed (v : Conversation) : Event → Handed
  | .call timeout method params => .called (v.link.call v.now timeout method params).1
  | .look n => .looked ((v.call? n).bind fun c => (v.link.poll v.now c).1)
  | .notify method params => .notified (v.link.notify method params).1
  | .drop _ | .close | .receive _ | .endInput | .read | .write _ | .wait _ => .nothing

/-- What every step hands out, and the link that it leaves: what has been sent on it, and why it has
closed. -/
def account (v : Conversation) : List Event → List (Handed × Link)
  | [] => []
  | e :: es => (v.handed e, (v.step e).link) :: account (v.step e) es

/-- The diagnostics that the reader hands on. -/
def publication? (v : Conversation) : Event → Option Publication
  | .read => v.link.readNext?.bind (·.2)
  | _ => none

def published (v : Conversation) : List Event → List Publication
  | [] => []
  | e :: es => (v.publication? e).toList ++ published (v.step e) es

end Conversation

/-- A conversation, the queue of the diagnostics that its reader hands on, and what the consumer has
taken out of it. -/
structure Broadcast where
  talk : Conversation
  mailbox : Mailbox Publication
  delivered : List Publication := []

namespace Broadcast

inductive Event where
  | talk (e : Conversation.Event)
  /-- The consumer takes what waits, up to so many. -/
  | take (n : Nat)
  | shut

def start (language : String) (capacity : Nat) : Broadcast where
  talk := Conversation.run language []
  mailbox := { capacity }

def feed (b : Broadcast) : Feed :=
  ⟨b.talk.link, b.mailbox⟩

def step (b : Broadcast) : Event → Broadcast
  | .talk .read =>
    match b.feed.readNext? with
    | none => b
    | some f =>
      { b with
        talk := (b.talk.record (b.talk.link.nextFrame?.toList.map .routed)).follow f.link
        mailbox := f.mailbox }
  | .talk e => { b with talk := b.talk.step e }
  | .take n =>
    { b with
      mailbox := (b.mailbox.take n).2
      delivered := b.delivered ++ (b.mailbox.take n).1 }
  | .shut => { b with mailbox := b.mailbox.shut }

def run (b : Broadcast) (es : List Event) : Broadcast :=
  es.foldl step b

def Event.talk? : Event → Option Conversation.Event
  | .talk e => some e
  | .take _ | .shut => none

/-- What every step of the conversation hands out, and the link that it leaves. -/
def account (b : Broadcast) : List Event → List (Conversation.Handed × Link)
  | [] => []
  | .talk e :: es =>
    (b.talk.handed e, (b.step (.talk e)).talk.link) :: account (b.step (.talk e)) es
  | e :: es => account (b.step e) es

/-- What has come through the queue so far, and what is still in it. -/
def passed (b : Broadcast) : List Publication :=
  b.delivered ++ b.mailbox.waiting

theorem waiting_post (m : Mailbox Publication) (p : Publication) :
    List.Sublist (m.post p).waiting (m.waiting ++ [p]) := by
  unfold Mailbox.post
  split
  · exact .refl _
  · exact List.sublist_append_left _ _

section Step

variable (b : Broadcast) (e : Conversation.Event) (es : List Event)

/-- A step of the conversation is what it would be without a queue, and the queue gets what the
reader hands on, or loses it. -/
theorem step_talk :
    (b.step (.talk e)).talk = b.talk.step e ∧
      List.Sublist (b.step (.talk e)).passed (b.passed ++ (b.talk.publication? e).toList) := by
  cases e with
  | read =>
    unfold step feed Feed.readNext? Conversation.publication? passed
    cases hread : b.talk.link.readNext? with
    | none => exact ⟨(Conversation.step_read_of_none hread).symm, by simp⟩
    | some lp =>
      obtain ⟨l, published⟩ := lp
      refine ⟨by rw [Conversation.step_read hread]; cases published <;> rfl, ?_⟩
      cases published with
      | none => simp
      | some p =>
        rw [List.append_assoc]
        exact (waiting_post b.mailbox p).append_left b.delivered
  | _ => exact ⟨rfl, List.sublist_append_left _ _⟩

theorem talk_run : (b.run es).talk = (es.filterMap Event.talk?).foldl Conversation.step b.talk := by
  induction es generalizing b with
  | nil => rfl
  | cons e es ih =>
    have hrun : (b.run (e :: es)).talk = ((b.step e).run es).talk := rfl
    rw [hrun, ih]
    cases e with
    | talk e => rw [(b.step_talk e).1]; rfl
    | take | shut => rfl

theorem account_eq : b.account es = b.talk.account (es.filterMap Event.talk?) := by
  induction es generalizing b with
  | nil => rfl
  | cons e es ih =>
    cases e with
    | talk e =>
      rw [account, ih, (b.step_talk e).1]
      rfl
    | take | shut => exact ih _

theorem passed_run :
    List.Sublist (b.run es).passed
      (b.passed ++ b.talk.published (es.filterMap Event.talk?)) := by
  induction es generalizing b with
  | nil => exact List.sublist_append_left _ _
  | cons e es ih =>
    have hrest := ih (b.step e)
    cases e with
    | talk e =>
      obtain ⟨htalk, hpassed⟩ := b.step_talk e
      rw [htalk] at hrest
      have hpublished : b.talk.published ((Event.talk e :: es).filterMap Event.talk?) =
          (b.talk.publication? e).toList ++
            (b.talk.step e).published (es.filterMap Event.talk?) := rfl
      rw [hpublished, ← List.append_assoc]
      exact hrest.trans (hpassed.append_right _)
    | take n =>
      have hsame : (b.step (.take n)).passed = b.passed := by
        simp [passed, step, Mailbox.take]
      rw [hsame] at hrest
      exact hrest
    | shut =>
      have hfewer : List.Sublist (b.step .shut).passed b.passed :=
        (List.nil_sublist b.mailbox.waiting).append_left b.delivered
      exact hrest.trans (hfewer.append_right _)

end Step

/-- Two runs in which the same happens to the conversation, in the same order, hand out the same in
every step and leave the same link and the same callers, whatever room their queues have, and whenever
their consumers take something out or go. What comes through a queue is some of what the reader hands
on, in that order. -/
theorem account_eq_of_talk_eq (language : String) (capacity capacity' : Nat)
    {es fs : List Event} (h : es.filterMap Event.talk? = fs.filterMap Event.talk?) :
    (start language capacity).account es = (start language capacity').account fs ∧
      ((start language capacity).run es).talk = ((start language capacity').run fs).talk ∧
      List.Sublist ((start language capacity).run es).passed
        ((Conversation.run language []).published (es.filterMap Event.talk?)) ∧
      List.Sublist ((start language capacity').run fs).passed
        ((Conversation.run language []).published (es.filterMap Event.talk?)) := by
  refine ⟨?_, ?_, passed_run _ es, ?_⟩
  · rw [account_eq, account_eq, h]
    rfl
  · rw [talk_run, talk_run, h]
    rfl
  · rw [h]
    exact passed_run _ fs

/-- A request is answered behind two publications of diagnostics. -/
def busy : List Conversation.Event :=
  let publication := Frame.write (Message.notification Link.publicationMethod
    (some (.ofFields [("uri", .str "file:///a"), ("diagnostics", .arr [])])))
  [.call 1000 "textDocument/hover" none,
    .receive (publication ++ publication ++ Frame.write (Message.answer (.nat 1) .null)),
    .read, .read, .read, .look 0]

/-- One consumer takes what it gets at once. The other never does, and goes in the end. -/
theorem account_eq_of_talk_eq_busy :
    let attentive := busy.flatMap fun e => [.talk e, .take 1]
    let absent := busy.map .talk ++ [.shut]
    attentive.filterMap Event.talk? = absent.filterMap Event.talk? ∧
      ((start "lua" 256).run attentive).delivered.length = 2 ∧
      ((start "lua" 1).run absent).passed.length = 0 ∧
      (start "lua" 256).account attentive = (start "lua" 1).account absent := by
  intro attentive absent
  have hsame : attentive.filterMap Event.talk? = absent.filterMap Event.talk? := rfl
  exact ⟨hsame, by decide +kernel, by decide +kernel,
    (account_eq_of_talk_eq "lua" 256 1 hsame).1⟩

end Broadcast
end LanguageClient
