import LanguageClient.Feed
import LanguageClient.Rehearsal.Server

namespace LanguageClient.Rehearsal

inductive Progress where
  | running (c : Call)
  | finished (r : Reply)
  | collected

/-- A rehearsal of one link with a scripted server, on a clock of its own, in milliseconds. Calls
stand in the order in which they began; `named` holds their places. -/
structure Wire where
  link : Link
  server : Server
  mailbox : Mailbox Publication
  patience : Nat
  now : Nat := 0
  calls : List Progress := []
  named : List (String × Nat) := []
  lostSeen : Bool := false

namespace Wire

def start (language : String) (rules : List (String × List Reaction)) (patience capacity : Nat) :
    Wire where
  link := Link.start language
  server := { rules }
  mailbox := { capacity }
  patience := patience

def readAll (w : Wire) : Nat → Wire
  | 0 => w
  | fuel + 1 =>
    match (Feed.mk w.link w.mailbox).readNext? with
    | none => w
    | some ⟨link, mailbox⟩ => readAll { w with link, mailbox } fuel

def pollCall (w : Wire) (i : Nat) : Progress → Wire
  | .running c =>
    match w.link.poll w.now c with
    | (some r, link) => { w with link, calls := w.calls.set i (.finished r) }
    | (none, link) => { w with link }
  | _ => w

def pollAll (w : Wire) : Wire :=
  w.calls.zipIdx.foldl (fun w (p, i) => w.pollCall i p) w

def settle (w : Wire) : Nat → Wire
  | 0 => w
  | fuel + 1 =>
    let (moved, link, server) := exchange w.link w.server
    let w := ({ w with link, server }.readAll (link.input.length + 2)).pollAll
    if moved || (w.link.writing && w.link.written < w.link.sent.length) then settle w fuel else w

/-- More rounds than any exchange of messages takes in which the server answers, and does not itself
go on. -/
def rounds : Nat := 10000

def settled (w : Wire) : Wire :=
  w.settle rounds

def deadline? (w : Wire) : Option Nat :=
  (w.calls.filterMap fun
    | .running c => some c.deadline
    | _ => none).min?

def passUntil (w : Wire) (target : Nat) : Nat → Wire
  | 0 => { w with now := target }
  | fuel + 1 =>
    match w.deadline? with
    | some d =>
      if d ≤ target then passUntil { w with now := max w.now d }.settled target fuel
      else { w with now := target }
    | none => { w with now := target }

def advance (w : Wire) (ms : Nat) : Wire :=
  (w.settled.passUntil (w.now + ms) (w.calls.length + 1)).settled

def finished? (w : Wire) (i : Nat) : Option Reply :=
  match w.calls[i]? with
  | some (.finished r) => some r
  | _ => none

/-- Waits for a call. When nothing else can happen, time passes up to the next deadline. -/
def await (w : Wire) (i : Nat) : Nat → Wire
  | 0 => w
  | fuel + 1 =>
    let w := w.settled
    if (w.finished? i).isSome then w
    else match w.deadline? with
      | some d => await { w with now := max w.now d } i fuel
      | none => w

inductive Shown where
  | nothing
  | started
  | sent
  | reply (r : Reply)
  | failed (f : Failure)
  | gone
  | pending
  | cancelled (running : Bool)
  | empty
  | lost (reason : Closing)

inductive Step where
  | call (method : String) (params : Option Json) (timeout : Option Nat) (name : Option String)
  | notify (method : String) (params : Option Json)
  | server (r : Reaction)
  | close
  | advance (ms : Nat)
  | lost
  | dropDiagnostics
  | join (name : String)
  | poll (name : String)
  | cancel (name : String)

def place? (w : Wire) (name : String) : Option Nat := do
  let i ← w.named.lookup name
  match w.calls[i]? with
  | none | some .collected => none
  | some _ => some i

def collect (w : Wire) (i : Nat) : Shown × Wire :=
  match w.finished? i with
  | some r => (.reply r, { w with calls := w.calls.set i .collected })
  | none => (.pending, w)

/-- A call that begins is looked at once before the server can do anything. -/
def begin (w : Wire) (method : String) (params : Option Json) (timeout : Option Nat) : Wire :=
  let (c, link) := w.link.call w.now (timeout.getD w.patience) method params
  let p := match c with
    | .ok c => .running c
    | .error f => .finished (.error f)
  { w with link, calls := w.calls ++ [p] }.pollCall w.calls.length p

def patienceRounds (w : Wire) : Nat :=
  w.calls.length + 2

def run (w : Wire) : Step → Shown × Wire
  | .call method params timeout name =>
    let i := w.calls.length
    let w := w.begin method params timeout
    match name with
    | some name => (.started, { w with named := (name, i) :: w.named })
    | none => (w.await i w.patienceRounds).collect i
  | .notify method params =>
    match w.link.notify method params with
    | (.ok _, link) => (.sent, { w with link })
    | (.error f, link) => (.failed f, { w with link })
  | .server r =>
    let (link, server) := actAlone w.link w.server r
    (.nothing, { w with link, server })
  | .close => (.nothing, { w with link := w.link.close })
  | .advance ms => (.nothing, w.advance ms)
  | .lost =>
    if w.lostSeen then (.gone, w)
    else match w.link.lost with
      | some reason => (.lost reason, { w with lostSeen := true })
      | none => (.empty, w)
  | .dropDiagnostics => (.nothing, { w with mailbox := w.mailbox.shut })
  | .join name =>
    match w.place? name with
    | none => (.gone, w)
    | some i => (w.await i w.patienceRounds).collect i
  | .poll name =>
    match w.place? name with
    | none => (.gone, w)
    | some i => w.collect i
  | .cancel name =>
    match w.place? name with
    | none => (.gone, w)
    | some i =>
      let w' := { w with calls := w.calls.set i .collected }
      match w.calls[i]? with
      | some (.running c) => (.cancelled true, { w' with link := w.link.abandon c })
      | _ => (.cancelled false, w')

def step (w : Wire) (s : Step) : Shown × Wire :=
  let (shown, w) := w.run s
  let w := w.settled
  (shown, { w with now := w.now + 1 }.settled)

end Wire
end LanguageClient.Rehearsal
