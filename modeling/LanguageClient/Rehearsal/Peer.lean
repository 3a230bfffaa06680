import LanguageClient.Machine.Process
import LanguageClient.Rehearsal.Server

namespace LanguageClient.Rehearsal

/-- A process at the far end of a link. `fresh` says that there is something that it has not yet run
with, and `wakes` is the time up to which it sleeps, if it does. -/
structure Runner where
  process : Machine.Process
  state : Machine.Process.State := .waiting
  fresh : Bool := true
  wakes : Nat := 0

namespace Runner

def isOver (r : Runner) : Bool :=
  r.state.isOver

def deadline? (r : Runner) : Option Nat :=
  match r.state with
  | .asleep _ => some r.wakes
  | _ => none

def kill (r : Runner) : Runner :=
  if r.isOver then r else { r with state := .killed }

def wake (r : Runner) (now : Nat) : Runner :=
  match r.state with
  | .asleep ms =>
    if r.wakes ≤ now then
      { r with process := r.process.sleepFor ms, state := .waiting, fresh := true }
    else r
  | _ => r

/-- Runs a process that waits, if there is something new for it. -/
def proceed? (r : Runner) (now : Nat) : Option (Bytes × Runner) :=
  if r.state = .waiting ∧ r.fresh then
    let (out, state, process) := r.process.proceed
    let wakes := match state with
      | .asleep ms => now + ms
      | _ => r.wakes
    some (out, { process, state, wakes, fresh := false })
  else none

end Runner

/-- Writes all that is queued to a process, unless it has come to its end. -/
def writeTo (l : Link) (r : Runner) : Nat → Link × Runner
  | 0 => (l, r)
  | fuel + 1 =>
    match l.writeNext? (!r.isOver && r.process.listens) with
    | none => (l, r)
    | some (.frame v, l) =>
      writeTo l { r with process := r.process.feed (Frame.write v), fresh := true } fuel
    | some (.finish, l) =>
      writeTo l { r with process := r.process.endInput, fresh := true } fuel
    | some (.failed, l) => (l, r)

/-- Brings what is queued to a process and what it writes to the client's side. The flag says
whether anything happened. -/
def exchangeWith (now : Nat) (killed : Bool) (l : Link) (r : Runner) : Bool × Link × Runner :=
  let queued := l.writing && l.written < l.sent.length
  let (l, r) := writeTo l r l.sent.length
  if r.isOver then (queued, l, r)
  else if killed then (true, l.endInput, r.kill)
  else match (r.wake now).proceed? now with
    | none => (queued, l, r.wake now)
    | some (out, r) =>
      let l := l.receive out
      (true, if r.isOver || !r.process.speaks then l.endInput else l, r)

inductive Peer where
  | scripted (s : Server)
  | running (r : Runner)

namespace Peer

def isOver : Peer → Bool
  | scripted _ => true
  | running r => r.isOver

def deadline? : Peer → Option Nat
  | scripted _ => none
  | running r => r.deadline?

def exchange (now : Nat) (killed : Bool) (l : Link) : Peer → Bool × Link × Peer
  | scripted s =>
    let (moved, l, s) := Rehearsal.exchange l s
    (moved, l, scripted s)
  | running r =>
    let (moved, l, r) := exchangeWith now killed l r
    (moved, l, running r)

def actAlone (l : Link) (r : Reaction) : Peer → Link × Peer
  | scripted s =>
    let (l, s) := Rehearsal.actAlone l s r
    (l, scripted s)
  | running p => (l, running p)

def takeLog : Peer → List Json × Peer
  | scripted s =>
    let (log, s) := s.takeLog
    (log, scripted s)
  | running r => ([], running r)

end Peer
end LanguageClient.Rehearsal
