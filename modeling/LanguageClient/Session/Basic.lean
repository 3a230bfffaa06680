import LanguageClient.Link
import LanguageClient.OpenDocuments
import LanguageClient.Query
import LanguageClient.Setup

namespace LanguageClient

/-- Where a session stands, as others see it. -/
inductive Status where
  | notStarted
  | starting
  | awaitingAnswer
  | ready
  | shuttingDown
  | stopped
  | startFailed (reason : String)
  | crashed (reason : String)
  deriving DecidableEq, Repr

namespace Status

def label : Status → String
  | notStarted => "not_started"
  | starting => "starting"
  | awaitingAnswer => "awaiting_initialize_response"
  | ready => "ready"
  | shuttingDown => "shutting_down"
  | stopped => "stopped"
  | startFailed _ => "start_failed"
  | crashed _ => "crashed"

def isReady : Status → Bool
  | ready => true
  | _ => false

def isFailed : Status → Bool
  | startFailed _ | crashed _ => true
  | _ => false

def reason? : Status → Option String
  | startFailed r | crashed r => some r
  | _ => none

def json (s : Status) : Json :=
  .ofFields (("state", .str s.label) :: (s.reason?.map fun r => ("reason", .str r)).toList)

end Status

namespace Session

/-- The process behind a connection: there is none, it is the connection's, or somebody has taken
it over to wait for its end. -/
inductive Process where
  | absent
  | attached
  | taken
  deriving DecidableEq, Repr

/-- One started server. `established` says that it has answered the first request, `killed` that its
process was told to end at once, and `released` that nobody uses the connection any more. -/
structure Connection where
  link : Link
  process : Process
  abilities : Abilities := {}
  documents : OpenDocuments := {}
  established : Bool := false
  killed : Bool := false
  released : Bool := false

/-- Where a session stands, with the number of the connection that serves. -/
inductive Lifecycle where
  | notStarted
  | starting
  | awaitingAnswer
  | ready (connection : Nat)
  | shuttingDown
  | stopped
  | startFailed (reason : String)
  | crashed (reason : String)
  deriving DecidableEq, Repr

inductive Work where
  | «open» (path : Path) (text : String)
  | query (path : Path) (q : Query)
  | shutdown (restartable : Bool)

/-- What an operation waits for. -/
inductive Stage where
  | queued
  | handshaking (connection : Nat) (call : Call)
  | reading (connection : Nat) (uri : String)
  | asking (connection : Nat) (call : Call)
  | stopping (connection : Nat) (call : Call)
  | reaping (connection : Nat) (deadline : Nat)
  | killing (connection : Nat)
  | done (result : Except Failure Answer)
  | dropped

/-- The connection that an operation holds on to while it waits. -/
def Stage.connection? : Stage → Option Nat
  | handshaking c _ | reading c _ | asking c _ | stopping c _ | reaping c _ | killing c => some c
  | queued | done _ | dropped => none

structure Task where
  work : Work
  stage : Stage

end Session

/-- The server of one language: how it is started, the connections there have been, and the
operations that were begun. `gate` is the queue for starting and stopping; its first has the turn.
`launches` counts the attempts to start the server. -/
structure Session where
  language : String
  server : Setup.Server
  timeouts : Setup.Timeouts
  processId : Nat
  rootUri : String
  lifecycle : Session.Lifecycle := .notStarted
  connections : List Session.Connection := []
  tasks : List Session.Task := []
  gate : List Nat := []
  launches : Nat := 0

namespace Session

/-- What the surroundings hold ready for one stretch of work: the time, what an attempt to start the
server would come to (and whether there is a process), what reading a file gives, and which
connections' processes have ended. -/
structure Moment where
  now : Nat
  launch : Except Failure Bool
  disk : Path → Except SystemError Bytes
  exited : Nat → Bool

def connection? (s : Session) (c : Nat) : Option Connection :=
  s.connections[c]?

def stage? (s : Session) (i : Nat) : Option Stage :=
  (s.tasks[i]?).map (·.stage)

def process? (s : Session) (c : Nat) : Option Process :=
  (s.connection? c).map (·.process)

def updateConnection (s : Session) (c : Nat) (f : Connection → Connection) : Session :=
  { s with connections := s.connections.modify c f }

def setLink (s : Session) (c : Nat) (l : Link) : Session :=
  s.updateConnection c fun k => { k with link := l }

def setStage (s : Session) (i : Nat) (stage : Stage) : Session :=
  { s with tasks := s.tasks.modify i fun t => { t with stage } }

def finish (s : Session) (i : Nat) (result : Except Failure Answer) : Session :=
  s.setStage i (.done result)

/-- The turn passes to the next in the queue. -/
def leaveGate (s : Session) (i : Nat) : Session :=
  { s with gate := s.gate.filter (· != i) }

def crashReason (s : Session) (reason : Closing) : String :=
  (reason.failure s.language).message

def status (s : Session) : Status :=
  match s.lifecycle with
  | .notStarted => .notStarted
  | .starting => .starting
  | .awaitingAnswer => .awaitingAnswer
  | .shuttingDown => .shuttingDown
  | .stopped => .stopped
  | .startFailed r => .startFailed r
  | .crashed r => .crashed r
  | .ready c =>
    match (s.connection? c).bind (·.link.closing?) with
    | none => .ready
    | some reason => .crashed (s.crashReason reason)

/-- The serving connection. One that has closed is given up, and the session counts as crashed. -/
def live? (s : Session) : Option Nat × Session :=
  match s.lifecycle with
  | .ready c =>
    match (s.connection? c).bind (·.link.closing?) with
    | none => (some c, s)
    | some reason => (none, { s with lifecycle := .crashed (s.crashReason reason) })
  | _ => (none, s)

/-- Somebody may still use a connection: the session that is ready with it, or an operation. -/
def isHeld (s : Session) (c : Nat) : Bool :=
  s.lifecycle == .ready c || s.tasks.any fun t => t.stage.connection? == some c

def Connection.release (k : Connection) : Connection :=
  if k.released then k
  else { k with link := k.link.release, released := true, killed := k.killed || k.process != .absent }

/-- The server went away, or wrote what cannot be read: its process is of no more use. -/
def Connection.reap (k : Connection) : Connection :=
  match k.link.lost with
  | none | some .shutdown => k
  | some _ =>
    if k.established && k.process == .attached then { k with process := .taken, killed := true }
    else k

/-- Lets go of what nobody uses any more. -/
def tidy (s : Session) : Session :=
  { s with connections := s.connections.zipIdx.map fun (k, c) =>
      if s.isHeld c then k.reap else k.release }

def notify (s : Session) (c : Nat) (n : Notice) : Except Failure Unit × Session :=
  match s.connection? c with
  | none => (.error (.crashed s.language), s)
  | some k =>
    let (r, link) := k.link.notify n.method (some n.params)
    (r, s.setLink c link)

def call (s : Session) (m : Moment) (c timeout : Nat) (method : String) (params : Option Json) :
    Except Failure Call × Session :=
  match s.connection? c with
  | none => (.error (.crashed s.language), s)
  | some k =>
    let (r, link) := k.link.call m.now timeout method params
    (r, s.setLink c link)

def pollCall (s : Session) (m : Moment) (c : Nat) (call : Call) : Option Reply × Session :=
  match s.connection? c with
  | none => (some (.error (.crashed s.language)), s)
  | some k =>
    let (r, link) := k.link.poll m.now call
    (r, s.setLink c link)

def abandonCall (s : Session) (c : Nat) (call : Call) : Session :=
  s.updateConnection c fun k => { k with link := k.link.abandon call }

end Session
end LanguageClient
