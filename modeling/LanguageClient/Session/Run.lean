import LanguageClient.FileUri
import LanguageClient.Session.Basic

namespace LanguageClient.Session

def seconds (n : Nat) : Nat :=
  1000 * n

def work? (s : Session) (i : Nat) : Option Work :=
  (s.tasks[i]?).map (·.work)

def checkAsking (s : Session) (m : Moment) (i : Nat) (q : Query) (c : Nat) (call : Call) :
    Session :=
  match s.pollCall m c call with
  | (none, s) => s.setStage i (.asking c call)
  | (some reply, s) => s.finish i (q.conclude s.language reply)

/-- Sends a query about an open document, unless the place lies outside of it or the server cannot
tell. -/
def ask (s : Session) (m : Moment) (i : Nat) (path : Path) (q : Query) (c : Nat) (uri : String) :
    Session :=
  let k := s.connection? c
  let inside := match q.position? with
    | none => true
    | some p => ((k.bind (·.documents.get? path)).map (·.holds p)).getD false
  let provided := (k.map fun k => q.isProvided k.abilities).getD false
  if inside && provided then
    match s.call m c (seconds s.timeouts.request) q.method (some (q.params uri)) with
    | (.error f, s) => s.finish i (.error f)
    | (.ok call, s) => s.checkAsking m i q c call
  else s.finish i (.ok q.empty)

/-- Makes a document known to the server, or its new text. -/
def openDocument (s : Session) (c : Nat) (path : Path) (uri text : String) :
    Except Failure Unit × Session :=
  match s.connection? c with
  | none => (.error (.crashed s.language), s)
  | some k =>
    let (notice, documents) := k.documents.open path uri s.server.languageId text
    (s.updateConnection c fun k => { k with documents }).notify c notice

/-- Goes on when a file has been read. Somebody may have opened the document in the meantime. -/
def afterReading (s : Session) (m : Moment) (i : Nat) (path : Path) (q : Query) (c : Nat)
    (uri : String) : Session :=
  match m.disk path with
  | .error e => s.finish i (.error (.unreadable path e))
  | .ok bytes =>
    if ((s.connection? c).bind (·.documents.get? path)).isSome then s.ask m i path q c uri
    else match s.openDocument c path uri (String.ofList (Utf8.lossy bytes)) with
      | (.error f, s) => s.finish i (.error f)
      | (.ok _, s) => s.ask m i path q c uri

/-- Goes on with a connection that serves. A document that is not open is read from its file. -/
def serve (s : Session) (m : Moment) (i c : Nat) : Session :=
  match s.work? i with
  | some (.open path text) =>
    match FileUri.ofPath? path with
    | none => s.finish i (.error (.noUri path))
    | some uri =>
      match s.openDocument c path uri text with
      | (.error f, s) => s.finish i (.error f)
      | (.ok _, s) => s.finish i (.ok .nothing)
  | some (.query path q) =>
    match (s.connection? c).bind (·.documents.get? path) with
    | some d => s.ask m i path q c d.uri
    | none =>
      match FileUri.ofPath? path with
      | none => s.finish i (.error (.noUri path))
      | some uri => s.setStage i (.reading c uri)
  | _ => s

/-- A start has failed: the connection closes, and its process ends. -/
def failStart (s : Session) (i c : Nat) (f : Failure) : Session :=
  let reason := s!"initialize failed: {f.message}"
  let s := s.updateConnection c fun k =>
    { k with link := k.link.close, killed := k.killed || k.process != .absent }
  ({ s with lifecycle := .startFailed reason }.leaveGate i).finish i
    (.error (.startFailed s.language reason))

/-- Goes on when the server has answered the first request. -/
def establish (s : Session) (m : Moment) (i c : Nat) (result : Json) : Session :=
  match s.notify c ⟨"initialized", .ofFields []⟩ with
  | (.error f, s) => s.failStart i c f
  | (.ok _, s) =>
    let s := s.updateConnection c fun k =>
      { k with abilities := Abilities.ofHandshake result, established := true }
    ({ s with lifecycle := .ready c }.leaveGate i).serve m i c

def checkHandshake (s : Session) (m : Moment) (i c : Nat) (call : Call) : Session :=
  match s.pollCall m c call with
  | (none, s) => s.setStage i (.handshaking c call)
  | (some (.error f), s) => s.failStart i c f
  | (some (.ok result), s) => s.establish m i c result

/-- Starts the server. Only whoever has the turn does so. -/
def start (s : Session) (m : Moment) (i : Nat) : Session :=
  let s := { s with lifecycle := .starting, launches := s.launches + 1 }
  match m.launch with
  | .error f => ({ s with lifecycle := .startFailed f.message }.leaveGate i).finish i (.error f)
  | .ok hasProcess =>
    let c := s.connections.length
    let k : Connection :=
      { link := Link.start s.language, process := if hasProcess then .attached else .absent }
    let s := { s with connections := s.connections ++ [k], lifecycle := .awaitingAnswer }
    match s.call m c (seconds s.timeouts.handshake) "initialize"
        (some (Params.handshake s.processId s.rootUri)) with
    | (.error f, s) => s.failStart i c f
    | (.ok call, s) => s.checkHandshake m i c call

def finishShutdown (s : Session) (i : Nat) (restartable : Bool) : Session :=
  ({ s with lifecycle := if restartable then .notStarted else .stopped }.leaveGate i).finish i
    (.ok .nothing)

/-- Waits for a process that was killed. -/
def checkKilling (s : Session) (m : Moment) (i : Nat) (restartable : Bool) (c : Nat) : Session :=
  if m.exited c then s.finishShutdown i restartable else s.setStage i (.killing c)

/-- Waits for a process to end by itself, and kills it when the time is up. -/
def checkReaping (s : Session) (m : Moment) (i : Nat) (restartable : Bool) (c deadline : Nat) :
    Session :=
  if m.exited c then s.finishShutdown i restartable
  else if m.now < deadline then s.setStage i (.reaping c deadline)
  else (s.updateConnection c fun k => { k with killed := true }).checkKilling m i restartable c

def closeUp (s : Session) (m : Moment) (i : Nat) (restartable : Bool) (c : Nat) : Session :=
  let s := s.updateConnection c fun k => { k with link := k.link.close }
  match s.process? c with
  | some .attached =>
    (s.updateConnection c fun k => { k with process := .taken }).checkReaping m i restartable c
      (m.now + seconds s.timeouts.shutdown)
  | _ => s.finishShutdown i restartable

def checkStopping (s : Session) (m : Moment) (i : Nat) (restartable : Bool) (c : Nat)
    (call : Call) : Session :=
  match s.pollCall m c call with
  | (none, s) => s.setStage i (.stopping c call)
  | (some (.error _), s) => s.closeUp m i restartable c
  | (some (.ok _), s) =>
    let link? := (s.connection? c).map fun k => (k.link.notify "exit" none).2
    let s := match link? with
      | some link => s.setLink c link
      | none => s
    s.closeUp m i restartable c

/-- Shuts down. A connection that serves is asked to, and closed in any case. -/
def stop (s : Session) (m : Moment) (i : Nat) (restartable : Bool) : Session :=
  let before := s.lifecycle
  let s := { s with lifecycle := .shuttingDown }
  match before with
  | .ready c =>
    if ((s.connection? c).map (·.link.isClosed)).getD true then s.closeUp m i restartable c
    else match s.call m c (seconds s.timeouts.shutdown) "shutdown" none with
      | (.error _, s) => s.closeUp m i restartable c
      | (.ok call, s) => s.checkStopping m i restartable c call
  | _ => s.finishShutdown i restartable

/-- Goes on with the turn. Somebody else may have started the server before. -/
def takeTurn (s : Session) (m : Moment) (i : Nat) : Session :=
  match s.work? i with
  | some (.shutdown restartable) => s.stop m i restartable
  | _ =>
    match s.live? with
    | (some c, s) => (s.leaveGate i).serve m i c
    | (none, s) => s.start m i

/-- Joins the queue for the turn, and takes it if nobody is before. -/
def enterGate (s : Session) (m : Moment) (i : Nat) : Session :=
  let free := s.gate.isEmpty
  let s := { s with gate := s.gate ++ [i] }
  if free then s.takeTurn m i else s

/-- Runs a stretch of the operation numbered `i`, up to its next wait. -/
def stretch (s : Session) (m : Moment) (i : Nat) : Session :=
  match s.tasks[i]? with
  | none => s
  | some t =>
    match t.stage, t.work with
    | .queued, _ => if s.gate.head? = some i then s.takeTurn m i else s
    | .handshaking c call, _ => s.checkHandshake m i c call
    | .reading c uri, .query path q => s.afterReading m i path q c uri
    | .asking c call, .query _ q => s.checkAsking m i q c call
    | .stopping c call, .shutdown r => s.checkStopping m i r c call
    | .reaping c deadline, .shutdown r => s.checkReaping m i r c deadline
    | .killing c, .shutdown r => s.checkKilling m i r c
    | _, _ => s

def resume (s : Session) (m : Moment) (i : Nat) : Session :=
  (s.stretch m i).tidy

def begin (s : Session) (m : Moment) (w : Work) : Session :=
  let i := s.tasks.length
  let s := { s with tasks := s.tasks ++ [(⟨w, .queued⟩ : Task)] }
  let s := match w with
    | .shutdown _ => s.enterGate m i
    | .open path _ =>
      if (FileUri.ofPath? path).isNone then s.finish i (.error (.noUri path))
      else match s.live? with
        | (some c, s) => s.serve m i c
        | (none, s) => s.enterGate m i
    | .query _ _ =>
      match s.live? with
      | (some c, s) => s.serve m i c
      | (none, s) => s.enterGate m i
  s.tidy

/-- Drops an operation where it waits. A request under way is given up, and the turn passes on. -/
def cancel (s : Session) (i : Nat) : Session :=
  match s.stage? i with
  | none | some (.done _) | some .dropped => s
  | some stage =>
    let s := match stage with
      | .handshaking c call | .asking c call | .stopping c call => s.abandonCall c call
      | .reaping c _ => s.updateConnection c fun k => { k with killed := true }
      | _ => s
    ((s.setStage i .dropped).leaveGate i).tidy

def change (s : Session) (path : Path) (text : String) : Except Failure Unit × Session :=
  let (r, s) : Except Failure Unit × Session :=
    match s.live? with
    | (none, s) => (.error (.notOpen path), s)
    | (some c, s) =>
      match (s.connection? c).bind (·.documents.change? path text) with
      | none => (.error (.notOpen path), s)
      | some (notice, documents) =>
        (s.updateConnection c fun k => { k with documents }).notify c notice
  (r, s.tidy)

/-- Closes a document if it is open. The server is never started for this. -/
def close (s : Session) (path : Path) : Session :=
  let s := match s.live? with
    | (none, s) => s
    | (some c, s) =>
      match (s.connection? c).bind (·.documents.close? path) with
      | none => s
      | some (notice, documents) =>
        ((s.updateConnection c fun k => { k with documents }).notify c notice).2
  s.tidy

/-- The server's messages on one connection, one at a time. -/
def readNext? (s : Session) (c : Nat) : Option (Session × Option Publication) := do
  let k ← s.connection? c
  let (link, published) ← k.link.readNext?
  return ((s.setLink c link).tidy, published)

/-- Whether a stretch of the operation numbered `i` can run: its turn has come, its reply is there or
its time is up, or the process that it waits for has ended. Files take their own time. -/
def isReady (s : Session) (m : Moment) (i : Nat) : Bool :=
  match s.stage? i with
  | some .queued => s.gate.head? = some i
  | some (.handshaking c call) | some (.asking c call) | some (.stopping c call) =>
    m.now ≥ call.deadline ||
      ((s.connection? c).map fun k => !(k.link.inflight.slot call.ticket).isEmpty).getD true
  | some (.reaping c deadline) => m.now ≥ deadline || m.exited c
  | some (.killing c) => m.exited c
  | _ => false

/-- When the operation numbered `i` stops waiting. -/
def deadline? (s : Session) (i : Nat) : Option Nat :=
  match s.stage? i with
  | some (.handshaking _ call) | some (.asking _ call) | some (.stopping _ call) =>
    some call.deadline
  | some (.reaping _ deadline) => some deadline
  | _ => none

def result? (s : Session) (i : Nat) : Option (Except Failure Answer) :=
  match s.stage? i with
  | some (.done r) => some r
  | _ => none

end LanguageClient.Session
