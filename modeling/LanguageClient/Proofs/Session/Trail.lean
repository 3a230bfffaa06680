import LanguageClient.Proofs.Session.Events

namespace LanguageClient.Session

section Trails

variable (s : Session) (m : Moment) (i : Nat)

def failStartTrail (c : Nat) (f : Failure) : List Session :=
  let reason := s!"initialize failed: {f.message}"
  let closed := s.updateConnection c fun k =>
    { k with link := k.link.close, killed := k.killed || k.process != .absent }
  let failed := { closed with lifecycle := .startFailed reason }
  [closed, failed, failed.leaveGate i,
    (failed.leaveGate i).finish i (.error (.startFailed s.language reason))]

def establishTrail (c : Nat) (result : Json) : List Session :=
  match s.notify c ⟨"initialized", .ofFields []⟩ with
  | (.error f, told) => told :: told.failStartTrail i c f
  | (.ok _, told) =>
    let answered := told.updateConnection c fun k =>
      { k with abilities := Abilities.ofHandshake result, established := true }
    let ready := { answered with lifecycle := .ready c }
    [told, answered, ready, ready.leaveGate i, (ready.leaveGate i).serve m i c]

def checkHandshakeTrail (c : Nat) (call : Call) : List Session :=
  match s.pollCall m c call with
  | (none, polled) => [polled, polled.setStage i (.handshaking c call)]
  | (some (.error f), polled) => polled :: polled.failStartTrail i c f
  | (some (.ok result), polled) => polled :: polled.establishTrail m i c result

def greetTrail (c : Nat) : List Session :=
  match s.call m c (seconds s.timeouts.handshake) "initialize"
      (some (Params.handshake s.processId s.rootUri)) with
  | (.error f, called) => called :: called.failStartTrail i c f
  | (.ok call, called) => called :: called.checkHandshakeTrail m i c call

def startTrail : List Session :=
  let starting := { s with lifecycle := .starting, launches := s.launches + 1 }
  match m.launch with
  | .error f =>
    let failed := { starting with lifecycle := .startFailed f.message }
    [starting, failed, failed.leaveGate i, (failed.leaveGate i).finish i (.error f)]
  | .ok hasProcess =>
    let c := s.connections.length
    let k : Connection :=
      { link := Link.start s.language, process := if hasProcess then .attached else .absent }
    let launched := { starting with connections := s.connections ++ [k] }
    let awaiting := { launched with lifecycle := .awaitingAnswer }
    starting :: launched :: awaiting :: awaiting.greetTrail m i c

def finishShutdownTrail (restartable : Bool) : List Session :=
  let ended := { s with lifecycle := if restartable then .notStarted else .stopped }
  [ended, ended.leaveGate i, (ended.leaveGate i).finish i (.ok .nothing)]

def checkKillingTrail (restartable : Bool) (c : Nat) : List Session :=
  if m.exited c then s.finishShutdownTrail i restartable else [s.setStage i (.killing c)]

def checkReapingTrail (restartable : Bool) (c deadline : Nat) : List Session :=
  if m.exited c then s.finishShutdownTrail i restartable
  else if m.now < deadline then [s.setStage i (.reaping c deadline)]
  else
    let killed := s.updateConnection c fun k => { k with killed := true }
    killed :: killed.checkKillingTrail m i restartable c

def closeUpTrail (restartable : Bool) (c : Nat) : List Session :=
  let closed := s.updateConnection c fun k => { k with link := k.link.close }
  closed :: match closed.process? c with
    | some .attached =>
      let taken := closed.updateConnection c fun k => { k with process := .taken }
      taken :: taken.checkReapingTrail m i restartable c (m.now + seconds closed.timeouts.shutdown)
    | _ => closed.finishShutdownTrail i restartable

def tellExit (s : Session) (c : Nat) : Session :=
  match (s.connection? c).map fun k => (k.link.notify "exit" none).2 with
  | some link => s.setLink c link
  | none => s

def checkStoppingTrail (restartable : Bool) (c : Nat) (call : Call) : List Session :=
  match s.pollCall m c call with
  | (none, polled) => [polled, polled.setStage i (.stopping c call)]
  | (some (.error _), polled) => polled :: polled.closeUpTrail m i restartable c
  | (some (.ok _), polled) =>
    let told := polled.tellExit c
    polled :: told :: told.closeUpTrail m i restartable c

def stopTrail (restartable : Bool) : List Session :=
  let stopping := { s with lifecycle := .shuttingDown }
  stopping :: match s.lifecycle with
    | .ready c =>
      if ((stopping.connection? c).map (·.link.isClosed)).getD true then
        stopping.closeUpTrail m i restartable c
      else match stopping.call m c (seconds stopping.timeouts.shutdown) "shutdown" none with
        | (.error _, called) => called :: called.closeUpTrail m i restartable c
        | (.ok call, called) => called :: called.checkStoppingTrail m i restartable c call
    | _ => stopping.finishShutdownTrail i restartable

def serveOrStartTrail : List Session :=
  match s.live? with
  | (some c, live) => [live, live.leaveGate i, (live.leaveGate i).serve m i c]
  | (none, settled) => settled :: settled.startTrail m i

def takeTurnTrail : List Session :=
  match s.work? i with
  | some (.shutdown restartable) => s.stopTrail m i restartable
  | _ => s.serveOrStartTrail m i

def enterGateTrail : List Session :=
  let entered := { s with gate := s.gate ++ [i] }
  entered :: if s.gate.isEmpty then entered.takeTurnTrail m i else []

def stretchTrail : List Session :=
  match s.tasks[i]? with
  | none => []
  | some t =>
    match t.stage, t.work with
    | .queued, _ => if s.gate.head? = some i then s.takeTurnTrail m i else []
    | .handshaking c call, _ => s.checkHandshakeTrail m i c call
    | .reading c uri, .query path q => [s.afterReading m i path q c uri]
    | .asking c call, .query _ q => [s.checkAsking m i q c call]
    | .stopping c call, .shutdown r => s.checkStoppingTrail m i r c call
    | .reaping c deadline, .shutdown r => s.checkReapingTrail m i r c deadline
    | .killing c, .shutdown r => s.checkKillingTrail m i r c
    | _, _ => []

def serveOrEnterTrail : List Session :=
  match s.live? with
  | (some c, live) => [live, live.serve m i c]
  | (none, settled) => settled :: settled.enterGateTrail m i

def beginTrail (w : Work) : List Session :=
  let i := s.tasks.length
  let added := { s with tasks := s.tasks ++ [(⟨w, .queued⟩ : Task)] }
  added :: (match w with
    | .shutdown _ => added.enterGateTrail m i
    | .open path _ =>
      if (FileUri.ofPath? path).isNone then [added.finish i (.error (.noUri path))]
      else added.serveOrEnterTrail m i
    | .query _ _ => added.serveOrEnterTrail m i) ++ [s.begin m w]

def tellTrail (c : Nat) (told : Option (Notice × OpenDocuments)) : List Session :=
  match told with
  | none => [s, s.tidy]
  | some (notice, documents) =>
    let kept := s.updateConnection c fun k => { k with documents }
    let sent := (kept.notify c notice).2
    [s, kept, sent, sent.tidy]

def changeTrail (path : Path) (text : String) : List Session :=
  match s.live? with
  | (none, settled) => [settled, settled.tidy]
  | (some c, live) =>
    live.tellTrail c ((live.connection? c).bind (·.documents.change? path text))

def closeTrail (path : Path) : List Session :=
  match s.live? with
  | (none, settled) => [settled, settled.tidy]
  | (some c, live) => live.tellTrail c ((live.connection? c).bind (·.documents.close? path))

def stepTrail : Event → List Session
  | .begin m w => s.beginTrail m w
  | .resume m i => s.stretchTrail m i ++ [s.resume m i]
  | .cancel i => [s.cancel i]
  | .change path text => s.changeTrail path text
  | .close path => s.closeTrail path
  | .read c =>
    match (s.connection? c).bind (·.link.readNext?) with
    | some (l, _) => [s.setLink c l, (s.setLink c l).tidy]
    | none => []
  | .write c accepted => [s.step (.write c accepted)]
  | .receive c bs => [s.step (.receive c bs)]
  | .endInput c => [s.step (.endInput c)]
  | .tidy => [s.tidy]

end Trails

def trail (s : Session) : List Event → List Session
  | [] => []
  | e :: es => s.stepTrail e ++ (s.step e).trail es

end LanguageClient.Session
