import LanguageClient.Diagnostic
import LanguageClient.Frame.Stream
import LanguageClient.Inflight

namespace LanguageClient

/-- What is queued for writing: a message, or the end of the stream. -/
inductive Outgoing where
  | frame (v : Json)
  | finish

/-- A request under way: the caller waits for its slot until the deadline. -/
structure Call where
  id : UInt64
  method : String
  ticket : Nat
  begun : Nat
  deadline : Nat
  deriving DecidableEq, Repr

/-- One connection as the client sees it. `sent` holds everything ever queued for writing, and
`written` says how far the writer has come; `input` holds what has arrived and is not yet read.
`lost` is the reason that the reader leaves behind at its end. -/
structure Link where
  inflight : Inflight
  nextId : UInt64 := 1
  sent : List Outgoing := []
  written : Nat := 0
  writing : Bool := true
  input : Bytes := []
  inputEnded : Bool := false
  reading : Bool := true
  lost : Option Closing := none

namespace Link

def start (language : String) : Link where
  inflight := { language }

def language (l : Link) : String :=
  l.inflight.language

def closing? (l : Link) : Option Closing :=
  l.inflight.closed

def isClosed (l : Link) : Bool :=
  l.closing?.isSome

def closedFailure (l : Link) : Failure :=
  (l.closing?.getD .exited).failure l.language

def queue (l : Link) (o : Outgoing) : Link :=
  if l.writing then { l with sent := l.sent ++ [o] } else l

def closeWith (l : Link) (reason : Closing) : Link :=
  { l with inflight := (l.inflight.close reason).2 }

def notify (l : Link) (method : String) (params : Option Json) : Except Failure Unit × Link :=
  match l.closing? with
  | some reason => (.error (reason.failure l.language), l)
  | none =>
    if l.writing then (.ok (), l.queue (.frame (Message.notification method params)))
    else (.error l.closedFailure, l)

def abandon (l : Link) (c : Call) : Link :=
  { l with inflight := (l.inflight.remove c.id).2.desert c.ticket }

/-- Sends a request. Each attempt uses up an id. -/
def call (l : Link) (now timeout : Nat) (method : String) (params : Option Json) :
    Except Failure Call × Link :=
  let id := l.nextId
  let l := { l with nextId := id + 1 }
  match l.inflight.register id method with
  | .error f => (.error f, l)
  | .ok (ticket, inflight) =>
    let c : Call := ⟨id, method, ticket, now, now + timeout⟩
    let l := { l with inflight }
    if l.writing then (.ok c, l.queue (.frame (Message.request id method params)))
    else (.error l.closedFailure, l.abandon c)

def cancelParams (c : Call) : Json :=
  .ofFields [("id", .nat c.id.toNat)]

/-- Looks whether a call has come to its end: by a reply, or by its deadline, of which the server is
told. A reply that is there counts even after the deadline. -/
def poll (l : Link) (now : Nat) (c : Call) : Option Reply × Link :=
  match l.inflight.slot c.ticket with
  | .filled r => (some r, { l with inflight := (l.inflight.take? c.ticket).2 })
  | .spent => (some (.error l.closedFailure), l.abandon c)
  | .deserted => (none, l)
  | .empty =>
    if now < c.deadline then (none, l)
    else
      let l := (l.abandon c).notify "$/cancelRequest" (some (cancelParams c)) |>.2
      (some (.error (.timedOut l.language c.method (now - c.begun))), l)

def askedItems (params : Option Json) : Nat :=
  (((params.bind (·.get? "items")).bind Json.arr?).getD []).length

/-- The answer to a request of the server. What is not understood is refused. -/
def replyTo (id : Json) (method : String) (params : Option Json) : Json :=
  match method with
  | "workspace/configuration" =>
    Message.answer id (.arr (List.replicate (askedItems params) .null))
  | "client/registerCapability" | "client/unregisterCapability"
  | "window/workDoneProgress/create" => Message.answer id .null
  | "workspace/applyEdit" => Message.answer id (.ofFields [("applied", .bool false)])
  | _ => Message.refusal id ⟨-32601, s!"Method not found: {method}"⟩

def publicationMethod : String := "textDocument/publishDiagnostics"

/-- Brings a message of the server to where it belongs. Diagnostics are handed on. -/
def route (l : Link) (v : Json) : Link × Option Publication :=
  match Incoming.ofJson? v with
  | none => (l, none)
  | some (.answer id outcome) => ({ l with inflight := (l.inflight.complete id outcome).2 }, none)
  | some (.request id method params) => (l.queue (.frame (replyTo id method params)), none)
  | some (.notification method params) =>
    if method = publicationMethod then (l, params.bind Publication.ofJson?) else (l, none)

/-- The reader stops. Of all reasons to close, the first one stays. -/
def stopReading (l : Link) (reason : Closing) : Link :=
  let l := l.closeWith reason
  { l with reading := false, lost := l.closing? }

/-- Reads the next message, if all of it has arrived, or finds that there is none to come. -/
def readNext? (l : Link) : Option (Link × Option Publication) :=
  if !l.reading then none
  else match Frame.read l.inputEnded l.input with
    | .waiting => none
    | .ended => some (l.stopReading .exited, none)
    | .failed fault rest => some ({ l with input := rest }.stopReading (.protocol fault.message), none)
    | .frame v rest => some ({ l with input := rest }.route v)

def receive (l : Link) (bs : Bytes) : Link :=
  { l with input := l.input ++ bs }

def endInput (l : Link) : Link :=
  { l with inputEnded := true }

/-- What the writer did last. -/
inductive Written where
  | frame (v : Json)
  | finish
  | failed

/-- Writes the next thing in the queue. `accepted` says whether the other side still takes it; if
not, the link closes. -/
def writeNext? (l : Link) (accepted : Bool) : Option (Written × Link) :=
  if !l.writing then none
  else match l.sent[l.written]? with
    | none => none
    | some .finish => some (.finish, { l with written := l.written + 1, writing := false })
    | some (.frame v) =>
      if accepted then some (.frame v, { l with written := l.written + 1 })
      else some (.failed, { l.closeWith .exited with writing := false })

/-- Closes the link: what is queued still goes out, and whatever waits fails. -/
def close (l : Link) : Link :=
  (l.queue .finish).closeWith .shutdown

/-- Nobody uses the link any more: what is queued still goes out, and nothing more is read. -/
def release (l : Link) : Link :=
  { l.queue .finish with reading := false }

end Link
end LanguageClient
