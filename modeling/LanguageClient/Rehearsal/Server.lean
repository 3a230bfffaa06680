import LanguageClient.Link

namespace LanguageClient.Rehearsal

/-- What a scripted server does once: messages first, then a result or an error if a request is at
hand, then further messages and raw bytes. Last it may stop writing or reading. -/
structure Reaction where
  before : List Json := []
  answer : Option (Except Json Json) := none
  after : List Json := []
  raw : Bytes := []
  stopWriting : Bool := false
  stopReading : Bool := false

def Reaction.exit : Reaction where
  stopWriting := true
  stopReading := true

/-- What comes from the client: a message, or the end of its stream. -/
inductive Arrival where
  | message (v : Json)
  | finish

/-- A scripted server. The n-th message of a method gets the n-th of its reactions, and the last one
from then on. `log` holds what arrived since it was last looked at, latest first. -/
structure Server where
  rules : List (String × List Reaction) := []
  uses : List (String × Nat) := []
  inbox : List Arrival := []
  reads : Bool := true
  writes : Bool := true
  log : List Json := []

namespace Server

def providers : Json :=
  .ofFields (["documentSymbolProvider", "hoverProvider", "definitionProvider",
    "referencesProvider", "renameProvider", "completionProvider"].map (·, .bool true))

def usual (method : String) : Reaction :=
  match method with
  | "initialize" => { answer := some (.ok (.ofFields [("capabilities", providers)])) }
  | "shutdown" => { answer := some (.ok .null) }
  | "exit" => Reaction.exit
  | m => { answer := some (.error (.ofFields [
      ("code", .int (-32601)), ("message", .str s!"unhandled method {m}")])) }

def nth (rs : List Reaction) (n : Nat) : Reaction :=
  (rs[n]? <|> rs.getLast?).getD {}

def react (s : Server) (method : String) : Reaction × Server :=
  match s.rules.lookup method with
  | none => (usual method, s)
  | some rs =>
    let n := (s.uses.lookup method).getD 0
    (nth rs n, { s with uses := (method, n + 1) :: s.uses.filter (·.1 != method) })

/-- Of the first request only the root is worth a look. -/
def logged (v : Json) : Json :=
  match v, (v.get? "method").bind Json.str?, v.get? "params" with
  | .obj fields, some "initialize", some params =>
    .obj (Table.set "params" (.ofFields [("rootUri", .optional (params.get? "rootUri"))]) fields)
  | v, _, _ => v

def note (s : Server) (v : Json) : Server :=
  { s with log := v :: s.log }

/-- The bytes that a reaction writes; `id` is that of the request at hand. -/
def Reaction.output (r : Reaction) (id : Option Json) : Bytes :=
  let answer := match id, r.answer with
    | some id, some (.ok v) => [Message.answer id v]
    | some id, some (.error e) => [Message.withParams none [("id", id), ("error", e)]]
    | _, _ => []
  Frame.writeAll (r.before ++ answer ++ r.after) ++ r.raw

/-- Carries a reaction out: what the client is to read, and whether that is the end of it. -/
def act (s : Server) (r : Reaction) (id : Option Json) : Bytes × Server :=
  let out := if s.writes then Reaction.output r id else []
  (out, { s with writes := s.writes && !r.stopWriting, reads := s.reads && !r.stopReading })

/-- Takes what the client has written; nothing is taken once the server has stopped reading. -/
def deliver (s : Server) (a : Arrival) : Server :=
  { s with inbox := s.inbox ++ [a] }

def handle (s : Server) : Arrival → Bytes × Server
  | .finish => ([], s.note (.ofFields [("eof", .bool true)]))
  | .message v =>
    let s := s.note (logged v)
    match (v.get? "method").bind Json.str? with
    | none => ([], s)
    | some method =>
      let (r, s) := s.react method
      s.act r ((v.get? "id").filter (!·.isNull))

/-- Handles the next arrival, unless the server has stopped reading. -/
def next? (s : Server) : Option (Bytes × Server) :=
  if !s.reads then none
  else match s.inbox with
    | [] => none
    | a :: rest => some ({ s with inbox := rest }.handle a)

def takeLog (s : Server) : List Json × Server :=
  (s.log.reverse, { s with log := [] })

end Server

def writeAll (l : Link) (s : Server) : Nat → Link × Server
  | 0 => (l, s)
  | fuel + 1 =>
    match l.writeNext? s.reads with
    | none => (l, s)
    | some (.frame v, l) => writeAll l (s.deliver (.message v)) fuel
    | some (.finish, l) => writeAll l (s.deliver .finish) fuel
    | some (.failed, l) => (l, s)

def serveAll (l : Link) (s : Server) : Nat → Link × Server
  | 0 => (l, s)
  | fuel + 1 =>
    match s.next? with
    | none => (l, s)
    | some (out, s) =>
      let l := l.receive out
      serveAll (if s.writes then l else l.endInput) s fuel

/-- Brings what is queued to the server and the server's answers to the client's side, unread. The
flag says whether anything moved. -/
def exchange (l : Link) (s : Server) : Bool × Link × Server :=
  let queued := l.writing && l.written < l.sent.length
  let (l, s) := writeAll l s l.sent.length
  let waiting := s.reads && !s.inbox.isEmpty
  let (l, s) := serveAll l s s.inbox.length
  (queued || waiting, l, s)

def actAlone (l : Link) (s : Server) (r : Reaction) : Link × Server :=
  let (out, s) := s.act r none
  let l := l.receive out
  (if s.writes then l else l.endInput, s)

end LanguageClient.Rehearsal
