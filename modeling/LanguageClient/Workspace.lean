import LanguageClient.Session.Run
import LanguageClient.Text.Quoted

namespace LanguageClient

/-- The sessions of all configured languages over one directory. A session is made when a file of
its language is first used. -/
structure Workspace where
  setup : Setup
  root : Path
  rootUri : String
  processId : Nat
  sessions : Table Session := []

namespace Workspace

/-- A workspace needs a root that has a URI; a relative one is taken from the directory `cwd`. -/
def make (setup : Setup) (processId : Nat) (cwd root : Path) : Except Failure Workspace :=
  match root.absolute? cwd with
  | none => .error (.system .emptyPath)
  | some p =>
    let root := p.normal
    match FileUri.ofPath? root with
    | none => .error (.noUri root)
    | some rootUri => .ok { setup, root, rootUri, processId }

def languageForPath? (w : Workspace) (p : Path) : Option String :=
  w.setup.languageForPath? p

/-- Relative paths are taken from the root. -/
def resolve (w : Workspace) (p : Path) : Path :=
  if p.isAbsolute then p.normal else (w.root.append p).normal

def session? (w : Workspace) (language : String) : Option Session :=
  Table.get? language w.sessions

def setSession (w : Workspace) (language : String) (s : Session) : Workspace :=
  { w with sessions := Table.set language s w.sessions }

def freshSession (w : Workspace) (language : String) (server : Setup.Server) : Session :=
  { language, server, timeouts := w.setup.timeouts, processId := w.processId, rootUri := w.rootUri }

/-- The session for a path with a configured language. -/
def route? (w : Workspace) (p : Path) : Option (String × Session) := do
  let language ← w.languageForPath? p
  let server ← w.setup.server? language
  return (language, (w.session? language).getD (w.freshSession language server))

inductive Request where
  | «open» (text : String)
  | query (q : Query)

def Request.work (p : Path) : Request → Session.Work
  | .open text => .open p text
  | .query q => .query p q

/-- What a request comes to where no server is configured. -/
def Request.empty : Request → Answer
  | .open _ => .nothing
  | .query q => q.empty

/-- An operation that was begun: it is at its end already, or runs in a session under a number. -/
inductive Begun where
  | answered (a : Answer)
  | running (language : String) (i : Nat)

def begin (w : Workspace) (m : String → Session.Moment) (p : Path) (r : Request) :
    Begun × Workspace :=
  match w.route? p with
  | none => (.answered r.empty, w)
  | some (language, s) =>
    let s' := s.begin (m language) (r.work (w.resolve p))
    (.running language s.tasks.length, w.setSession language s')

/-- Replaces the text of an open document. Files without a configured language are passed over. -/
def change (w : Workspace) (p : Path) (text : String) : Except Failure Unit × Workspace :=
  match w.languageForPath? p with
  | none => (.ok (), w)
  | some language =>
    match w.session? language with
    | none => (.error (.notOpen (w.resolve p)), w)
    | some s =>
      let (r, s) := s.change (w.resolve p) text
      (r, w.setSession language s)

def close (w : Workspace) (p : Path) : Workspace :=
  match (w.languageForPath? p).bind fun l => (w.session? l).map (l, ·) with
  | none => w
  | some (language, s) => w.setSession language (s.close (w.resolve p))

/-- Begins to shut down every session, and gives the number of the operation in each. -/
def shutdown (w : Workspace) (m : String → Session.Moment) (restartable : Bool) :
    List (String × Nat) × Workspace :=
  (w.sessions.map fun (language, s) => (language, s.tasks.length),
    { w with sessions := w.sessions.map fun (language, s) =>
        (language, s.begin (m language) (.shutdown restartable)) })

/-- The state of each configured language. One that was never used has not been started. -/
def statuses (w : Workspace) : Table Status :=
  w.setup.servers.map fun (language, _) =>
    (language, ((w.session? language).map Session.status).getD .notStarted)

def resume (w : Workspace) (m : Session.Moment) (language : String) (i : Nat) : Workspace :=
  match w.session? language with
  | none => w
  | some s => w.setSession language (s.resume m i)

def cancel (w : Workspace) (language : String) (i : Nat) : Workspace :=
  match w.session? language with
  | none => w
  | some s => w.setSession language (s.cancel i)

def result? (w : Workspace) (language : String) (i : Nat) : Option (Except Failure Answer) :=
  (w.session? language).bind (·.result? i)

def describe (w : Workspace) : String :=
  let languages := ", ".intercalate (w.setup.servers.map fun (l, _) => Text.quoted l)
  "LspManager \x7b workspace_root: " ++ Text.quotedBytes w.root.bytes ++ ", languages: [" ++
    languages ++ "], .. \x7d"

end Workspace
end LanguageClient
