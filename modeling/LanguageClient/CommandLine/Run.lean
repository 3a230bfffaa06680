import LanguageClient.CommandLine.Arguments
import LanguageClient.Rehearsal.World
import LanguageClient.Setup.Text

namespace LanguageClient.CommandLine

/-- Where the program runs: the directory, the user's own directory, and the files. -/
structure Surroundings where
  place : Path
  home : Option Path
  files : Machine.Files

/-- Why a command comes to no result. -/
inductive Halt where
  | failed (message : String)
  | panicked

inductive Ending where
  | printed (v : Json)
  | failed (message : String)
  | refused (fault : Fault)
  | panicked

namespace Ending

def exitCode : Ending → Nat
  | printed _ => 0
  | refused .help => 0
  | failed _ => 1
  | refused _ => 2
  | panicked => 101

def output? : Ending → Option String
  | printed v => some (v.pretty ++ "\n")
  | _ => none

/-- The message of a failure, of which only the first line is shown. -/
def message? : Ending → Option String
  | failed m => some (String.ofList (m.toList.takeWhile (· != '\n')))
  | _ => none

end Ending

namespace Surroundings

def resolve (s : Surroundings) (p : Path) : Path :=
  s.place.append p

/-- The user's own settings file, below the user's directory. -/
def settingsFile : Path :=
  Path.ofText ".config/polyglot/config.toml"

def usualConfig? (s : Surroundings) : Option Path :=
  (s.home.map (·.append settingsFile)).filter fun p => s.files.isFile (s.resolve p)

def setup (s : Surroundings) (config : Option Path) : Except String Setup :=
  match config <|> s.usualConfig? with
  | none => .ok Setup.default
  | some p =>
    match s.files.read (s.resolve p) with
    | .error _ => .error s!"reading config {p.display}"
    | .ok bytes =>
      match Utf8.decode? bytes with
      | none => .error s!"reading config {p.display}"
      | some text =>
        (Setup.ofText (String.ofList text)).mapError fun _ => s!"parsing config {p.display}"

/-- The number of the program's own process, which servers are told. -/
def processId : Nat := 1

def environment (s : Surroundings) : List (Machine.Raw × Machine.Raw) :=
  (s.home.map fun p => ("HOME".toList, Machine.Raw.ofBytes p.bytes)).toList

def world (s : Surroundings) (workspace : Workspace) : Rehearsal.World where
  workspace
  files := s.files
  environment := s.environment
  settles := false
  receiver := some ⟨"", none⟩

/-- The files and directories that a command line is about. -/
def concerned (s : Surroundings) (args : List String) : List Path :=
  match Arguments.read args with
  | .error _ => []
  | .ok a =>
    let root := (a.root.map s.resolve).getD s.place
    [s.place, root] ++ (a.config.map s.resolve).toList ++
      (s.home.map (·.append settingsFile)).toList ++ (a.command.file?.map root.append).toList

end Surroundings

def answerJson : Answer → Json
  | .nothing => .null
  | .symbols ss => .arr (ss.map Symbol.json)
  | .hover h => .optional (h.map Hover.json)
  | .locations ls => .arr (ls.map Location.json)
  | .edit e => .ofFields [("edits", .nat e.edits.length), ("workspace_edit", e.json)]
  | .completions cs => .arr (cs.map Completion.json)

def statusesJson (w : Workspace) : Json :=
  .ofFields (w.statuses.map fun (language, s) => (language, s.json))

/-- What is printed of a publication, if all its lines can be made. -/
def publicationJson? (path : Path) (p : Publication) : Option Json := do
  let lines ← p.diagnostics.mapM (Diagnostic.display? path)
  return .ofFields [
    ("uri", .str p.uri),
    ("diagnostics", .arr (p.diagnostics.map Diagnostic.json)),
    ("lines", .strings lines)]

def ask (w : Rehearsal.World) (path : Path) (r : Workspace.Request) :
    Except String Answer × Rehearsal.World :=
  match w.run (.request path r none) with
  | (.result r, w) => (r.mapError Failure.message, w)
  | (_, w) => (.ok .nothing, w)

def collect (w : Rehearsal.World) (file : Path) (waitMs : Nat) : Except Halt Json × Rehearsal.World :=
  let path := w.workspace.root.append file
  match w.files.read path with
  | .error _ => (.error (.failed s!"reading {path.display}"), w)
  | .ok bytes =>
    match ask w path (.open (String.ofList (Utf8.lossy bytes))) with
    | (.error e, w) => (.error (.failed e), w)
    | (.ok _, w) =>
      let w := w.advance waitMs
      match w.events.mapM fun e => publicationJson? path e.publication with
      | some items => (.ok (.arr items), w)
      | none => (.error .panicked, w)

def query (w : Rehearsal.World) (file : Path) (q : Query) : Except Halt Json × Rehearsal.World :=
  match ask w file (.query q) with
  | (.ok a, w) => (.ok (answerJson a), w)
  | (.error e, w) => (.error (.failed e), w)

def perform (w : Rehearsal.World) : Command → Except Halt Json × Rehearsal.World
  | .symbols f => query w f .symbols
  | .hover f p => query w f (.hover p)
  | .definition f p => query w f (.definition p)
  | .references f p noDeclaration => query w f (.references p (!noDeclaration))
  | .rename f p name => query w f (.rename p name)
  | .completion f p => query w f (.completion p)
  | .diagnostics f ms => collect w f ms
  | .status => (.ok (statusesJson w.workspace), w)

/-- Carries a command out, for files with a configured language only, and shuts all servers down.
A program that panics does not come to that. -/
def carryOut (w : Rehearsal.World) (c : Command) : Except Halt Json × Rehearsal.World :=
  let (result, w) : Except Halt Json × Rehearsal.World := match c.file? with
    | some f =>
      if (w.workspace.languageForPath? f).isNone then
        (.error (.failed s!"no language server configured for {f.display}"), w)
      else perform w c
    | none => perform w c
  match result with
  | .error .panicked => (result, w)
  | .ok _ | .error (.failed _) => (result, (w.run (.shutdown false none)).2)

def run (s : Surroundings) (args : List String) : Ending :=
  match Arguments.read args with
  | .error fault => .refused fault
  | .ok a =>
    match s.setup a.config with
    | .error m => .failed m
    | .ok setup =>
      match Workspace.make setup Surroundings.processId s.place (a.root.getD s.place) with
      | .error _ => .failed "creating LSP manager"
      | .ok workspace =>
        match (carryOut (s.world workspace) a.command).1 with
        | .ok v => .printed v
        | .error (.failed m) => .failed m
        | .error .panicked => .panicked

end LanguageClient.CommandLine
