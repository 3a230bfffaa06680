import LanguageClient.Json.Decode
import LanguageClient.Path
import LanguageClient.Text.Blank

namespace LanguageClient

/-- How one language's server is started and which files it is for. -/
structure Setup.Server where
  command : String
  args : List String
  languageId : String
  extensions : List String
  deriving DecidableEq, Repr

/-- How long a session waits, in seconds. -/
structure Setup.Timeouts where
  request : Nat := 30
  handshake : Nat := 60
  shutdown : Nat := 2
  deriving DecidableEq, Repr

structure Setup where
  servers : Table Setup.Server := []
  timeouts : Setup.Timeouts := {}
  deriving Repr

namespace Setup

inductive Fault where
  | emptyCommand
  | emptyLanguageId
  | malformed
  deriving DecidableEq, Repr

def Fault.message : Fault → String
  | .emptyCommand => "server command must not be empty"
  | .emptyLanguageId => "language_id must not be empty"
  -- the readers of JSON and TOML say what is wrong, in words that are not part of the model
  | .malformed => "malformed configuration"

/-- Extensions are kept without dots in front and in lower case. -/
def normalExtension (e : String) : String :=
  String.ofList ((Text.trim e.toList).dropWhile (· == '.') |>.map Text.lowerChar)

/-- A missing language id is left empty, to be filled in later; one that is given is not blank. -/
def Server.make (command : String) (args : List String) (languageId : Option String)
    (extensions : List String) : Except Fault Server :=
  if Text.isBlankText command then .error .emptyCommand
  else if (languageId.map Text.isBlankText).getD false then .error .emptyLanguageId
  else .ok {
    command, args
    languageId := languageId.getD ""
    extensions := (extensions.map normalExtension).filter (· != "") }

/-- Waits are whole seconds, and at least one. -/
def Timeouts.ofNanoseconds (request handshake shutdown : Nat) : Timeouts where
  request := max 1 (request / 1000000000)
  handshake := max 1 (handshake / 1000000000)
  shutdown := max 1 (shutdown / 1000000000)

def Timeouts.ofMilliseconds (request handshake shutdown : Nat) : Timeouts :=
  ofNanoseconds (1000000 * request) (1000000 * handshake) (1000000 * shutdown)

/-- The language fills in for a language id that is missing. -/
def Server.named (language : String) (server : Server) : Server :=
  if server.languageId = "" then { server with languageId := language } else server

def withServer (c : Setup) (language : String) (server : Server) : Setup :=
  { c with servers := Table.set language (server.named language) c.servers }

/-- Adds or replaces servers, one after the other. -/
def withServers (c : Setup) (servers : List (String × Server)) : Setup :=
  servers.foldl (fun c (language, server) => c.withServer language server) c

def withTimeouts (c : Setup) (timeouts : Timeouts) : Setup :=
  { c with timeouts }

def server? (c : Setup) (language : String) : Option Server :=
  Table.get? language c.servers

def default : Setup where
  servers := [
    ("go", ⟨"gopls", [], "go", ["go"]⟩),
    ("python", ⟨"pyright-langserver", ["--stdio"], "python", ["py", "pyi"]⟩),
    ("rust", ⟨"rust-analyzer", [], "rust", ["rs"]⟩),
    ("typescript", ⟨"typescript-language-server", ["--stdio"], "typescript",
      ["ts", "tsx", "js", "jsx", "mjs", "cjs"]⟩)]

/-- An extension that has a language already keeps it. -/
def addRoute (language : String) (routes : Table String) (extension : String) : Table String :=
  match Table.get? extension routes with
  | some _ => routes
  | none => Table.set extension language routes

/-- The language of each extension. Languages come in the order of their names, so that the first
one has an extension that several claim. -/
def routes (c : Setup) : Table String :=
  c.servers.foldl (fun routes (language, s) => s.extensions.foldl (addRoute language) routes) []

/-- The language of a path, by its extension in lower case. -/
def languageForPath? (c : Setup) (p : Path) : Option String := do
  let extension ← p.extension?
  let text ← Utf8.decode? extension
  Table.get? (String.ofList (text.map Text.lowerChar)) c.routes

def orMalformed (v : Option α) : Except Fault α :=
  match v with
  | some a => .ok a
  | none => .error .malformed

/-- A record that may also be written as an array. `spare` says whether such an array may go on
behind the last field. -/
def record (spare : Bool) (size : Nat) (v : Json) : Except Fault Json.Source :=
  orMalformed ((Json.source? v).filter fun s => spare || s.within size)

def Server.ofJson (spare : Bool) (v : Json) : Except Fault Server := do
  let s ← record spare 4 v
  let command ← orMalformed (s.required 0 "command" Json.str?)
  let args ← orMalformed (s.defaulted 1 "args" [] (Json.list? Json.str?))
  let languageId ← orMalformed (s.optional 2 "language_id" Json.str?)
  let extensions ← orMalformed (s.defaulted 3 "file_extensions" [] (Json.list? Json.str?))
  Server.make command args languageId extensions

def seconds? (v : Json) : Option Nat :=
  v.word?.map (·.toNat)

def Timeouts.ofJson (spare : Bool) (v : Json) : Except Fault Timeouts := do
  let s ← record spare 3 v
  let usual : Timeouts := {}
  return {
    request := ← orMalformed (s.defaulted 0 "request_secs" usual.request seconds?)
    handshake := ← orMalformed (s.defaulted 1 "initialize_secs" usual.handshake seconds?)
    shutdown := ← orMalformed (s.defaulted 2 "shutdown_secs" usual.shutdown seconds?) }

/-- Servers are read in the order of their names, and the first fault counts. -/
def serversOfJson (spare : Bool) : Json → Except Fault (Table Server)
  | .obj fields => fields.mapM fun (language, v) => return (language, ← Server.ofJson spare v)
  | _ => .error .malformed

/-- Without a table there are no servers. -/
def statedServers (spare : Bool) (s : Json.Source) : Except Fault (Table Server) :=
  match s.value? 0 "servers" with
  | some v => serversOfJson spare v
  | none => .ok []

def statedTimeouts (spare : Bool) (s : Json.Source) : Except Fault Timeouts :=
  match s.value? 1 "timeouts" with
  | some v => Timeouts.ofJson spare v
  | none => .ok {}

/-- A fault inside a field counts before that of an array that goes on behind the last one. -/
def ofJson (spare : Bool) (v : Json) : Except Fault Setup := do
  let s ← orMalformed (Json.source? v)
  let servers ← statedServers spare s
  let timeouts ← statedTimeouts spare s
  let _ ← record spare 2 v
  return ({ timeouts } : Setup).withServers servers

end Setup
end LanguageClient
