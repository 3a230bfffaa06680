import LanguageClient.Path
import LanguageClient.Position

namespace LanguageClient

inductive Severity where
  | error | warning | information | hint
  deriving DecidableEq, Repr

namespace Severity

def ofCode? : Nat → Option Severity
  | 1 => some error
  | 2 => some warning
  | 3 => some information
  | 4 => some hint
  | _ => none

def label : Severity → String
  | error => "error"
  | warning => "warning"
  | information => "info"
  | hint => "hint"

def json (s : Severity) : Json :=
  .str (match s with
    | information => "information"
    | s => s.label)

end Severity

structure Diagnostic where
  range : Range
  severity : Severity
  message : String
  source : String
  deriving DecidableEq, Repr

namespace Diagnostic

/-- A severity that is missing or out of range counts as a warning. -/
def ofJson? : Json → Option Diagnostic :=
  Json.record? 4 fun s => do
    let range ← s.required 0 "range" Range.ofJson?
    let code ← s.optional 1 "severity" Json.word?
    let source ← s.optional 2 "source" Json.str?
    let message ← s.required 3 "message" Json.str?
    return {
      range, message
      severity := (code.bind fun n => Severity.ofCode? n.toNat).getD .warning
      source := source.getD "unknown" }

/-- The line for people that gives these numbers for the place. -/
def lineAt (path : Path) (line character : Nat) (d : Diagnostic) : String :=
  s!"{path.display}:{line}:{character}: {d.severity.label}: [{d.source}] {d.message}"

/-- The line as it is meant: people count lines and characters from one. -/
def display (path : Path) (d : Diagnostic) : String :=
  d.lineAt path (d.range.start.line.toNat + 1) (d.range.start.character.toNat + 1)

/-- The number that people have for `n`. The sum is checked, and there is none for the last number
of the type. -/
def ordinal? (n : UInt32) : Option UInt32 :=
  if n.toNat + 1 < UInt32.size then some (n + 1) else none

/-- The line as it is made, unless a sum overflows: then the program panics. -/
def display? (path : Path) (d : Diagnostic) : Option String := do
  let line ← ordinal? d.range.start.line
  let character ← ordinal? d.range.start.character
  return d.lineAt path line.toNat character.toNat

def json (d : Diagnostic) : Json :=
  .ofFields [
    ("range", d.range.json), ("severity", d.severity.json), ("message", .str d.message),
    ("source", .str d.source)]

end Diagnostic

structure Publication where
  uri : String
  diagnostics : List Diagnostic
  deriving DecidableEq, Repr

def Publication.ofJson? : Json → Option Publication :=
  Json.record? 2 fun s => do
    return ⟨← s.required 0 "uri" Json.str?,
      ← s.defaulted 1 "diagnostics" [] (Json.list? Diagnostic.ofJson?)⟩

end LanguageClient
