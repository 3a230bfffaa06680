import LanguageClient.Answer.Completion
import LanguageClient.Answer.Symbol
import LanguageClient.Answer.WorkspaceEdit
import LanguageClient.Failure
import LanguageClient.Params

namespace LanguageClient

/-- What a server says it can do. -/
structure Abilities where
  symbols : Bool := false
  hover : Bool := false
  definition : Bool := false
  references : Bool := false
  rename : Bool := false
  completion : Bool := false
  deriving DecidableEq, Repr

/-- A provider counts unless it is missing, `null` or `false`. -/
def Abilities.provided (result : Json) (key : String) : Bool :=
  match (result.get? "capabilities").bind (·.get? key) with
  | none | some .null | some (.bool false) => false
  | some _ => true

def Abilities.ofHandshake (result : Json) : Abilities where
  symbols := provided result "documentSymbolProvider"
  hover := provided result "hoverProvider"
  definition := provided result "definitionProvider"
  references := provided result "referencesProvider"
  rename := provided result "renameProvider"
  completion := provided result "completionProvider"

inductive Query where
  | symbols
  | hover (at_ : Position)
  | definition (at_ : Position)
  | references (at_ : Position) (includeDeclaration : Bool)
  | rename (at_ : Position) (newName : String)
  | completion (at_ : Position)
  deriving DecidableEq, Repr

inductive Answer where
  | nothing
  | symbols (found : List Symbol)
  | hover (found : Option Hover)
  | locations (found : List Location)
  | edit (found : WorkspaceEdit)
  | completions (found : List Completion)

namespace Query

def position? : Query → Option Position
  | symbols => none
  | hover p | definition p | references p _ | rename p _ | completion p => some p

def method : Query → String
  | symbols => "textDocument/documentSymbol"
  | hover _ => "textDocument/hover"
  | definition _ => "textDocument/definition"
  | references _ _ => "textDocument/references"
  | rename _ _ => "textDocument/rename"
  | completion _ => "textDocument/completion"

def params (uri : String) : Query → Json
  | symbols => Params.document uri
  | hover p | definition p => Params.position uri p
  | references p include_ => Params.references uri p include_
  | rename p newName => Params.rename uri p newName
  | completion p => Params.completion uri p

def isProvided (a : Abilities) : Query → Bool
  | symbols => a.symbols
  | hover _ => a.hover
  | definition _ => a.definition
  | references _ _ => a.references
  | rename _ _ => a.rename
  | completion _ => a.completion

/-- The answer where there is nothing to tell. -/
def empty : Query → Answer
  | symbols => .symbols []
  | hover _ => .hover none
  | definition _ | references _ _ => .locations []
  | rename _ _ => .edit .empty
  | completion _ => .completions []

/-- Reads what a server answers. A rename is refused when any of its edits puts in another text than
the new name. -/
def read (language : String) (v : Json) : Query → Except Failure Answer
  | symbols => .ok (.symbols (Symbol.ofAnswer v))
  | hover _ => .ok (.hover (Hover.ofAnswer v))
  | definition _ | references _ _ => .ok (.locations (Location.ofAnswer v))
  | completion _ => .ok (.completions (Completion.ofAnswer v))
  | rename _ newName =>
    let edit := WorkspaceEdit.ofAnswer v
    match edit.edits.find? fun (_, e) => e.newText != newName with
    | some (_, e) => .error (.misnamed language newName e.newText)
    | none => .ok (.edit edit)

/-- Errors by which a server says that there is nothing to tell: it does not know the request, or
has dropped it. -/
def isEmptyCode (code : Int) : Bool :=
  code == -32601 || code == -32800 || code == -32801

def conclude (language : String) (q : Query) : Except Failure Json → Except Failure Answer
  | .ok v => q.read language v
  | .error (.refused l m r) =>
    if isEmptyCode r.code then q.read language .null else .error (.refused l m r)
  | .error f => .error f

end Query
end LanguageClient
