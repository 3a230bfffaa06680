import LanguageClient.Position

namespace LanguageClient

structure TextEdit where
  range : Range
  newText : String
  deriving DecidableEq, Repr

namespace TextEdit

def ofJson? : Json → Option TextEdit :=
  Json.record? 2 fun s => do
    return ⟨← s.required 0 "range" Range.ofJson?, ← s.required 1 "newText" Json.str?⟩

def json (e : TextEdit) : Json :=
  .ofFields [("range", e.range.json), ("newText", .str e.newText)]

end TextEdit

/-- The edits of one document, for one version of it if the server says which. -/
structure DocumentEdit where
  uri : String
  version : Option Int32
  edits : List TextEdit

namespace DocumentEdit

def target? : Json → Option (String × Option Int32) :=
  Json.record? 2 fun s => do
    return (← s.required 0 "uri" Json.str?, ← s.optional 1 "version" Json.int32?)

/-- Only an object that names a document holds edits; others move or remove files. -/
def ofJson? (v : Json) : Option DocumentEdit :=
  if (v.get? "textDocument").isNone then none
  else v |> Json.record? 2 fun s => do
    let (uri, version) ← s.required 0 "textDocument" target?
    return ⟨uri, version, ← s.required 1 "edits" (Json.list? TextEdit.ofJson?)⟩

def json (d : DocumentEdit) : Json :=
  .ofFields [
    ("uri", .str d.uri), ("version", .optional (d.version.map fun n => .int n.toInt)),
    ("edits", .arr (d.edits.map TextEdit.json))]

end DocumentEdit

/-- What a rename replaces, by document: `changes` is sorted by URI, `documents` is in the server's
order. -/
inductive WorkspaceEdit where
  | changes (table : List (String × List TextEdit))
  | documents (edits : List DocumentEdit)

namespace WorkspaceEdit

def empty : WorkspaceEdit :=
  .changes []

/-- Edits by document win over the table. -/
def ofJson? : Json → Option WorkspaceEdit :=
  Json.record? 2 fun s => do
    let table ← s.optional 0 "changes" (Json.table? (Json.list? TextEdit.ofJson?))
    let documents ← s.optional 1 "documentChanges" Json.arr?
    match documents with
    | some items => return .documents (items.filterMap DocumentEdit.ofJson?)
    | none => return .changes (table.getD [])

def ofAnswer (v : Json) : WorkspaceEdit :=
  (ofJson? v).getD empty

def edits : WorkspaceEdit → List (String × TextEdit)
  | .changes table => table.flatMap fun (uri, es) => es.map (uri, ·)
  | .documents docs => docs.flatMap fun d => d.edits.map (d.uri, ·)

def json : WorkspaceEdit → Json
  | .changes table =>
    .ofFields [("changes", .ofFields (table.map fun (uri, es) => (uri, .arr (es.map TextEdit.json))))]
  | .documents docs => .ofFields [("document_changes", .arr (docs.map DocumentEdit.json))]

end WorkspaceEdit
end LanguageClient
