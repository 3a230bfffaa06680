import LanguageClient.FileUri
import LanguageClient.Position

namespace LanguageClient

structure Location where
  uri : String
  range : Range
  deriving DecidableEq, Repr

namespace Location

def path? (l : Location) : Option Path :=
  FileUri.toPath? l.uri

def plain? : Json → Option Location :=
  Json.record? 2 fun s => do
    return ⟨← s.required 0 "uri" Json.str?, ← s.required 1 "range" Range.ofJson?⟩

/-- A link gives the range to select, if it has one, and the whole target's range otherwise. -/
def link? : Json → Option Location :=
  Json.record? 3 fun s => do
    let uri ← s.required 0 "targetUri" Json.str?
    let whole ← s.required 1 "targetRange" Range.ofJson?
    let selection ← s.optional 2 "targetSelectionRange" Range.ofJson?
    return ⟨uri, selection.getD whole⟩

/-- An object that names a target is a link. -/
def ofJson? (v : Json) : Option Location :=
  if (v.get? "targetUri").isSome then link? v else plain? v

/-- The locations in an answer: none, one, or an array from which whatever else it holds is left
out. -/
def ofAnswer : Json → List Location
  | .null => []
  | .arr items => items.filterMap ofJson?
  | v => (ofJson? v).toList

def json (l : Location) : Json :=
  .ofFields [("uri", .str l.uri), ("range", l.range.json)]

end Location
end LanguageClient
