import LanguageClient.Params
import LanguageClient.Path

namespace LanguageClient

/-- The length of a character in UTF-16 units. -/
def units16 (c : Char) : Nat :=
  if c.toNat < 0x10000 then 1 else 2

/-- The lengths of the lines of a text in UTF-16 units, given the length of the line so far. A line
ends at a line feed, a carriage return, or both; behind the last end there is one more line. -/
def lineLengthsFrom (current : Nat) : List Char → List Nat
  | [] => [current]
  | '\r' :: '\n' :: rest => current :: lineLengthsFrom 0 rest
  | '\r' :: rest => current :: lineLengthsFrom 0 rest
  | '\n' :: rest => current :: lineLengthsFrom 0 rest
  | c :: rest => lineLengthsFrom (current + units16 c) rest

def lineLengths (text : String) : List Nat :=
  lineLengthsFrom 0 text.toList

/-- A document that the server knows as open. -/
structure OpenDocument where
  uri : String
  version : Int32
  lines : List Nat
  deriving DecidableEq, Repr

/-- A place in the text, the end of each line included. -/
def OpenDocument.holds (d : OpenDocument) (p : Position) : Bool :=
  match d.lines[p.line.toNat]? with
  | some n => p.character.toNat ≤ n
  | none => false

structure Notice where
  method : String
  params : Json

/-- The documents open on one connection, by path. -/
structure OpenDocuments where
  entries : List (List Path.Step × OpenDocument) := []
  deriving Repr

namespace OpenDocuments

def get? (ds : OpenDocuments) (p : Path) : Option OpenDocument :=
  (ds.entries.find? (·.1 == p.steps)).map (·.2)

def set (ds : OpenDocuments) (p : Path) (d : OpenDocument) : OpenDocuments :=
  ⟨(p.steps, d) :: ds.entries.filter (·.1 != p.steps)⟩

def erase (ds : OpenDocuments) (p : Path) : OpenDocuments :=
  ⟨ds.entries.filter (·.1 != p.steps)⟩

def change? (ds : OpenDocuments) (p : Path) (text : String) : Option (Notice × OpenDocuments) := do
  let d ← ds.get? p
  let d := { d with version := d.version + 1, lines := lineLengths text }
  return (⟨"textDocument/didChange", Params.changed d.uri d.version text⟩, ds.set p d)

/-- Opens a document with version one. What is open already keeps its URI and is changed. -/
def «open» (ds : OpenDocuments) (p : Path) (uri languageId text : String) :
    Notice × OpenDocuments :=
  match ds.change? p text with
  | some changed => changed
  | none =>
    (⟨"textDocument/didOpen", Params.opened uri languageId 1 text⟩,
      ds.set p ⟨uri, 1, lineLengths text⟩)

def close? (ds : OpenDocuments) (p : Path) : Option (Notice × OpenDocuments) := do
  let d ← ds.get? p
  return (⟨"textDocument/didClose", Params.document d.uri⟩, ds.erase p)

end OpenDocuments
end LanguageClient
