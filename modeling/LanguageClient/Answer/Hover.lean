import LanguageClient.Position
import LanguageClient.Text.Blank

namespace LanguageClient

/-- Texts under one another with an empty line between; empty texts are left out. -/
def paragraphs (texts : List String) : String :=
  "\n\n".intercalate (texts.filter (· != ""))

def codeBlock (language text : String) : String :=
  s!"```{language}\n{text}\n```"

mutual

/-- The text of marked-up content: a string, an object with a value, or an array of such. A value
with a language becomes a block of code. -/
def markupText : Json → String
  | .str s => s
  | .arr parts => paragraphs (markupTexts parts)
  | .obj fields =>
    let text := ((Json.field? "value" fields).bind Json.str?).getD ""
    match (Json.field? "language" fields).bind Json.str? with
    | some language => codeBlock language text
    | none => text
  | _ => ""

def markupTexts : List Json → List String
  | [] => []
  | v :: rest => markupText v :: markupTexts rest

end

structure Hover where
  contents : String
  range : Option Range
  deriving DecidableEq, Repr

namespace Hover

/-- Blank contents are no hover. -/
def ofAnswer (v : Json) : Option Hover :=
  match v.get? "contents" with
  | none => none
  | some c =>
    let contents := markupText c
    if Text.isBlankText contents then none
    else some ⟨contents, (v.get? "range").bind Range.ofJson?⟩

def json (h : Hover) : Json :=
  .ofFields [("contents", .str h.contents), ("range", .optional (h.range.map Range.json))]

end Hover
end LanguageClient
