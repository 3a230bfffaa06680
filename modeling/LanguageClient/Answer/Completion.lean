import LanguageClient.Answer.Hover

namespace LanguageClient

inductive Completion.Kind where
  | text | method | function | constructor | field | «variable» | «class» | interface | module
  | property | unit | value | enum | keyword | snippet | color | file | reference | folder
  | enumMember | constant | struct | event | operator | typeParameter
  deriving DecidableEq, Repr

namespace Completion.Kind

/-- All kinds, in the order of their codes, which begin with 1. -/
def all : List Kind :=
  [text, method, function, constructor, field, «variable», «class», interface, module, property,
    unit, value, enum, keyword, snippet, color, file, reference, folder, enumMember, constant,
    struct, event, operator, typeParameter]

def ofCode? (n : Nat) : Option Kind :=
  if n = 0 then none else all[n - 1]?

def label : Kind → String
  | text => "text"
  | method => "method"
  | function => "function"
  | constructor => "constructor"
  | field => "field"
  | «variable» => "variable"
  | «class» => "class"
  | interface => "interface"
  | module => "module"
  | property => "property"
  | unit => "unit"
  | value => "value"
  | enum => "enum"
  | keyword => "keyword"
  | snippet => "snippet"
  | color => "color"
  | file => "file"
  | reference => "reference"
  | folder => "folder"
  | enumMember => "enum_member"
  | constant => "constant"
  | struct => "struct"
  | event => "event"
  | operator => "operator"
  | typeParameter => "type_parameter"

end Completion.Kind

structure Completion where
  label : String
  kind : Option Completion.Kind
  detail : Option String
  documentation : Option String
  insertText : Option String
  deriving DecidableEq, Repr

namespace Completion

def ofJson? : Json → Option Completion :=
  Json.record? 5 fun s => do
    let label ← s.required 0 "label" Json.str?
    let code ← s.optional 1 "kind" Json.word?
    let detail ← s.optional 2 "detail" Json.str?
    let documentation ← s.optional 3 "documentation" Json.any?
    let insertText ← s.optional 4 "insertText" Json.str?
    return {
      label, detail, insertText
      kind := code.bind fun n => Kind.ofCode? n.toNat
      documentation := (documentation.map markupText).filter (· != "") }

/-- The items in an answer, which is an array of them or an object that holds one. -/
def ofAnswer : Json → List Completion
  | .arr items => items.filterMap ofJson?
  | .obj fields =>
    (((Json.field? "items" fields).bind Json.arr?).getD []).filterMap ofJson?
  | _ => []

def json (c : Completion) : Json :=
  .ofFields [
    ("label", .str c.label), ("kind", .optional (c.kind.map fun k => .str k.label)),
    ("detail", .optional (c.detail.map .str)),
    ("documentation", .optional (c.documentation.map .str)),
    ("insert_text", .optional (c.insertText.map .str))]

end Completion
end LanguageClient
