import LanguageClient.Answer.Location

namespace LanguageClient

inductive Symbol.Kind where
  | file | module | «namespace» | package | «class» | method | property | field | constructor
  | enum | interface | function | «variable» | constant | string | number | boolean | array | object
  | key | null | enumMember | struct | event | operator | typeParameter
  deriving DecidableEq, Repr

namespace Symbol.Kind

/-- All kinds, in the order of their codes, which begin with 1. -/
def all : List Kind :=
  [file, module, «namespace», package, «class», method, property, field, constructor, enum,
    interface, function, «variable», constant, string, number, boolean, array, object, key, null,
    enumMember, struct, event, operator, typeParameter]

def ofCode? (n : Nat) : Option Kind :=
  if n = 0 then none else all[n - 1]?

def label : Kind → String
  | file => "file"
  | module => "module"
  | «namespace» => "namespace"
  | package => "package"
  | «class» => "class"
  | method => "method"
  | property => "property"
  | field => "field"
  | constructor => "constructor"
  | enum => "enum"
  | interface => "interface"
  | function => "function"
  | «variable» => "variable"
  | constant => "constant"
  | string => "string"
  | number => "number"
  | boolean => "boolean"
  | array => "array"
  | object => "object"
  | key => "key"
  | null => "null"
  | enumMember => "enum_member"
  | struct => "struct"
  | event => "event"
  | operator => "operator"
  | typeParameter => "type_parameter"

end Symbol.Kind

/-- A named part of a document. `range` spans all of it, `selection` its name. -/
inductive Symbol where
  | mk (name : String) (detail : Option String) (kind : Option Symbol.Kind)
      (range selection : Range) (children : List Symbol)
  deriving Repr

namespace Symbol

def name : Symbol → String
  | mk n _ _ _ _ _ => n

def range : Symbol → Range
  | mk _ _ _ r _ _ => r

def children : Symbol → List Symbol
  | mk _ _ _ _ _ cs => cs

/-- Siblings stand in the order of where they start, then of their names. -/
def sits (a b : Symbol) : Bool :=
  match a.range.start.order b.range.start with
  | .lt => true
  | .gt => false
  | .eq => a.name ≤ b.name

def sort (symbols : List Symbol) : List Symbol :=
  symbols.mergeSort sits

/-- A symbol as the server tells it, its children apart. It has a range of its own or that of a
location. -/
structure Told where
  name : String
  detail : Option String
  code : Option UInt64
  range : Option Range
  selection : Option Range
  location : Option Location

def Told.ofSource? (s : Json.Source) : Option Told := do
  let name ← s.required 0 "name" Json.str?
  let detail ← s.optional 1 "detail" Json.str?
  let code ← s.optional 2 "kind" Json.word?
  let range ← s.optional 3 "range" Range.ofJson?
  let selection ← s.optional 4 "selectionRange" Range.ofJson?
  let _ ← s.defaulted 5 "children" [] Json.arr?
  let location ← s.optional 6 "location" Location.plain?
  return ⟨name, detail, code, range, selection, location⟩

def Told.ofJson? : Json → Option Told :=
  Json.record? 7 Told.ofSource?

def Told.symbol? (t : Told) (children : List Symbol) : Option Symbol := do
  let range ← t.range <|> t.location.map (·.range)
  let kind := t.code.bind fun n => Kind.ofCode? n.toNat
  return .mk t.name (t.detail.filter (· != "")) kind range (t.selection.getD range)
    (sort children)

mutual

def ofJson? (v : Json) : Option Symbol :=
  match v with
  | .obj fields => (Told.ofJson? v).bind fun t => t.symbol? (fieldChildren fields)
  | .arr items => (Told.ofJson? v).bind fun t => t.symbol? (placeChildren 5 items)
  | _ => none

def fieldChildren : List (String × Json) → List Symbol
  | [] => []
  | (key, v) :: rest => if key == "children" then children? v else fieldChildren rest

def placeChildren : Nat → List Json → List Symbol
  | _, [] => []
  | 0, v :: _ => children? v
  | n + 1, _ :: rest => placeChildren n rest

def children? : Json → List Symbol
  | .arr items => usable items
  | _ => []

/-- What cannot be read as a symbol is left out together with all below it. -/
def usable : List Json → List Symbol
  | [] => []
  | v :: rest =>
    match ofJson? v with
    | some s => s :: usable rest
    | none => usable rest

end

def ofAnswer (v : Json) : List Symbol :=
  sort (children? v)

mutual

/-- A symbol and all below it, each before what is below it. -/
def walk : Symbol → List Symbol
  | mk n d k r s cs => mk n d k r s cs :: walkAll cs

def walkAll : List Symbol → List Symbol
  | [] => []
  | s :: rest => walk s ++ walkAll rest

end

mutual

def json : Symbol → Json
  | mk name detail kind range selection children =>
    .ofFields [
      ("name", .str name), ("detail", .optional (detail.map .str)),
      ("kind", .optional (kind.map fun k => .str k.label)), ("range", range.json),
      ("selection_range", selection.json), ("children", .arr (jsonAll children))]

def jsonAll : List Symbol → List Json
  | [] => []
  | s :: rest => json s :: jsonAll rest

end

end Symbol
end LanguageClient
