import LanguageClient.Decimal.Shortest
import LanguageClient.Json.Basic

namespace LanguageClient.Json

def hexDigit (n : Nat) : Char :=
  Nat.digitChar (n % 16)

/-- A character inside a quoted string. Only quotes, backslashes and control characters are
escaped. -/
def escape (c : Char) : List Char :=
  match c with
  | '"' => ['\\', '"']
  | '\\' => ['\\', '\\']
  | '\x08' => ['\\', 'b']
  | '\x0c' => ['\\', 'f']
  | '\n' => ['\\', 'n']
  | '\r' => ['\\', 'r']
  | '\t' => ['\\', 't']
  | c =>
    if c.toNat < 0x20 then ['\\', 'u', '0', '0', hexDigit (c.toNat / 16), hexDigit c.toNat]
    else [c]

def quote (s : String) : List Char :=
  '"' :: s.toList.flatMap escape ++ ['"']

/-- Doubles stand plainly from 0.00001 up to sixteen digits before the point. -/
def layout : Decimal.Layout := ⟨-5, 16⟩

def intText (n : Int) : List Char :=
  match n with
  | .ofNat k => Nat.toDigits 10 k
  | .negSucc k => '-' :: Nat.toDigits 10 (k + 1)

mutual

/-- The text without any white space. -/
def text : Json → List Char
  | .null => ['n', 'u', 'l', 'l']
  | .bool true => ['t', 'r', 'u', 'e']
  | .bool false => ['f', 'a', 'l', 's', 'e']
  | .int n => intText n
  | .float bits => Decimal.doubleText layout bits
  | .str s => quote s
  | .arr items => '[' :: itemsText items ++ [']']
  | .obj fields => '{' :: fieldsText fields ++ ['}']

def itemsText : List Json → List Char
  | [] => []
  | [v] => text v
  | v :: w :: rest => text v ++ ',' :: itemsText (w :: rest)

def fieldsText : List (String × Json) → List Char
  | [] => []
  | [(k, v)] => quote k ++ ':' :: text v
  | (k, v) :: f :: rest => quote k ++ ':' :: text v ++ ',' :: fieldsText (f :: rest)

end

def indent (level : Nat) : List Char :=
  '\n' :: List.replicate (2 * level) ' '

mutual

def prettyText (level : Nat) : Json → List Char
  | .arr [] => ['[', ']']
  | .obj [] => ['{', '}']
  | .arr items => '[' :: prettyItems (level + 1) items ++ indent level ++ [']']
  | .obj fields => '{' :: prettyFields (level + 1) fields ++ indent level ++ ['}']
  | v => text v

def prettyItems (level : Nat) : List Json → List Char
  | [] => []
  | [v] => indent level ++ prettyText level v
  | v :: w :: rest => indent level ++ prettyText level v ++ ',' :: prettyItems level (w :: rest)

def prettyFields (level : Nat) : List (String × Json) → List Char
  | [] => []
  | [(k, v)] => indent level ++ quote k ++ ':' :: ' ' :: prettyText level v
  | (k, v) :: f :: rest =>
    indent level ++ quote k ++ ':' :: ' ' :: prettyText level v ++ ',' ::
      prettyFields level (f :: rest)

end

def pretty (v : Json) : String :=
  String.ofList (v.prettyText 0)

end LanguageClient.Json
