import LanguageClient.Json.Number
import LanguageClient.Text.Utf8

namespace LanguageClient.Json

def isSpace (c : Char) : Bool :=
  c == ' ' || c == '\t' || c == '\n' || c == '\r'

def skipSpace (cs : List Char) : List Char :=
  cs.dropWhile isSpace

def hex4? (a b c d : Char) : Option Nat := do
  return 4096 * (← Text.hexValue? a) + 256 * (← Text.hexValue? b) + 16 * (← Text.hexValue? c) +
    (← Text.hexValue? d)

/-- The characters after a backslash that stand for one character. -/
def unescape? : Char → Option Char
  | '"' => some '"'
  | '\\' => some '\\'
  | '/' => some '/'
  | 'b' => some '\x08'
  | 'f' => some '\x0c'
  | 'n' => some '\n'
  | 'r' => some '\r'
  | 't' => some '\t'
  | _ => none

/-- The rest of a string behind its opening quote, up to the closing one. Surrogates must come in
pairs. The characters read so far are given latest first. -/
def stringRest? (acc : List Char) : List Char → Option (String × List Char)
  | [] => none
  | '"' :: rest => some (String.ofList acc.reverse, rest)
  | '\\' :: 'u' :: a :: b :: c :: d :: rest =>
    match hex4? a b c d with
    | none => none
    | some n =>
      if n < 0xD800 ∨ 0xDFFF < n then stringRest? (Char.ofNat n :: acc) rest
      else if 0xDBFF < n then none
      else match rest with
        | '\\' :: 'u' :: e :: f :: g :: h :: rest =>
          match hex4? e f g h with
          | none => none
          | some m =>
            if m < 0xDC00 ∨ 0xDFFF < m then none
            else stringRest?
              (Char.ofNat (0x10000 + (n - 0xD800) * 1024 + (m - 0xDC00)) :: acc) rest
        | _ => none
  | '\\' :: c :: rest =>
    match unescape? c with
    | none => none
    | some d => stringRest? (d :: acc) rest
  | c :: rest => if c.toNat < 0x20 ∨ c = '\\' then none else stringRest? (c :: acc) rest

abbrev Reading := List Char → Option (Json × List Char)

/-- The items of an array behind a bracket or comma, latest first in `acc`. -/
def itemsRest? (item : Reading) : Nat → List Json → Reading
  | 0, _, _ => none
  | fuel + 1, acc, cs =>
    match item (skipSpace cs) with
    | none => none
    | some (v, cs) =>
      match skipSpace cs with
      | ',' :: rest => itemsRest? item fuel (v :: acc) rest
      | ']' :: rest => some (.arr (v :: acc).reverse, rest)
      | _ => none

/-- The fields of an object behind a brace or comma; `acc` holds those read so far. -/
def fieldsRest? (item : Reading) : Nat → List (String × Json) → Reading
  | 0, _, _ => none
  | fuel + 1, acc, cs =>
    match skipSpace cs with
    | '"' :: cs =>
      match stringRest? [] cs with
      | none => none
      | some (key, cs) =>
        match skipSpace cs with
        | ':' :: cs =>
          match item (skipSpace cs) with
          | none => none
          | some (v, cs) =>
            match skipSpace cs with
            | ',' :: rest => fieldsRest? item fuel (Table.set key v acc) rest
            | '}' :: rest => some (.obj (Table.set key v acc), rest)
            | _ => none
        | _ => none
    | _ => none

/-- A value that starts here, given how deep arrays and objects may still nest. `fuel` bounds the
items of one container. -/
def value? (fuel : Nat) : Nat → Reading
  | depth, cs =>
    match cs with
    | 'n' :: 'u' :: 'l' :: 'l' :: rest => some (.null, rest)
    | 't' :: 'r' :: 'u' :: 'e' :: rest => some (.bool true, rest)
    | 'f' :: 'a' :: 'l' :: 's' :: 'e' :: rest => some (.bool false, rest)
    | '"' :: rest => (stringRest? [] rest).map fun (s, rest) => (.str s, rest)
    | '[' :: rest =>
      match depth with
      | 0 => none
      | depth + 1 =>
        match skipSpace rest with
        | ']' :: rest => some (.arr [], rest)
        | rest => itemsRest? (value? fuel depth) fuel [] rest
    | '{' :: rest =>
      match depth with
      | 0 => none
      | depth + 1 =>
        match skipSpace rest with
        | '}' :: rest => some (.obj [], rest)
        | rest => fieldsRest? (value? fuel depth) fuel [] rest
    | cs => number? cs

/-- Arrays and objects nest at most this deep. -/
def maxDepth : Nat := 127

/-- Reads a whole text as one value with white space around it. -/
def ofChars? (cs : List Char) : Option Json :=
  match value? cs.length maxDepth (skipSpace cs) with
  | some (v, rest) => if (skipSpace rest).isEmpty then some v else none
  | none => none

def ofString? (s : String) : Option Json :=
  ofChars? s.toList

def ofBytes? (bs : Bytes) : Option Json :=
  (Utf8.decode? bs).bind ofChars?

end LanguageClient.Json
