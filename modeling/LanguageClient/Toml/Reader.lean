import LanguageClient.Toml.Scalar
import LanguageClient.Toml.Tree

namespace LanguageClient.Toml

def isBlank (c : Char) : Bool :=
  c == ' ' || c == '\t'

def skipBlank (cs : List Char) : List Char :=
  cs.dropWhile isBlank

/-- Control characters other than tabs stand in no text. -/
def isPlain (c : Char) : Bool :=
  c == '\t' || (0x20 ≤ c.toNat && c.toNat != 0x7F)

def lineEnd? : List Char → Option (List Char)
  | '\n' :: rest => some rest
  | '\r' :: '\n' :: rest => some rest
  | _ => none

/-- A comment up to the end of its line, if one starts here. -/
def skipComment (cs : List Char) : List Char :=
  match cs with
  | '#' :: rest => rest.dropWhile isPlain
  | _ => cs

def skipSpace : Nat → List Char → List Char
  | 0, cs => cs
  | fuel + 1, cs =>
    let cs := skipComment (skipBlank cs)
    match lineEnd? cs with
    | some rest => skipSpace fuel rest
    | none => cs

def endLine? (cs : List Char) : Option (List Char) :=
  match skipComment (skipBlank cs) with
  | [] => some []
  | cs => lineEnd? cs

def hexChar? (digits : List Char) : Option Char := do
  let n ← digits.foldlM (fun n c => (Text.hexValue? c).map (16 * n + ·)) 0
  if h : n.isValidChar then some (Char.ofNatAux n h) else none

def escape? (cs : List Char) : Option (Char × List Char) :=
  match cs with
  | 'b' :: rest => some ('\x08', rest)
  | 't' :: rest => some ('\t', rest)
  | 'n' :: rest => some ('\n', rest)
  | 'f' :: rest => some ('\x0c', rest)
  | 'r' :: rest => some ('\r', rest)
  | 'e' :: rest => some ('\x1b', rest)
  | '"' :: rest => some ('"', rest)
  | '\\' :: rest => some ('\\', rest)
  | 'x' :: rest => digits 2 rest
  | 'u' :: rest => digits 4 rest
  | 'U' :: rest => digits 8 rest
  | _ => none
where
  digits (n : Nat) (rest : List Char) : Option (Char × List Char) :=
    if rest.length < n then none else (hexChar? (rest.take n)).map (·, rest.drop n)

def lineString? (quote : Char) : Nat → List Char → List Char → Option (String × List Char)
  | 0, _, _ => none
  | _, _, [] => none
  | fuel + 1, acc, c :: rest =>
    if c = quote then some (String.ofList acc.reverse, rest)
    else if c = '\\' ∧ quote = '"' then
      match escape? rest with
      | some (d, rest) => lineString? quote fuel (d :: acc) rest
      | none => none
    else if isPlain c then lineString? quote fuel (c :: acc) rest
    else none

/-- Behind a backslash at the end of a line, all space is passed over. -/
def joinLines? (fuel : Nat) (cs : List Char) : Option (List Char) :=
  (lineEnd? (skipBlank cs)).map fun rest => go fuel rest
where
  go : Nat → List Char → List Char
    | 0, cs => cs
    | fuel + 1, cs =>
      match lineEnd? (skipBlank cs) with
      | some rest => go fuel rest
      | none => skipBlank cs

/-- The rest of a string over several lines. Up to two quotes may stand before the closing ones. -/
def longString? (quote : Char) : Nat → List Char → List Char → Option (String × List Char)
  | 0, _, _ => none
  | _, _, [] => none
  | fuel + 1, acc, c :: rest =>
    let quotes := (c :: rest).takeWhile (· == quote)
    if 3 ≤ quotes.length then
      let n := min 5 quotes.length
      some (String.ofList (acc.reverse ++ List.replicate (n - 3) quote), (c :: rest).drop n)
    else if c = '\\' ∧ quote = '"' then
      match joinLines? fuel rest with
      | some rest => longString? quote fuel acc rest
      | none =>
        match escape? rest with
        | some (d, rest) => longString? quote fuel (d :: acc) rest
        | none => none
    else match lineEnd? (c :: rest) with
      | some rest => longString? quote fuel ('\n' :: acc) rest
      | none => if isPlain c then longString? quote fuel (c :: acc) rest else none

def string? (quote : Char) (rest : List Char) : Option (String × List Char) :=
  match rest with
  | a :: b :: rest' =>
    if a = quote ∧ b = quote then
      longString? quote (rest'.length + 1) [] ((lineEnd? rest').getD rest')
    else lineString? quote (rest.length + 1) [] rest
  | _ => lineString? quote (rest.length + 1) [] rest

def isKeyChar (c : Char) : Bool :=
  c.isAlphanum || c == '_' || c == '-'

/-- One part of a key: a bare word or a string on one line. -/
def keyPart? (cs : List Char) : Option (String × List Char) :=
  match cs with
  | '"' :: rest => lineString? '"' (rest.length + 1) [] rest
  | '\x27' :: rest => lineString? '\x27' (rest.length + 1) [] rest
  | _ =>
    let word := cs.takeWhile isKeyChar
    if word.isEmpty then none else some (String.ofList word, cs.dropWhile isKeyChar)

def key? : Nat → List Char → Option (List String × String × List Char)
  | 0, _ => none
  | fuel + 1, cs => do
    let (part, rest) ← keyPart? (skipBlank cs)
    match skipBlank rest with
    | '.' :: rest =>
      let (path, last, rest) ← key? fuel rest
      return (part :: path, last, rest)
    | rest => return ([], part, rest)

def endsWord (c : Char) : Bool :=
  c == ',' || c == ']' || c == '}' || c == '#' || c == '\n' || c == '\r' || isBlank c || c == '='

/-- A bare word. A date may be followed by a time behind one space. -/
def word (cs : List Char) : List Char × List Char :=
  let first := cs.takeWhile (!endsWord ·)
  match cs.dropWhile (!endsWord ·) with
  | ' ' :: d :: rest =>
    if date? first = some [] ∧ Text.isDigit d then
      (first ++ ' ' :: (d :: rest).takeWhile (!endsWord ·), (d :: rest).dropWhile (!endsWord ·))
    else (first, ' ' :: d :: rest)
  | rest => (first, rest)

abbrev Reading := List Char → Option (Json × List Char)

/-- The items of an array; `acc` holds those read, latest first. -/
def items? (item : Reading) : Nat → List Json → Reading
  | 0, _, _ => none
  | fuel + 1, acc, cs =>
    match skipSpace fuel cs with
    | ']' :: rest => some (.arr acc.reverse, rest)
    | cs =>
      match item cs with
      | none => none
      | some (v, rest) =>
        match skipSpace fuel rest with
        | ',' :: rest => items? item fuel (v :: acc) rest
        | ']' :: rest => some (.arr (v :: acc).reverse, rest)
        | _ => none

def fields? (item : Reading) : Nat → Entries → Reading
  | 0, _, _ => none
  | fuel + 1, entries, cs =>
    match skipSpace fuel cs with
    | '}' :: rest => some (.obj (entriesJson entries), rest)
    | cs =>
      match key? fuel cs with
      | some (path, last, '=' :: rest) =>
        match item (skipBlank rest) with
        | none => none
        | some (v, rest) =>
          match setValue path last v .stated entries, skipSpace fuel rest with
          | some entries, ',' :: rest => fields? item fuel entries rest
          | some entries, '}' :: rest => some (.obj (entriesJson entries), rest)
          | _, _ => none
      | _ => none

def value? (fuel : Nat) : Nat → Reading
  | depth, cs =>
    match cs with
    | '"' :: rest => (string? '"' rest).map fun (s, rest) => (.str s, rest)
    | '\x27' :: rest => (string? '\x27' rest).map fun (s, rest) => (.str s, rest)
    | '[' :: rest =>
      match depth with
      | 0 => none
      | depth + 1 => items? (value? fuel depth) fuel [] rest
    | '{' :: rest =>
      match depth with
      | 0 => none
      | depth + 1 => fields? (value? fuel depth) fuel [] rest
    | cs =>
      let (w, rest) := word cs
      (scalar? w).map (·, rest)

/-- Arrays and tables within braces nest at most this deep. -/
def maxDepth : Nat := 80

/-- What has been read: the whole tree, and where the last header leads. -/
structure Document where
  header : List String := []
  entries : Entries := []

def statement? (fuel : Nat) (d : Document) (cs : List Char) : Option (Document × List Char) :=
  match cs with
  | '[' :: '[' :: rest => do
    let (path, last, rest) ← key? fuel rest
    match rest with
    | ']' :: ']' :: rest =>
      let entries ← beginItem path last d.entries
      return (⟨path ++ [last], entries⟩, ← endLine? rest)
    | _ => none
  | '[' :: rest => do
    let (path, last, rest) ← key? fuel rest
    match rest with
    | ']' :: rest =>
      let entries ← stateTable path last d.entries
      return (⟨path ++ [last], entries⟩, ← endLine? rest)
    | _ => none
  | cs => do
    let (path, last, rest) ← key? fuel cs
    match rest with
    | '=' :: rest =>
      let (v, rest) ← value? fuel maxDepth (skipBlank rest)
      let entries ← setBelow d.header path last v d.entries
      return ({ d with entries }, ← endLine? rest)
    | _ => none

def document? : Nat → Document → List Char → Option Document
  | 0, _, _ => none
  | fuel + 1, d, cs =>
    match skipSpace fuel cs with
    | [] => some d
    | cs =>
      match statement? fuel d cs with
      | some (d, rest) => document? fuel d rest
      | none => none

/-- Reads a whole document as an object. A byte order mark may stand in front. -/
def ofString? (s : String) : Option Json :=
  let cs := match s.toList with
    | '\uFEFF' :: rest => rest
    | cs => cs
  (document? (cs.length + 2) {} cs).map fun d => .obj (entriesJson d.entries)

end LanguageClient.Toml
