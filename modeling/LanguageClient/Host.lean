import LanguageClient.Text.Ascii

namespace LanguageClient.Host

def isForbidden (c : Char) : Bool :=
  c ≤ ' ' || c == '\x7f' ||
    ['#', '/', ':', '<', '>', '?', '@', '[', '\\', ']', '^', '|', '%'].contains c

/-- The parts of a name between its dots. One dot may close the name. -/
def parts (name : List Char) : List (List Char) :=
  let all := name.splitOn '.'
  if all.getLast? = some [] then all.dropLast else all

def digits? (base : Nat) (cs : List Char) : Option Nat := do
  let ds ← cs.mapM Text.hexValue?
  if ds.all (· < base) then some (ds.foldl (base * · + ·) 0) else none

/-- A number as addresses have them: in hexadecimal behind `0x`, in octal behind another zero, else
in decimal. -/
def number? : List Char → Option Nat
  | [] => none
  | '0' :: c :: cs => if Text.lowerChar c = 'x' then digits? 16 cs else digits? 8 (c :: cs)
  | cs => digits? 10 cs

/-- A name whose last part is a number stands for an address, or for nothing. -/
def endsInNumber (name : List Char) : Bool :=
  match (parts name).getLast? with
  | some last => (!last.isEmpty && last.all Text.isDigit) || (number? last).isSome
  | none => false

/-- Up to four numbers, of a byte each but for the last, which stands for all bytes that are left. -/
def isAddress (name : List Char) : Bool :=
  match ((parts name).mapM number?).map List.reverse with
  | some (last :: others) =>
    others.length < 4 && others.all (· < 256) && last < Nat.pow 256 (4 - others.length)
  | _ => false

/-- The name of a host, or its short address. A name in another script, or one that encodes such a name,
is taken as it stands; whether it is well formed is not looked into. -/
def isName (name : List Char) : Bool :=
  !name.any isForbidden && (!endsInNumber name || isAddress name)

def isGroup (cs : List Char) : Bool :=
  !cs.isEmpty && cs.length ≤ 4 && cs.all fun c => (Text.hexValue? c).isSome

/-- A byte in decimal, with no zero in front. -/
def isByte (cs : List Char) : Bool :=
  cs.all Text.isDigit && (cs.length == 1 || cs.head? != some '0') &&
    match number? cs with
    | some n => n < 256
    | none => false

def isQuad (cs : List Char) : Bool :=
  let bytes := cs.splitOn '.'
  bytes.length == 4 && bytes.all isByte

/-- The number of groups in a text. Four bytes at its end count as two. -/
def groups? : List (List Char) → Option Nat
  | [] => some 0
  | [cs] => if isQuad cs then some 2 else if isGroup cs then some 1 else none
  | cs :: rest => if isGroup cs then (groups? rest).map (· + 1) else none

/-- The text before the first two colons in a row, and the text behind them. -/
def atGap? : List Char → Option (List Char × List Char)
  | ':' :: ':' :: rest => some ([], rest)
  | c :: rest => (atGap? rest).map fun (before, behind) => (c :: before, behind)
  | [] => none

def groupTexts (cs : List Char) : List (List Char) :=
  if cs.isEmpty then [] else cs.splitOn ':'

/-- Eight groups, or fewer around two colons that stand for those left out. -/
def isLongAddress (cs : List Char) : Bool :=
  match atGap? cs with
  | none => groups? (groupTexts cs) == some 8
  | some (before, behind) =>
    (groupTexts before).all isGroup &&
      match groups? (groupTexts behind) with
      | some n => (groupTexts before).length + n < 8
      | none => false

end LanguageClient.Host
