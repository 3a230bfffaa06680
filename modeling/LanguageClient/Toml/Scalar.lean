import LanguageClient.Json.Basic
import LanguageClient.Text.Ascii

namespace LanguageClient.Toml

def spacedDigits? (isDigit : Char → Bool) : List Char → Option (List Char)
  | [] => none
  | [c] => if isDigit c then some [c] else none
  | c :: '_' :: rest => if isDigit c then (spacedDigits? isDigit rest).map (c :: ·) else none
  | c :: rest => if isDigit c then (spacedDigits? isDigit rest).map (c :: ·) else none

def unsigned (cs : List Char) : Bool × List Char :=
  match cs with
  | '-' :: rest => (true, rest)
  | '+' :: rest => (false, rest)
  | _ => (false, cs)

def wholePart? (cs : List Char) : Option (List Char) := do
  let digits ← spacedDigits? Text.isDigit cs
  match digits with
  | '0' :: _ :: _ => none
  | _ => some digits

def radix? : List Char → Option (Nat × List Char)
  | '0' :: 'x' :: rest => some (16, rest)
  | '0' :: 'o' :: rest => some (8, rest)
  | '0' :: 'b' :: rest => some (2, rest)
  | _ => none

def digitBelow (base : Nat) (c : Char) : Bool :=
  (Text.hexValue? c).any (· < base)

def natOf (base : Nat) (digits : List Char) : Nat :=
  digits.foldl (fun n c => base * n + (Text.hexValue? c).getD 0) 0

/-- Whole numbers may fill 128 bits. -/
def integer? (cs : List Char) : Option Json :=
  match radix? cs with
  | some (base, rest) => do
    let n := natOf base (← spacedDigits? (digitBelow base) rest)
    if n < Nat.pow 2 128 then some (.int n) else none
  | none => do
    let (negative, rest) := unsigned cs
    let n := natOf 10 (← wholePart? rest)
    if negative then if n ≤ Nat.pow 2 127 then some (.int (-n)) else none
    else if n < Nat.pow 2 128 then some (.int n) else none

def isExponentMark (c : Char) : Bool :=
  c == 'e' || c == 'E'

/-- A number with a fraction, an exponent, or both; or a name for what is none. -/
def decimal? (cs : List Char) : Option Json := do
  let (negative, rest) := unsigned cs
  let signed (f : Float) : Json := .float (if negative then -f else f).toBits
  if rest = "inf".toList then some (signed (1.0 / 0.0))
  else if rest = "nan".toList then some (signed (0.0 / 0.0))
  else
    let (mantissa, mark) := rest.span (!isExponentMark ·)
    let (whole, point) := mantissa.span (· != '.')
    let ws ← wholePart? whole
    let fs ← match point with
      | [] => some []
      | _ :: fraction => spacedDigits? Text.isDigit fraction
    let e : Int ← match mark with
      | [] => some 0
      | _ :: text =>
        let (down, text) := unsigned text
        (spacedDigits? Text.isDigit text).map fun ds =>
          if down then -(natOf 10 ds : Int) else (natOf 10 ds : Int)
    if point.isEmpty && mark.isEmpty then none
    else
      let shift := e - fs.length
      let digits := natOf 10 (ws ++ fs)
      let f :=
        if digits = 0 then 0.0
        else if shift < 0 then Float.ofScientific digits true (min shift.natAbs 10000)
        else Float.ofScientific digits false (min shift.natAbs 10000)
      if f.isInf then none else some (signed f)

def twoDigits? : List Char → Option (Nat × List Char)
  | a :: b :: rest =>
    if Text.isDigit a && Text.isDigit b then
      some (10 * Text.digitValue a + Text.digitValue b, rest)
    else none
  | _ => none

def daysIn (year month : Nat) : Nat :=
  if month = 2 then
    if year % 4 = 0 ∧ (year % 100 ≠ 0 ∨ year % 400 = 0) then 29 else 28
  else if [4, 6, 9, 11].contains month then 30 else 31

def date? (cs : List Char) : Option (List Char) := do
  let (century, cs) ← twoDigits? cs
  let (year, cs) ← twoDigits? cs
  let cs ← if cs.head? = some '-' then some (cs.drop 1) else none
  let (month, cs) ← twoDigits? cs
  let cs ← if cs.head? = some '-' then some (cs.drop 1) else none
  let (day, cs) ← twoDigits? cs
  if 1 ≤ month ∧ month ≤ 12 ∧ 1 ≤ day ∧ day ≤ daysIn (100 * century + year) month then some cs
  else none

def clock? (cs : List Char) : Option (List Char) := do
  let (hour, cs) ← twoDigits? cs
  let cs ← if cs.head? = some ':' then some (cs.drop 1) else none
  let (minute, cs) ← twoDigits? cs
  if 23 < hour ∨ 59 < minute then none
  else match cs with
    | ':' :: rest =>
      let (second, rest) ← twoDigits? rest
      if 60 < second then none
      else match rest with
        | '.' :: rest =>
          let (ds, rest) := rest.span Text.isDigit
          if ds.isEmpty then none else some rest
        | _ => some rest
    | _ => some cs

/-- Behind a time: nothing, or how far it is from universal time. -/
def isOffset : List Char → Bool
  | [] | ['Z'] | ['z'] => true
  | sign :: rest =>
    (sign == '+' || sign == '-') && ((do
      let (hour, cs) ← twoDigits? rest
      let cs ← if cs.head? = some ':' then some (cs.drop 1) else none
      let (minute, cs) ← twoDigits? cs
      return hour ≤ 23 && minute ≤ 59 && cs.isEmpty).getD false)

def isMoment (cs : List Char) : Bool :=
  match date? cs with
  | some [] => true
  | some (sep :: rest) =>
    (sep == 'T' || sep == 't' || sep == ' ') && ((clock? rest).map isOffset).getD false
  | none => ((clock? cs).map (·.isEmpty)).getD false

/-- The only field of what a date or a time becomes. -/
def momentKey : String := "$__toml_private_datetime"

def scalar? (cs : List Char) : Option Json :=
  if cs = "true".toList then some (.bool true)
  else if cs = "false".toList then some (.bool false)
  else if isMoment cs then some (.ofFields [(momentKey, .str (String.ofList cs))])
  else (integer? cs) <|> (decimal? cs)

end LanguageClient.Toml
