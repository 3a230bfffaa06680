import LanguageClient.Json.Basic
import LanguageClient.Text.Ascii

namespace LanguageClient.Json

/-- Adds digits to a 64-bit number while it can hold them. The second part counts the digits left
over. -/
def absorb (v : Nat) : List Char → Nat × Nat
  | [] => (v, 0)
  | d :: rest =>
    let w := 10 * v + Text.digitValue d
    if w < UInt64.size then absorb w rest else (v, rest.length + 1)

/-- Divides by 10 ^ 308 as long as the exponent lies below what one division reaches. -/
def scaleDown : Nat → Float → Int → Float
  | 0, f, _ => f
  | fuel + 1, f, e =>
    if -308 ≤ e then f / Float.ofScientific 1 false e.natAbs
    else if f == 0.0 then f
    else scaleDown fuel (f / 1e308) (e + 308)

/-- `significand * 10 ^ e` as a double: one multiplication or division by a power of ten, each
rounded. `none` stands for a number too large. Two divisions take every significand to zero, so
three rounds are enough. -/
def double? (significand : Nat) (e : Int) : Option Float :=
  let f := Float.ofNat significand
  if e < 0 then some (scaleDown 4 f e)
  else if 308 < e then if significand = 0 then some f else none
  else
    let g := f * Float.ofScientific 1 false e.toNat
    if g.isInf then none else some g

def floatValue (negative : Bool) (f : Float) : Json :=
  .float (if negative then -f else f).toBits

/-- Whole numbers of the signed and unsigned 64-bit ranges stay whole; minus zero and whatever is
larger becomes a double. -/
def wholeValue (negative : Bool) (n : Nat) : Json :=
  if !negative then .int n
  else if n = 0 ∨ Nat.pow 2 63 < n then floatValue true (Float.ofNat n)
  else .int (-n)

/-- The parts of a number in text: digits before and after the point, and the exponent. -/
structure NumberText where
  negative : Bool
  whole : List Char
  fraction : Option (List Char)
  exponent : Option (Bool × List Char)

def limit32 (e : Int) : Int :=
  max (-0x80000000) (min 0x7FFFFFFF e)

/-- Digits that do not fit 64 bits raise the exponent before the point and are dropped behind it.
An exponent beyond 32 bits is an error when it enlarges, and zero otherwise. -/
def NumberText.value? (t : NumberText) : Option Json :=
  let (v, extra) := absorb 0 t.whole
  if extra = 0 ∧ t.fraction.isNone ∧ t.exponent.isNone then some (wholeValue t.negative v)
  else
    let digits := t.fraction.getD []
    let (w, dropped) := absorb v digits
    let base : Int := (extra : Int) - ((digits.length : Int) - dropped)
    match t.exponent with
    | none => (double? w base).map (floatValue t.negative)
    | some (down, ds) =>
      let e := Nat.ofDigitChars 10 ds 0
      if e < Nat.pow 2 31 then
        let total := if down then limit32 (base - e) else limit32 (base + e)
        (double? w total).map (floatValue t.negative)
      else if w ≠ 0 ∧ !down then none
      else some (floatValue t.negative 0.0)

/-- Reads a number from the front of a text. A zero is not followed by another digit, and a point
or an exponent mark is followed by at least one. -/
def number? (cs : List Char) : Option (Json × List Char) := do
  let (negative, cs) := match cs with
    | '-' :: rest => (true, rest)
    | _ => (false, cs)
  let (whole, cs) := cs.span Text.isDigit
  match whole with
  | [] => none
  | '0' :: _ :: _ => none
  | _ =>
    let (fraction, cs) ← match cs with
      | '.' :: rest =>
        let (ds, rest) := rest.span Text.isDigit
        if ds.isEmpty then none else some (some ds, rest)
      | _ => some (none, cs)
    let (exponent, cs) ← match cs with
      | c :: rest =>
        if c = 'e' ∨ c = 'E' then
          let (down, rest) := match rest with
            | '+' :: r => (false, r)
            | '-' :: r => (true, r)
            | _ => (false, rest)
          let (ds, rest) := rest.span Text.isDigit
          if ds.isEmpty then none else some (some (down, ds), rest)
        else some (none, cs)
      | [] => some (none, cs)
    let v ← NumberText.value? ⟨negative, whole, fraction, exponent⟩
    return (v, cs)

end LanguageClient.Json
