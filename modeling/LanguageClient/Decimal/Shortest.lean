import LanguageClient.Text.Ascii

namespace LanguageClient.Decimal

/-- The decimal number `digits * 10 ^ exponent`. -/
structure Scaled where
  digits : Nat
  exponent : Int
  deriving DecidableEq, Repr

/-- A positive double, `mantissa * 2 ^ exponent`. `edge` marks the least mantissa of its binade,
below which doubles lie twice as close. -/
structure Binary where
  mantissa : Nat
  exponent : Int
  edge : Bool

def Binary.ofBits (bits : UInt64) : Binary :=
  let raw : Nat := bits.toNat % Nat.pow 2 63
  let e : Nat := raw / Nat.pow 2 52
  let f : Nat := raw % Nat.pow 2 52
  if e = 0 then ⟨f, -1074, false⟩
  else ⟨f + Nat.pow 2 52, Int.ofNat e - 1075, f = 0 ∧ 1 < e⟩

structure Fraction where
  num : Nat
  den : Nat

def Fraction.le (a b : Fraction) : Bool :=
  a.num * b.den ≤ b.num * a.den

def Fraction.lt (a b : Fraction) : Bool :=
  a.num * b.den < b.num * a.den

def power (base : Nat) (n : Nat) (e : Int) : Fraction :=
  if 0 ≤ e then ⟨n * base.pow e.toNat, 1⟩ else ⟨n, base.pow (-e).toNat⟩

/-- The numbers that round to `b`: between its two midpoints, which themselves round to an even
mantissa. -/
def Binary.covers (b : Binary) (x : Fraction) : Bool :=
  let low := power 2 (4 * b.mantissa - if b.edge then 1 else 2) (b.exponent - 2)
  let high := power 2 (4 * b.mantissa + 2) (b.exponent - 2)
  if b.mantissa % 2 = 0 then low.le x && x.le high else low.lt x && x.lt high

/-- The multiple of `10 ^ e` nearest to `b` among those that round to `b`. -/
def Binary.onGrid (b : Binary) (e : Int) : Option Scaled :=
  let v := power 2 b.mantissa b.exponent
  let unit := power 10 1 e
  let below := v.num * unit.den / (v.den * unit.num)
  let hit n := b.covers (power 10 n e)
  match hit below, hit (below + 1) with
  | false, false => none
  | true, false => some ⟨below, e⟩
  | false, true => some ⟨below + 1, e⟩
  | true, true =>
    let middle := power 10 (2 * below + 1) e
    let twice : Fraction := ⟨2 * v.num, v.den⟩
    if twice.lt middle || (twice.le middle && below % 2 = 0) then some ⟨below, e⟩
    else some ⟨below + 1, e⟩

/-- The coarsest grid that has a number rounding to `b`, tried from `10 ^ e` downwards. -/
def Binary.search (b : Binary) : Nat → Int → Scaled
  | 0, e => ⟨0, e⟩
  | fuel + 1, e => (b.onGrid e).getD (b.search fuel (e - 1))

/-- The fewest digits that read back as the double, and of those the nearest. -/
def shortest (bits : UInt64) : Scaled :=
  let b := Binary.ofBits bits
  let top := ((Nat.log2 b.mantissa : Int) + b.exponent) * 30103 / 100000 + 3
  b.search 24 top

/-- How a shortest decimal is laid out: plainly while its point falls within these bounds, in
scientific form otherwise. -/
structure Layout where
  leastPoint : Int
  mostPoint : Int

def Scaled.scientific (ds : List Char) (e : Int) : List Char :=
  let exponent := 'e' :: (toString e).toList
  match ds with
  | [] => exponent
  | [d] => d :: exponent
  | d :: rest => d :: '.' :: rest ++ exponent

/-- The point stands after `ds.length + exponent` digits. -/
def Scaled.text (l : Layout) (d : Scaled) : List Char :=
  let ds := Nat.toDigits 10 d.digits
  let point := (ds.length : Int) + d.exponent
  if 0 ≤ d.exponent ∧ point ≤ l.mostPoint then
    ds ++ List.replicate d.exponent.toNat '0' ++ ['.', '0']
  else if 0 < point ∧ point ≤ l.mostPoint then
    ds.take point.toNat ++ '.' :: ds.drop point.toNat
  else if l.leastPoint < point ∧ point ≤ 0 then
    '0' :: '.' :: List.replicate (-point).toNat '0' ++ ds
  else Scaled.scientific ds (point - 1)

/-- The text of a double with its sign; zero keeps its sign too. -/
def doubleText (l : Layout) (bits : UInt64) : List Char :=
  let sign := if bits.toNat < Nat.pow 2 63 then [] else ['-']
  if bits.toNat % Nat.pow 2 63 = 0 then sign ++ ['0', '.', '0']
  else sign ++ (shortest bits).text l

end LanguageClient.Decimal
