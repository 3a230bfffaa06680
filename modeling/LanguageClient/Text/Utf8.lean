namespace LanguageClient

abbrev Bytes := List UInt8

namespace Utf8

def encodeChar (c : Char) : Bytes :=
  let n := c.toNat
  if n < 0x80 then [n.toUInt8]
  else if n < 0x800 then [(0xC0 + n / 64).toUInt8, (0x80 + n % 64).toUInt8]
  else if n < 0x10000 then
    [(0xE0 + n / 4096).toUInt8, (0x80 + n / 64 % 64).toUInt8, (0x80 + n % 64).toUInt8]
  else
    [(0xF0 + n / 262144).toUInt8, (0x80 + n / 4096 % 64).toUInt8,
      (0x80 + n / 64 % 64).toUInt8, (0x80 + n % 64).toUInt8]

def encode (cs : List Char) : Bytes :=
  cs.flatMap encodeChar

/-- A character of which only the first bytes were read. The next byte must lie between `low` and
`high`, which shuts out overlong forms, surrogates and numbers beyond the last character. -/
structure Begun where
  code : Nat
  seen : Nat
  owed : Nat
  low : UInt8
  high : UInt8

/-- What the first byte of a longer character promises. -/
def begin? (b : UInt8) : Option Begun :=
  let code := b.toNat
  if b < 0xC2 then none
  else if b < 0xE0 then some ⟨code - 0xC0, 1, 1, 0x80, 0xBF⟩
  else if b = 0xE0 then some ⟨0, 1, 2, 0xA0, 0xBF⟩
  else if b = 0xED then some ⟨0xD, 1, 2, 0x80, 0x9F⟩
  else if b < 0xF0 then some ⟨code - 0xE0, 1, 2, 0x80, 0xBF⟩
  else if b = 0xF0 then some ⟨0, 1, 3, 0x90, 0xBF⟩
  else if b < 0xF4 then some ⟨code - 0xF0, 1, 3, 0x80, 0xBF⟩
  else if b = 0xF4 then some ⟨4, 1, 3, 0x80, 0x8F⟩
  else none

/-- A stretch of a byte string: a character, or bytes that cannot be part of one. `cut` is a
character that the end of the string cuts short. -/
inductive Piece where
  | char (c : Char)
  | malformed (size : Nat)
  | cut (size : Nat)

def Piece.size : Piece → Nat
  | .char c => (encodeChar c).length
  | .malformed n => n
  | .cut n => n

/-- The pieces found so far, latest first. -/
structure Scan where
  pieces : List Piece := []
  begun : Option Begun := none

def Scan.start (s : Scan) (b : UInt8) : Scan :=
  if b < 0x80 then ⟨.char (Char.ofNat b.toNat) :: s.pieces, none⟩
  else match begin? b with
    | none => ⟨.malformed 1 :: s.pieces, none⟩
    | some c => ⟨s.pieces, some c⟩

def Scan.step (s : Scan) (b : UInt8) : Scan :=
  match s.begun with
  | none => s.start b
  | some c =>
    if c.low ≤ b ∧ b ≤ c.high then
      let code := c.code * 64 + (b.toNat - 0x80)
      if c.owed ≤ 1 then ⟨.char (Char.ofNat code) :: s.pieces, none⟩
      else ⟨s.pieces, some ⟨code, c.seen + 1, c.owed - 1, 0x80, 0xBF⟩⟩
    else Scan.start ⟨.malformed c.seen :: s.pieces, none⟩ b

def Scan.finish (s : Scan) : List Piece :=
  match s.begun with
  | none => s.pieces.reverse
  | some c => (.cut c.seen :: s.pieces).reverse

def scan (bs : Bytes) : List Piece :=
  (bs.foldl Scan.step {}).finish

/-- The first place where a byte string stops being text. -/
inductive Fault where
  | malformed (at_ size : Nat)
  | cut (at_ : Nat)
  deriving DecidableEq, Repr

def Fault.message : Fault → String
  | .malformed i n => s!"invalid utf-8 sequence of {n} bytes from index {i}"
  | .cut i => s!"incomplete utf-8 byte sequence from index {i}"

/-- The characters read so far are given latest first. -/
def collect (at_ : Nat) (chars : List Char) : List Piece → Except Fault (List Char)
  | [] => .ok chars.reverse
  | p@(.char c) :: rest => collect (at_ + p.size) (c :: chars) rest
  | .malformed n :: _ => .error (.malformed at_ n)
  | .cut _ :: _ => .error (.cut at_)

def decode (bs : Bytes) : Except Fault (List Char) :=
  collect 0 [] (scan bs)

def decode? (bs : Bytes) : Option (List Char) :=
  (decode bs).toOption

/-- Each stretch that is not text becomes one replacement character. -/
def lossy (bs : Bytes) : List Char :=
  (scan bs).map fun
    | .char c => c
    | _ => '\uFFFD'

end Utf8

def utf8 (s : String) : Bytes :=
  Utf8.encode s.toList

end LanguageClient
