import LanguageClient.Text.Utf8

namespace LanguageClient.Text

/-- Characters that show nothing by themselves: controls, formats, spaces other than the plain one,
and code points without a character. -/
def isHidden (c : Char) : Bool :=
  let n := c.toNat
  n < 0x20 || (0x7F ≤ n && n ≤ 0xA0) || n == 0xAD || (0x600 ≤ n && n ≤ 0x605) || n == 0x61C ||
    n == 0x6DD || n == 0x70F || n == 0x1680 || n == 0x180E || (0x2000 ≤ n && n ≤ 0x200F) ||
    (0x2028 ≤ n && n ≤ 0x202F) || (0x205F ≤ n && n ≤ 0x206F) || n == 0x3000 ||
    (0xE000 ≤ n && n ≤ 0xF8FF) || n == 0xFEFF || (0xFFF0 ≤ n && n ≤ 0xFFFB) ||
    n % 0x10000 ≥ 0xFFFE || (0xFDD0 ≤ n && n ≤ 0xFDEF) || (0xE0000 ≤ n && n ≤ 0xE0FFF) ||
    0xF0000 ≤ n

def isMark (c : Char) : Bool :=
  let n := c.toNat
  (0x300 ≤ n && n ≤ 0x36F) || (0x483 ≤ n && n ≤ 0x489) || (0x591 ≤ n && n ≤ 0x5BD) ||
    (0x610 ≤ n && n ≤ 0x61A) || (0x64B ≤ n && n ≤ 0x65F) || (0x1AB0 ≤ n && n ≤ 0x1ACE) ||
    (0x1DC0 ≤ n && n ≤ 0x1DFF) || (0x20D0 ≤ n && n ≤ 0x20F0) || (0x302A ≤ n && n ≤ 0x302F) ||
    n == 0x3099 || n == 0x309A || (0xFE00 ≤ n && n ≤ 0xFE0F) || (0xFE20 ≤ n && n ≤ 0xFE2F)

def codePoint (c : Char) : List Char :=
  ['\\', 'u', '{'] ++ Nat.toDigits 16 c.toNat ++ ['}']

/-- A character between double quotes, for people to read. -/
def shown (escapeSingle : Bool) (c : Char) : List Char :=
  match c with
  | '\x00' => ['\\', '0']
  | '\t' => ['\\', 't']
  | '\r' => ['\\', 'r']
  | '\n' => ['\\', 'n']
  | '"' => ['\\', '"']
  | '\\' => ['\\', '\\']
  | '\x27' => if escapeSingle then ['\\', '\x27'] else ['\x27']
  | c => if c != ' ' && (isHidden c || isMark c) then codePoint c else [c]

def quoted (s : String) : String :=
  String.ofList ('"' :: s.toList.flatMap (shown false) ++ ['"'])

def hexByte (b : UInt8) : List Char :=
  let digit (n : Nat) : Char := (Nat.digitChar n).toUpper
  ['\\', 'x', digit (b.toNat / 16), digit (b.toNat % 16)]

/-- Bytes between double quotes; those that are not text show as numbers. -/
def quotedPieces : List Utf8.Piece → Bytes → List Char
  | [], _ => []
  | p :: ps, bs =>
    (match p with
      | .char c => shown true c
      | p => (bs.take p.size).flatMap hexByte) ++ quotedPieces ps (bs.drop p.size)

def quotedBytes (bs : Bytes) : String :=
  String.ofList ('"' :: quotedPieces (Utf8.scan bs) bs ++ ['"'])

end LanguageClient.Text
