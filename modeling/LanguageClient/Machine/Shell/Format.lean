import LanguageClient.Machine.Shell.Sum

namespace LanguageClient.Machine.Format

/-- The rules for what follows a backslash: for text that is written out, for the formats of an
interpreter, and for those of the program that writes formats. -/
inductive Dialect where
  | text
  | format
  | program
  deriving DecidableEq

def isOctal (c : Char) : Bool :=
  '0' ≤ c && c ≤ '7'

def octal (n : Nat) (cs : Raw) : Raw × Raw :=
  let digits := (cs.take n).takeWhile isOctal
  ([Char.ofNat (Nat.ofDigitChars 8 digits 0 % 256)], cs.drop digits.length)

def hexadecimal (cs : Raw) : Raw × Raw :=
  let digits := (cs.take 2).takeWhile fun c => (Text.hexValue? c).isSome
  if digits.isEmpty then (['\\', 'x'], cs)
  else
    let n := digits.foldl (fun n c => 16 * n + (Text.hexValue? c).getD 0) 0
    ([Char.ofNat n], cs.drop digits.length)

/-- What a backslash makes of the text behind it, and what follows; nothing if it ends all output. -/
def escape (d : Dialect) (cs : Raw) : Option (Raw × Raw) :=
  match cs with
  | [] => some (['\\'], [])
  | 'n' :: rest => some (['\n'], rest)
  | 't' :: rest => some (['\t'], rest)
  | 'r' :: rest => some (['\r'], rest)
  | 'a' :: rest => some (['\x07'], rest)
  | 'b' :: rest => some (['\x08'], rest)
  | 'f' :: rest => some (['\x0c'], rest)
  | 'v' :: rest => some (['\x0b'], rest)
  | 'e' :: rest => some (['\x1b'], rest)
  | '\\' :: rest => some (['\\'], rest)
  | c :: rest =>
    if d = .text then
      if c = 'c' then none
      else if c = '0' then some (octal 3 rest)
      else some (['\\', c], rest)
    else if isOctal c then some (octal 3 (c :: rest))
    else if d = .program && c == 'x' then some (hexadecimal rest)
    else if d = .program && c == '"' then some (['"'], rest)
    else if d = .program && c == 'c' then none
    else some (['\\', c], rest)

/-- The text with its escapes carried out. The flag says whether it came to its end. -/
def unescaped : Nat → Raw → Raw × Bool
  | 0, _ => ([], true)
  | _, [] => ([], true)
  | n + 1, '\\' :: rest =>
    match escape .text rest with
    | none => ([], false)
    | some (cs, rest) =>
      let (more, whole) := unescaped n rest
      (cs ++ more, whole)
  | n + 1, c :: rest =>
    let (more, whole) := unescaped n rest
    (c :: more, whole)

/-- How an argument is laid out: to the left, with zeros, with a sign, to a width, to a precision. A
width or precision may be an argument too. -/
structure Layout where
  left : Bool := false
  zeros : Bool := false
  plus : Bool := false
  space : Bool := false
  marked : Bool := false
  width : Option Nat := some 0
  precision : Option (Option Nat) := none

/-- A piece of a format: text, the place of an argument, or the end of all output. -/
inductive Directive where
  | text (cs : Raw)
  | argument (layout : Layout) (kind : Char)
  | finish
  | invalid

def flags (l : Layout) : Raw → Layout × Raw
  | '-' :: rest => flags { l with left := true } rest
  | '0' :: rest => flags { l with zeros := true } rest
  | '+' :: rest => flags { l with plus := true } rest
  | ' ' :: rest => flags { l with space := true } rest
  | '#' :: rest => flags { l with marked := true } rest
  | cs => (l, cs)

/-- A number in front, or nothing if it is to be an argument. -/
def size (cs : Raw) : Option Nat × Raw :=
  match cs with
  | '*' :: rest => (none, rest)
  | cs =>
    let digits := cs.takeWhile Text.isDigit
    (some (Nat.ofDigitChars 10 digits 0), cs.drop digits.length)

def kinds : List Char :=
  ['s', 'b', 'c', 'd', 'i', 'u', 'o', 'x', 'X']

def directive (cs : Raw) : Directive × Raw :=
  let (l, cs) := flags {} cs
  let (width, cs) := size cs
  let (precision, cs) := match cs with
    | '.' :: rest =>
      let (p, rest) := size rest
      (some p, rest)
    | cs => (none, cs)
  match cs with
  | [] => (.invalid, [])
  | k :: rest =>
    (if kinds.contains k then .argument { l with width, precision } k else .invalid, rest)

def directives (d : Dialect) : Nat → Raw → List Directive
  | 0, _ => []
  | _, [] => []
  | n + 1, '%' :: '%' :: rest => .text ['%'] :: directives d n rest
  | n + 1, '%' :: rest =>
    let (x, rest) := directive rest
    x :: directives d n rest
  | n + 1, '\\' :: rest =>
    match escape d rest with
    | none => [.finish]
    | some (cs, rest) => .text cs :: directives d n rest
  | n + 1, c :: rest => .text [c] :: directives d n rest

def pad (l : Layout) (width : Nat) (cs : Raw) : Raw :=
  let fill := List.replicate (width - cs.length)
  if l.left then cs ++ fill ' ' else fill ' ' ++ cs

def padNumber (l : Layout) (width : Nat) (precision : Option Nat) (mark digits : Raw) : Raw :=
  let digits := match precision with
    | some p => List.replicate (p - digits.length) '0' ++ digits
    | none =>
      if l.zeros && !l.left then
        List.replicate (width - (digits.length + mark.length)) '0' ++ digits
      else digits
  pad l width (mark ++ digits)

/-- The number that an argument gives, and whether all of it counts. A quote in front stands for the
character behind it. -/
def argumentInt (cs : Raw) : Int × Bool :=
  match cs with
  | [] => (0, true)
  | '"' :: c :: _ => (c.toNat, true)
  | '\x27' :: c :: _ => (c.toNat, true)
  | cs =>
    match Sum.signed? cs with
    | some (n, rest) => (n, rest.isEmpty)
    | none => (0, false)

/-- One argument laid out: the text, whether all was well, and whether output goes on. -/
def laidOut (l : Layout) (width : Nat) (precision : Option Nat) (kind : Char) (cs : Raw) :
    Raw × Bool × Bool :=
  let (n, whole) := argumentInt cs
  let plain := fun (digits : Raw) (mark : Raw) =>
    (padNumber l width precision (if l.marked then mark else []) digits, whole, true)
  let word := (UInt64.ofInt n).toNat
  let sign := if n < 0 then ['-'] else if l.plus then ['+'] else if l.space then [' '] else []
  match kind with
  | 's' => (pad l width (match precision with | some p => cs.take p | none => cs), true, true)
  | 'b' =>
    let (text, goesOn) := unescaped cs.length cs
    (pad l width text, true, goesOn)
  | 'c' => (pad l width (if cs.isEmpty then ['\x00'] else cs.take 1), true, true)
  | 'u' => plain (Nat.toDigits 10 word) []
  | 'o' => plain (Nat.toDigits 8 word) ['0']
  | 'x' => plain (Nat.toDigits 16 word) ['0', 'x']
  | 'X' => plain ((Nat.toDigits 16 word).map Char.toUpper) ['0', 'X']
  | _ => (padNumber l width precision sign (Nat.toDigits 10 n.natAbs), whole, true)

/-- What a use of a format comes to: the text, the arguments that are left, whether all was well, and
whether output goes on. -/
structure Filled where
  text : Raw
  left : List Raw
  well : Bool := true
  goesOn : Bool := true

/-- Takes a width or precision, from the arguments if it is one. -/
def sizeFrom (n : Option Nat) (args : List Raw) : Nat × List Raw :=
  match n with
  | some n => (n, args)
  | none => ((argumentInt (args.headD [])).1.toNat, args.tail)

def formatOnce : List Directive → List Raw → Filled
  | [], args => ⟨[], args, true, true⟩
  | .text cs :: ds, args =>
    let r := formatOnce ds args
    { r with text := cs ++ r.text }
  | .finish :: _, args => ⟨[], args, true, false⟩
  | .invalid :: _, args => ⟨[], args, false, false⟩
  | .argument l k :: ds, args =>
    let (width, args) := sizeFrom l.width args
    let (precision, args) := match l.precision with
      | some p =>
        let (p, args) := sizeFrom p args
        (some p, args)
      | none => (none, args)
    let (cs, well, goesOn) := laidOut l width precision k (args.headD [])
    if goesOn then
      let r := formatOnce ds args.tail
      { r with text := cs ++ r.text, well := well && r.well }
    else ⟨cs, args.tail, well, false⟩

/-- A format is used again as long as it takes arguments and there are any. -/
def formatAll : Nat → List Directive → List Raw → Filled
  | 0, _, args => ⟨[], args, true, true⟩
  | n + 1, ds, args =>
    let r := formatOnce ds args
    if !r.goesOn || r.left.isEmpty || r.left.length == args.length then r
    else
      let more := formatAll n ds r.left
      { more with text := r.text ++ more.text, well := r.well && more.well }

end LanguageClient.Machine.Format
