import LanguageClient.Machine.Script.Reader
import LanguageClient.Machine.Shell

namespace LanguageClient.Machine

namespace Sum

inductive Term where
  | number (n : Int)
  | name (cs : Raw)
  | prefixed (sign : Char) (a : Term)
  | joined (sign : Raw) (a b : Term)
  | choice (condition a b : Term)
  /-- Sets a name to the value, or to what `sign` makes of the old one and the value. -/
  | assigned (name : Raw) (sign : Raw) (a : Term)

inductive Token where
  | number (n : Int)
  | name (cs : Raw)
  | sign (cs : Raw)
  deriving DecidableEq

/-- A number in front, with the text behind it: after `0x` hexadecimal, after another zero octal. -/
def number? (cs : Raw) : Option (Nat × Raw) :=
  let upTo := fun (base : Nat) (fits : Char → Bool) (cs : Raw) =>
    let digits := cs.takeWhile fits
    if digits.isEmpty then none
    else some (digits.foldl (fun n c => base * n + (Text.hexValue? c).getD 0) 0,
      cs.drop digits.length)
  let isHex := fun c => (Text.hexValue? c).isSome
  let isOctal := fun c => '0' ≤ c && c ≤ '7'
  match cs with
  | '0' :: 'x' :: rest => upTo 16 isHex rest <|> some (0, 'x' :: rest)
  | '0' :: 'X' :: rest => upTo 16 isHex rest <|> some (0, 'X' :: rest)
  | '0' :: rest => upTo 8 isOctal ('0' :: rest)
  | cs => upTo 10 Text.isDigit cs

def isSpace (c : Char) : Bool :=
  [' ', '\t', '\n', '\r', '\x0b', '\x0c'].contains c

def signed? (cs : Raw) : Option (Int × Raw) :=
  match cs.dropWhile isSpace with
  | '-' :: rest => (number? rest).map fun (n, rest) => (-(n : Int), rest)
  | '+' :: rest => (number? rest).map fun (n, rest) => ((n : Int), rest)
  | cs => (number? cs).map fun (n, rest) => ((n : Int), rest)

def value? (cs : Raw) : Option Int :=
  match signed? cs with
  | some (n, rest) => if (rest.dropWhile isSpace).isEmpty then some n else none
  | none => none

def signs : List Raw :=
  ["<<=", ">>=", "<<", ">>", "==", "!=", "<=", ">=", "&&", "||", "+=", "-=", "*=", "/=", "%=", "&=",
    "|=", "\x5e=", "+", "-", "*", "/", "%", "<", ">", "=", "!", "~", "&", "|", "\x5e", "?", ":", "(",
    ")"].map String.toList

def tokens? : Nat → Raw → Option (List Token)
  | 0, _ => none
  | _, [] => some []
  | n + 1, c :: rest =>
    if isSpace c then tokens? n rest
    else if Text.isDigit c then do
      let (k, rest) ← number? (c :: rest)
      return .number k :: (← tokens? n rest)
    else if Script.isNameStart c then do
      let behind := (c :: rest).dropWhile Script.isNameChar
      return .name ((c :: rest).takeWhile Script.isNameChar) :: (← tokens? n behind)
    else do
      let sign ← signs.find? (·.isPrefixOf (c :: rest))
      return .sign sign :: (← tokens? n ((c :: rest).drop sign.length))

def strength? (sign : Raw) : Option Nat :=
  match String.ofList sign with
  | "||" => some 1
  | "&&" => some 2
  | "|" => some 3
  | "\x5e" => some 4
  | "&" => some 5
  | "==" | "!=" => some 6
  | "<" | ">" | "<=" | ">=" => some 7
  | "<<" | ">>" => some 8
  | "+" | "-" => some 9
  | "*" | "/" | "%" => some 10
  | _ => none

def assigning? (sign : Raw) : Option Raw :=
  if sign.getLast? = some '=' && (sign.length == 1 || (strength? sign.dropLast).isSome) &&
      (strength? sign).isNone then some sign.dropLast
  else none

mutual

def term? : Nat → List Token → Option (Term × List Token)
  | 0, _ => none
  | n + 1, ts =>
    let assignment := match ts with
      | .name x :: .sign s :: rest => (assigning? s).map fun s => (x, s, rest)
      | _ => none
    match assignment with
    | some (x, s, rest) => do
      let (a, rest) ← term? n rest
      return (.assigned x s a, rest)
    | none => do
      let (c, rest) ← upFrom? n 0 ts
      match rest with
      | .sign ['?'] :: rest =>
        let (a, rest) ← term? n rest
        match rest with
        | .sign [':'] :: rest =>
          let (b, rest) ← term? n rest
          return (.choice c a b, rest)
        | _ => none
      | rest => return (c, rest)

def single? : Nat → List Token → Option (Term × List Token)
  | 0, _ => none
  | _, .number k :: ts => some (.number k, ts)
  | _, .name x :: ts => some (.name x, ts)
  | n + 1, .sign ['('] :: ts => do
    let (a, ts) ← term? n ts
    match ts with
    | .sign [')'] :: ts => return (a, ts)
    | _ => none
  | n + 1, .sign [c] :: ts =>
    if ['-', '+', '!', '~'].contains c then do
      let (a, ts) ← single? n ts
      return (.prefixed c a, ts)
    else none
  | _, _ => none

def upFrom? : Nat → Nat → List Token → Option (Term × List Token)
  | 0, _, _ => none
  | n + 1, least, ts => do
    let (a, ts) ← single? n ts
    onward? n least a ts

def onward? : Nat → Nat → Term → List Token → Option (Term × List Token)
  | 0, _, _, _ => none
  | n + 1, least, a, ts =>
    match ts with
    | .sign s :: rest =>
      match strength? s with
      | some k =>
        if k < least then some (a, ts)
        else do
          let (b, rest) ← upFrom? n (k + 1) rest
          onward? n least (.joined s a b) rest
      | none => some (a, ts)
    | ts => some (a, ts)

end

def ofRaw? (cs : Raw) : Option Term := do
  let ts ← tokens? (cs.length + 1) cs
  match term? (8 * ts.length + 8) ts with
  | some (t, []) => some t
  | _ => none

/-- Sums are of 64 bits and come round at both ends. -/
def wrap (n : Int) : Int :=
  (Int64.ofInt n).toInt

def truth (b : Bool) : Int :=
  if b then 1 else 0

/-- What a sign makes of two numbers; nothing divides by zero. -/
def join? (sign : Raw) (a b : Int) : Option Int :=
  let x := Int64.ofInt a
  let y := Int64.ofInt b
  match String.ofList sign with
  | "" => some b
  | "|" => some (x ||| y).toInt
  | "\x5e" => some (x ^^^ y).toInt
  | "&" => some (x &&& y).toInt
  | "==" => some (truth (a == b))
  | "!=" => some (truth (a != b))
  | "<" => some (truth (a < b))
  | ">" => some (truth (b < a))
  | "<=" => some (truth (a ≤ b))
  | ">=" => some (truth (b ≤ a))
  | "<<" => some (x <<< y).toInt
  | ">>" => some (x >>> y).toInt
  | "+" => some (wrap (a + b))
  | "-" => some (wrap (a - b))
  | "*" => some (wrap (a * b))
  | "/" => if b = 0 then none else some (wrap (a.tdiv b))
  | "%" => if b = 0 then none else some (wrap (a.tmod b))
  | _ => none

def prefixed (sign : Char) (a : Int) : Int :=
  match sign with
  | '-' => wrap (-a)
  | '!' => truth (a == 0)
  | '~' => -a - 1
  | _ => a

/-- The number that a name stands for; one without a value stands for zero. -/
def lookup? (s : Shell) (name : Raw) : Option Int :=
  match s.value? name with
  | none | some [] => some 0
  | some cs => value? cs

def digits (n : Int) : Raw :=
  (toString n).toList

/-- The value of a term. Assignments last. -/
def eval : Term → StateT Shell Option Int
  | .number n => return wrap n
  | .name x => do
    match lookup? (← get) x with
    | some n => return n
    | none => failure
  | .prefixed sign a => return prefixed sign (← eval a)
  | .joined sign a b => do
    let x ← eval a
    if sign = ['&', '&'] then
      if x = 0 then return 0 else return truth ((← eval b) != 0)
    else if sign = ['|', '|'] then
      if x ≠ 0 then return 1 else return truth ((← eval b) != 0)
    else
      match join? sign x (← eval b) with
      | some n => return n
      | none => failure
  | .choice c a b => do
    if (← eval c) ≠ 0 then eval a else eval b
  | .assigned x sign a => do
    let n ← eval a
    match (lookup? (← get) x).bind fun old => join? sign old n with
    | some n =>
      modify (·.setValue x (digits n))
      return n
    | none => failure

end Sum
end LanguageClient.Machine
