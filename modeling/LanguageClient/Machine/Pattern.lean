namespace LanguageClient.Machine

/-- The bytes that programs exchange, each as the character with its number. -/
abbrev Raw := List Char

/-- One piece of a wildcard pattern: a character, any character, any stretch of characters, or one
character of a set given by ranges. -/
inductive Wildcard where
  | one (c : Char)
  | any
  | many
  | oneOf (negated : Bool) (ranges : List (Char × Char))
  deriving DecidableEq, Repr

namespace Wildcard

def fits (w : Wildcard) (c : Char) : Bool :=
  match w with
  | .one d => c == d
  | .any => true
  | .many => false
  | .oneOf negated ranges => (ranges.any fun (low, high) => low ≤ c && c ≤ high) != negated

def tails : Raw → List Raw
  | [] => [[]]
  | c :: cs => (c :: cs) :: tails cs

/-- What can be left of a text behind a front part that fits the pattern. -/
def rests : List Wildcard → Raw → List Raw
  | [], cs => [cs]
  | .many :: ws, cs => (tails cs).flatMap (rests ws)
  | w :: ws, cs =>
    match cs with
    | [] => []
    | c :: cs => if w.fits c then rests ws cs else []

def fitsAll (ws : List Wildcard) (cs : Raw) : Bool :=
  (rests ws cs).any List.isEmpty

def longer (a b : Raw) : Bool :=
  b.length < a.length

/-- Takes a fitting front part away: the longest or the shortest one. Without any the text stays. -/
def cutFront (longest : Bool) (ws : List Wildcard) (cs : Raw) : Raw :=
  match rests ws cs with
  | [] => cs
  | r :: rs => rs.foldl (fun best r => if longer best r == longest then r else best) r

def cutBack (longest : Bool) (ws : List Wildcard) (cs : Raw) : Raw :=
  (cutFront longest ws.reverse cs.reverse).reverse

/-- The ranges of a set, up to its closing bracket, with what follows. A quoted character stands for
itself. -/
def ranges : List (Char × Bool) → Option (List (Char × Char) × List (Char × Bool))
  | [] => none
  | (']', false) :: rest => some ([], rest)
  | (a, _) :: ('-', false) :: (b, q) :: rest =>
    if b = ']' ∧ q = false then some ([(a, a), ('-', '-')], rest)
    else (ranges rest).map fun (rs, r) => ((a, b) :: rs, r)
  | (a, _) :: rest => (ranges rest).map fun (rs, r) => ((a, a) :: rs, r)

/-- A set that begins behind its opening bracket. A closing bracket at its front belongs to it. -/
def set? (cs : List (Char × Bool)) : Option (Wildcard × List (Char × Bool)) :=
  let (negated, cs) := match cs with
    | ('!', false) :: rest => (true, rest)
    | ('^', false) :: rest => (true, rest)
    | cs => (false, cs)
  match cs with
  | (']', _) :: rest => (ranges rest).map fun (rs, r) => (.oneOf negated ((']', ']') :: rs), r)
  | cs => (ranges cs).map fun (rs, r) => (.oneOf negated rs, r)

/-- Reads a pattern from characters that are quoted or not. Quoted ones stand for themselves. -/
def ofMarked : Nat → List (Char × Bool) → List Wildcard
  | 0, _ => []
  | _, [] => []
  | n + 1, ('*', false) :: rest => .many :: ofMarked n rest
  | n + 1, ('?', false) :: rest => .any :: ofMarked n rest
  | n + 1, ('[', false) :: rest =>
    match set? rest with
    | some (w, rest) => w :: ofMarked n rest
    | none => .one '[' :: ofMarked n rest
  | n + 1, (c, _) :: rest => .one c :: ofMarked n rest

def ofCharacters (cs : List (Char × Bool)) : List Wildcard :=
  ofMarked cs.length cs

end Wildcard
end LanguageClient.Machine
