import LanguageClient.Machine.Script
import LanguageClient.Text.Ascii

namespace LanguageClient.Machine.Script

def isNameStart (c : Char) : Bool :=
  c.isAlpha || c == '_'

def isNameChar (c : Char) : Bool :=
  isNameStart c || Text.isDigit c

def endsWord (c : Char) : Bool :=
  [' ', '\t', '\n', ';', '&', '|', '<', '>', '(', ')'].contains c

def singleQuote : Char := '\x27'

def backQuote : Char := '\x60'

def skipBlanks : Raw → Raw
  | ' ' :: rest => skipBlanks rest
  | '\t' :: rest => skipBlanks rest
  | '\\' :: '\n' :: rest => skipBlanks rest
  | '#' :: rest => rest.dropWhile (· != '\n')
  | cs => cs

def skipLines : Nat → Raw → Raw
  | 0, cs => cs
  | n + 1, cs =>
    match skipBlanks cs with
    | '\n' :: rest => skipLines n rest
    | cs => cs

def lines (cs : Raw) : Raw :=
  skipLines cs.length cs

def wordAhead (cs : Raw) : Raw :=
  cs.takeWhile fun c => !endsWord c

/-- Words that end what stands before them. -/
def closers : List Raw :=
  ["then", "else", "elif", "fi", "do", "done", "esac", "\x7d"].map String.toList

def atClose (cs : Raw) : Bool :=
  match cs with
  | [] => true
  | ')' :: _ => true
  | ';' :: ';' :: _ => true
  | cs => closers.contains (wordAhead cs)

def expect? (word : String) (cs : Raw) : Option Raw :=
  let cs := lines cs
  if wordAhead cs = word.toList then some (cs.drop word.length) else none

def consChar (quoted : Bool) (c : Char) : List Part → List Part
  | .text q cs :: parts =>
    if q = quoted then .text q (c :: cs) :: parts else .text quoted [c] :: .text q cs :: parts
  | parts => .text quoted [c] :: parts

/-- Where a word stands: by itself, between double quotes, in a text that a command is given, or in
the braces of a value. -/
inductive Place where
  | bare
  | quotes
  | here
  | braces (quoted : Bool)
  deriving DecidableEq

/-- Only the dollar sign, the back quote and the backslash have a meaning there. -/
def Place.isQuoted (p : Place) : Bool :=
  p = .quotes || p = .here || p = .braces true

def Place.isBraces : Place → Bool
  | braces _ => true
  | _ => false

def Place.escapes (p : Place) (c : Char) : Bool :=
  ['$', backQuote, '\\'].contains c || (c == '"' && p != .here) || (c == '\x7d' && p.isBraces)

def backQuoted? : Raw → Option (Raw × Raw)
  | [] => none
  | c :: rest =>
    if c = backQuote then some ([], rest)
    else if c = '\\' then
      match rest with
      | d :: rest' =>
        if [backQuote, '\\', '$'].contains d then
          (backQuoted? rest').map fun (cs, r) => (d :: cs, r)
        else (backQuoted? rest').map fun (cs, r) => ('\\' :: d :: cs, r)
      | [] => none
    else (backQuoted? rest).map fun (cs, r) => (c :: cs, r)

def summed? (depth : Nat) : Raw → Option (Raw × Raw)
  | [] => none
  | '(' :: rest => (summed? (depth + 1) rest).map fun (cs, r) => ('(' :: cs, r)
  | ')' :: rest =>
    match depth, rest with
    | 0, ')' :: rest => some ([], rest)
    | 0, _ => none
    | d + 1, rest => (summed? d rest).map fun (cs, r) => (')' :: cs, r)
  | c :: rest => (summed? depth rest).map fun (cs, r) => (c :: cs, r)

/-- The name of a value: a name, a number, or one of the special signs. -/
def valueName? (cs : Raw) : Option (Raw × Raw) :=
  match cs with
  | c :: rest =>
    if isNameStart c then some (cs.takeWhile isNameChar, cs.dropWhile isNameChar)
    else if Text.isDigit c || ['?', '#', '@', '*', '$', '!', '-'].contains c then some ([c], rest)
    else none
  | [] => none

def isStream (c : Char) : Bool :=
  Text.isDigit c

/-- A redirection in front: the stream, the sign, and what follows. -/
def redirectAhead? (cs : Raw) : Option (Option Nat × Raw × Raw) :=
  let (stream, cs) := match cs with
    | d :: c :: rest =>
      if isStream d && (c == '<' || c == '>') then (some (Text.digitValue d), c :: rest)
      else (none, cs)
    | cs => (none, cs)
  match cs with
  | '<' :: '<' :: '-' :: rest => some (stream, ['<', '<', '-'], rest)
  | '<' :: '<' :: rest => some (stream, ['<', '<'], rest)
  | '>' :: '>' :: rest => some (stream, ['>', '>'], rest)
  | '>' :: '&' :: rest => some (stream, ['>', '&'], rest)
  | '<' :: '&' :: rest => some (stream, ['<', '&'], rest)
  | '>' :: '|' :: rest => some (stream, ['>'], rest)
  | '>' :: rest => some (stream, ['>'], rest)
  | '<' :: rest => some (stream, ['<'], rest)
  | _ => none

def redirection (stream : Option Nat) (sign : Raw) (word : List Part) : Redirection :=
  match sign with
  | ['>', '&'] => .copy (stream.getD 1) word
  | ['<', '&'] => .copy (stream.getD 0) word
  | ['<'] => .input word
  | ['>', '>'] => .output (stream.getD 1) true word
  | _ => .output (stream.getD 1) false word

def plainText : List Part → Raw × Bool
  | [] => ([], false)
  | .text q cs :: parts =>
    let (more, quoted) := plainText parts
    (cs ++ more, q || quoted)
  | _ :: parts => plainText parts

/-- The lines up to the one that is `mark`, and what follows it; all lines if there is none. -/
def linesUpTo (noTabs : Bool) (mark : Raw) : Nat → Raw → Raw × Raw
  | 0, cs => ([], cs)
  | _, [] => ([], [])
  | n + 1, cs =>
    let line := cs.takeWhile (· != '\n')
    let rest := (cs.dropWhile (· != '\n')).drop 1
    let line := if noTabs then line.dropWhile (· == '\t') else line
    if line = mark then ([], rest)
    else
      let (more, rest) := linesUpTo noTabs mark n rest
      (line ++ '\n' :: more, rest)

/-- Takes the text that a command is given out of the script: it stands behind the line. -/
def hereText (noTabs : Bool) (mark : Raw) (cs : Raw) : Raw × Raw :=
  let line := cs.takeWhile (· != '\n')
  let (text, rest) := linesUpTo noTabs mark cs.length ((cs.dropWhile (· != '\n')).drop 1)
  (text, line ++ '\n' :: rest)

def assignment? (cs : Raw) : Option (Raw × Raw) :=
  match cs with
  | c :: _ =>
    if isNameStart c then
      match cs.dropWhile isNameChar with
      | '=' :: rest => some (cs.takeWhile isNameChar, rest)
      | _ => none
    else none
  | [] => none

def definition? (cs : Raw) : Option (Raw × Raw) :=
  match cs with
  | c :: _ =>
    if isNameStart c then
      match skipBlanks (cs.dropWhile isNameChar) with
      | '(' :: rest =>
        match skipBlanks rest with
        | ')' :: rest => some (cs.takeWhile isNameChar, rest)
        | _ => none
      | _ => none
    else none
  | [] => none

mutual

def parts? : Nat → Place → Raw → Option (List Part × Raw)
  | 0, _, _ => none
  | _ + 1, place, [] => if place = .bare || place = .here then some ([], []) else none
  | n + 1, place, c :: rest =>
    let quoted := place.isQuoted
    if place = .bare && endsWord c then some ([], c :: rest)
    else if place.isBraces && c == '\x7d' then some ([], rest)
    else if place = .quotes && c == '"' then some ([], rest)
    else if c = '$' then dollar? n place rest
    else if c = backQuote then do
      let (inner, rest) ← backQuoted? rest
      let (script, _) ← sequence? n inner
      let (ps, rest) ← parts? n place rest
      return (.output quoted script :: ps, rest)
    else if c = '\\' then
      match rest with
      | [] => (parts? n place []).map fun (ps, r) => (consChar quoted '\\' ps, r)
      | '\n' :: rest => parts? n place rest
      | d :: rest =>
        (parts? n place rest).map fun (ps, r) =>
          if quoted && !place.escapes d then (consChar true '\\' (consChar true d ps), r)
          else (consChar true d ps, r)
    else if !quoted && c == singleQuote then
      match rest.dropWhile (· != singleQuote) with
      | [] => none
      | _ :: behind =>
        (parts? n place behind).map fun (ps, r) =>
          (.text true (rest.takeWhile (· != singleQuote)) :: ps, r)
    else if place ≠ .here && c == '"' then do
      let (inner, rest) ← parts? n .quotes rest
      let (ps, rest) ← parts? n place rest
      return ((if inner.isEmpty then [.text true []] else inner) ++ ps, rest)
    else (parts? n place rest).map fun (ps, r) => (consChar quoted c ps, r)

def dollar? : Nat → Place → Raw → Option (List Part × Raw)
  | 0, _, _ => none
  | n + 1, place, cs => do
    let quoted := place.isQuoted
    match cs with
    | '(' :: '(' :: rest =>
      let (inner, rest) ← summed? 0 rest
      let (sum, _) ← parts? n .here inner
      let (ps, rest) ← parts? n place rest
      return (.sum quoted sum :: ps, rest)
    | '(' :: rest =>
      let (script, rest) ← sequence? n rest
      match lines rest with
      | ')' :: rest =>
        let (ps, rest) ← parts? n place rest
        return (.output quoted script :: ps, rest)
      | _ => none
    | '\x7b' :: rest =>
      let (value, rest) ← braced? n quoted rest
      let (ps, rest) ← parts? n place rest
      return (value :: ps, rest)
    | cs =>
      match valueName? cs with
      | some (name, rest) =>
        let (ps, rest) ← parts? n place rest
        return (.value quoted name .plain :: ps, rest)
      | none => (parts? n place cs).map fun (ps, r) => (consChar quoted '$' ps, r)

def braced? : Nat → Bool → Raw → Option (Part × Raw)
  | 0, _, _ => none
  | n + 1, quoted, cs => do
    let lengthOf := match cs with
      | '#' :: rest =>
        match valueName? rest with
        | some (name, '\x7d' :: rest) => some (name, rest)
        | _ => none
      | _ => none
    match lengthOf with
    | some (name, rest) => return (.value quoted name .length, rest)
    | none =>
      let (name, rest) ← valueName? cs
      let word := fun (use : List Part → Use) (cs : Raw) =>
        (parts? n (.braces quoted) cs).map fun (ps, r) => (Part.value quoted name (use ps), r)
      let pattern := fun (use : List Part → Use) (cs : Raw) =>
        (parts? n (.braces false) cs).map fun (ps, r) => (Part.value quoted name (use ps), r)
      match rest with
      | '\x7d' :: rest => return (.value quoted name .plain, rest)
      | '#' :: '#' :: rest => pattern (.cutFront true) rest
      | '#' :: rest => pattern (.cutFront false) rest
      | '%' :: '%' :: rest => pattern (.cutBack true) rest
      | '%' :: rest => pattern (.cutBack false) rest
      | ':' :: '-' :: rest => word (.orElse true) rest
      | '-' :: rest => word (.orElse false) rest
      | ':' :: '=' :: rest => word (.orAssign true) rest
      | '=' :: rest => word (.orAssign false) rest
      | ':' :: '+' :: rest => word (.andThen true) rest
      | '+' :: rest => word (.andThen false) rest
      | ':' :: '?' :: rest => word (fun _ => .orFail true) rest
      | '?' :: rest => word (fun _ => .orFail false) rest
      | _ => none

def sequence? : Nat → Raw → Option (Script × Raw)
  | 0, _ => none
  | n + 1, cs =>
    let cs := lines cs
    if atClose cs then some (.nothing, cs)
    else do
      let (first, cs) ← chain? n cs
      match skipBlanks cs with
      | ';' :: ';' :: rest => return (first, ';' :: ';' :: rest)
      | ';' :: rest | '\n' :: rest =>
        let (second, cs) ← sequence? n rest
        return (.sequence first second, cs)
      | '&' :: rest =>
        let (second, cs) ← sequence? n rest
        return (.beside first second, cs)
      | cs => return (first, cs)

def commands? : Nat → Raw → Option (Script × Raw)
  | 0, _ => none
  | n + 1, cs =>
    match sequence? n cs with
    | none | some (.nothing, _) => none
    | some r => some r

def chain? : Nat → Raw → Option (Script × Raw)
  | 0, _ => none
  | n + 1, cs => do
    let (first, cs) ← pipeline? n cs
    links? n first cs

def links? : Nat → Script → Raw → Option (Script × Raw)
  | 0, _, _ => none
  | n + 1, first, cs =>
    match skipBlanks cs with
    | '&' :: '&' :: rest => do
      let (second, cs) ← pipeline? n (lines rest)
      links? n (.both first second) cs
    | '|' :: '|' :: rest => do
      let (second, cs) ← pipeline? n (lines rest)
      links? n (.either first second) cs
    | cs => some (first, cs)

def pipeline? : Nat → Raw → Option (Script × Raw)
  | 0, _ => none
  | n + 1, cs => do
    let cs := skipBlanks cs
    if wordAhead cs = ['!'] then
      let (script, cs) ← pipeline? n (cs.drop 1)
      return (.negation script, cs)
    else
      let (first, cs) ← command? n cs
      pipes? n first cs

def pipes? : Nat → Script → Raw → Option (Script × Raw)
  | 0, _, _ => none
  | n + 1, first, cs =>
    match skipBlanks cs with
    | '|' :: '|' :: rest => some (first, '|' :: '|' :: rest)
    | '|' :: rest => do
      let (second, cs) ← command? n (lines rest)
      pipes? n (.pipe first second) cs
    | cs => some (first, cs)

def command? : Nat → Raw → Option (Script × Raw)
  | 0, _ => none
  | n + 1, cs => do
    let cs := skipBlanks cs
    match cs with
    | '(' :: rest =>
      let (script, rest) ← commands? n rest
      match lines rest with
      | ')' :: rest => redirected? n (.inside script) [] rest
      | _ => none
    | _ =>
      match String.ofList (wordAhead cs) with
      | "\x7b" =>
        let (script, rest) ← commands? n (cs.drop 1)
        redirected? n script [] (← expect? "\x7d" rest)
      | "while" =>
        let (script, rest) ← loop? n true (cs.drop 5)
        redirected? n script [] rest
      | "until" =>
        let (script, rest) ← loop? n false (cs.drop 5)
        redirected? n script [] rest
      | "if" =>
        let (script, rest) ← choice? n (cs.drop 2)
        redirected? n script [] rest
      | "case" =>
        let (subject, rest) ← parts? n .bare (skipBlanks (cs.drop 4))
        let (arms, rest) ← arms? n (← expect? "in" rest)
        redirected? n (.cases subject arms) [] rest
      | "for" =>
        let (script, rest) ← each? n (skipBlanks (cs.drop 3))
        redirected? n script [] rest
      | _ =>
        match definition? cs with
        | some (name, rest) =>
          let (body, rest) ← command? n (lines rest)
          return (.define name body, rest)
        | none => simple? n [] [] [] cs

def target? : Nat → Option Nat → Raw → Raw → Option (Redirection × Raw)
  | 0, _, _, _ => none
  | n + 1, stream, sign, cs => do
    let (word, rest) ← parts? n .bare (skipBlanks cs)
    if word.isEmpty then none
    else if ['<', '<'].isPrefixOf sign then
      let (mark, quoted) := plainText word
      let (text, rest) := hereText (sign.length == 3) mark rest
      if quoted then return (.here [.text true text], rest)
      else
        let (parts, _) ← parts? n .here text
        return (.here parts, rest)
    else return (redirection stream sign word, rest)

/-- Reads the redirections behind a command. Those read before are given latest first. -/
def redirected? : Nat → Script → List Redirection → Raw → Option (Script × Raw)
  | 0, _, _, _ => none
  | n + 1, script, before, cs =>
    match redirectAhead? (skipBlanks cs) with
    | some (stream, sign, rest) => do
      let (r, rest) ← target? n stream sign rest
      redirected? n script (r :: before) rest
    | none =>
      some (if before.isEmpty then script else .redirected script before.reverse, cs)

def loop? : Nat → Bool → Raw → Option (Script × Raw)
  | 0, _, _ => none
  | n + 1, whileTrue, cs => do
    let (condition, cs) ← commands? n cs
    let (body, cs) ← commands? n (← expect? "do" cs)
    return (.loop whileTrue condition body, ← expect? "done" cs)

def choice? : Nat → Raw → Option (Script × Raw)
  | 0, _ => none
  | n + 1, cs => do
    let (condition, cs) ← commands? n cs
    let (first, cs) ← commands? n (← expect? "then" cs)
    match expect? "elif" cs, expect? "else" cs with
    | some cs, _ =>
      let (second, cs) ← choice? n cs
      return (.choice condition first second, cs)
    | none, some cs =>
      let (second, cs) ← commands? n cs
      return (.choice condition first second, ← expect? "fi" cs)
    | none, none => return (.choice condition first .nothing, ← expect? "fi" cs)

def each? : Nat → Raw → Option (Script × Raw)
  | 0, _ => none
  | n + 1, cs => do
    let name := cs.takeWhile isNameChar
    if name.isEmpty then none
    else
      let cs := cs.dropWhile isNameChar
      let (words, cs) ← match expect? "in" cs with
        | some cs => (words? n [] cs).map fun (ws, cs) => (some ws, cs)
        | none => some (none, cs)
      let cs := match skipBlanks cs with
        | ';' :: rest => rest
        | cs => cs
      let (body, cs) ← commands? n (← expect? "do" cs)
      return (.each name words body, ← expect? "done" cs)

/-- Reads the words up to the end of the command. Those read before are given latest first. -/
def words? : Nat → List (List Part) → Raw → Option (List (List Part) × Raw)
  | 0, _, _ => none
  | n + 1, before, cs =>
    match skipBlanks cs with
    | [] => some (before.reverse, [])
    | c :: cs =>
      if endsWord c then some (before.reverse, c :: cs)
      else do
        let (word, cs) ← parts? n .bare (c :: cs)
        words? n (word :: before) cs

def arms? : Nat → Raw → Option (List (List (List Part) × Script) × Raw)
  | 0, _ => none
  | n + 1, cs =>
    let cs := lines cs
    if wordAhead cs = "esac".toList then some ([], cs.drop 4)
    else do
      let cs := match cs with
        | '(' :: rest => rest
        | cs => cs
      let (patterns, cs) ← patterns? n cs
      let (body, cs) ← sequence? n cs
      match lines cs with
      | ';' :: ';' :: rest =>
        let (arms, cs) ← arms? n rest
        return ((patterns, body) :: arms, cs)
      | cs => return ([(patterns, body)], ← expect? "esac" cs)

def patterns? : Nat → Raw → Option (List (List Part) × Raw)
  | 0, _ => none
  | n + 1, cs => do
    let (pattern, cs) ← parts? n .bare (skipBlanks cs)
    match skipBlanks cs with
    | '|' :: rest =>
      let (others, cs) ← patterns? n rest
      return (pattern :: others, cs)
    | ')' :: rest => return ([pattern], rest)
    | _ => none

/-- Reads assignments, words and redirections. Those read before are given latest first. -/
def simple? : Nat → List (Raw × List Part) → List (List Part) → List Redirection → Raw →
    Option (Script × Raw)
  | 0, _, _, _, _ => none
  | n + 1, assignments, words, redirections, cs =>
    let cs := skipBlanks cs
    match redirectAhead? cs with
    | some (stream, sign, rest) => do
      let (r, rest) ← target? n stream sign rest
      simple? n assignments words (r :: redirections) rest
    | none =>
      let read := if assignments.isEmpty && words.isEmpty && redirections.isEmpty then none
        else some (Script.simple assignments.reverse words.reverse redirections.reverse)
      match cs with
      | [] => read.map (·, [])
      | c :: rest =>
        if endsWord c then read.map (·, c :: rest)
        else
          match if words.isEmpty then assignment? cs else none with
          | some (name, rest) => do
            let (value, rest) ← parts? n .bare rest
            simple? n ((name, value) :: assignments) words redirections rest
          | none => do
            let (word, rest) ← parts? n .bare cs
            simple? n assignments (word :: words) redirections rest

end

def lineFrom? (fuel : Nat) : Nat → Option Script → Raw → Option (Script × Raw)
  | 0, _, _ => none
  | n + 1, before, cs => do
    let (s, cs) ← if atClose (skipBlanks cs) then none else chain? fuel cs
    let joined := fun (s : Script) =>
      match before with
      | some b => Script.sequence b s
      | none => s
    let onward := fun (s : Script) (rest : Raw) =>
      match skipBlanks rest with
      | [] => some (joined s, [])
      | '\n' :: rest => some (joined s, rest)
      | rest => lineFrom? fuel n (some (joined s)) rest
    match skipBlanks cs with
    | ';' :: ';' :: _ => none
    | ';' :: rest => onward s rest
    | '&' :: rest => onward (.beside s .nothing) rest
    | '\n' :: rest => some (joined s, rest)
    | [] => some (joined s, [])
    | _ => none

/-- The first line of a script, read with all that belongs to its commands, and what follows. A text
without commands has none. -/
def line? (cs : Raw) : Option (Script × Raw) :=
  let cs := lines cs
  if cs.isEmpty then some (.nothing, []) else lineFrom? (20 * cs.length + 100) cs.length none cs

end LanguageClient.Machine.Script
