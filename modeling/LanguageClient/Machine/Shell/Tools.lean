import LanguageClient.Machine.Shell.Format

namespace LanguageClient.Machine.Tools

def shown (cs : Raw) : String :=
  String.ofList (Utf8.lossy (Raw.toBytes cs))

def int? (cs : Raw) : Option Int :=
  let digits := fun (ds : Raw) =>
    if ds.isEmpty || !ds.all Text.isDigit then none else some (Nat.ofDigitChars 10 ds 0)
  match cs with
  | '-' :: rest => (digits rest).map fun n => -(n : Int)
  | '+' :: rest => (digits rest).map Int.ofNat
  | cs => (digits cs).map Int.ofNat

def nat? (cs : Raw) : Option Nat :=
  (int? cs).bind fun n => if 0 ≤ n then some n.toNat else none

def printf (d : Format.Dialect) (args : List Raw) : Act Unit := do
  match if args.head? = some ['-', '-'] then args.tail else args with
  | [] => Act.fail 2 "printf: usage: printf format [arg ...]"
  | format :: args =>
    let r := Format.formatAll (args.length + 1) (Format.directives d format.length format) args
    Act.write r.text
    if !r.well then Act.setStatus (if r.goesOn then 1 else 2)

def joined (words : List Raw) : Raw :=
  (words.intersperse [' ']).flatten

def echo (args : List Raw) : Act Unit :=
  let (newline, args) := match args with
    | ['-', 'n'] :: rest => (false, rest)
    | args => (true, args)
  let text := joined args
  let (cs, whole) := Format.unescaped text.length text
  Act.write (if newline && whole then cs ++ ['\n'] else cs)

/-- The program of that name carries escapes out only if asked to. -/
def echoProgram (args : List Raw) : Act Unit :=
  let isOption := fun (a : Raw) =>
    a.head? == some '-' && 1 < a.length && (a.drop 1).all fun c => ['n', 'e', 'E'].contains c
  let options := (args.takeWhile isOption).flatten
  let text := joined (args.dropWhile isOption)
  let (cs, whole) :=
    if options.contains 'e' then Format.unescaped text.length text else (text, true)
  Act.write (if whole && !options.contains 'n' then cs ++ ['\n'] else cs)

def basename (args : List Raw) : Act Unit :=
  match args with
  | [] => Act.fail 1 "basename: missing operand"
  | a :: endings =>
    let path := (a.reverse.dropWhile (· == '/')).reverse
    let name := (path.reverse.takeWhile (· != '/')).reverse
    let ending := endings.headD []
    let name := if ending.isSuffixOf name && ending != name then name.take (name.length - ending.length)
      else name
    Act.write ((if name.isEmpty && !a.isEmpty then ['/'] else name) ++ ['\n'])

def dirname (args : List Raw) : Act Unit :=
  match args with
  | [] => Act.fail 1 "dirname: missing operand"
  | a :: _ =>
    let path := a.reverse.dropWhile (· == '/')
    let front := ((path.dropWhile (· != '/')).dropWhile (· == '/')).reverse
    Act.write ((if !front.isEmpty then front else if a.head? = some '/' then ['/'] else ['.']) ++ ['\n'])

def seq (args : List Raw) : Act Unit :=
  let numbers := match args.mapM int? with
    | some [last] => some (1, 1, last)
    | some [first, last] => some (first, 1, last)
    | some [first, step, last] => if step = 0 then none else some (first, step, last)
    | _ => none
  match numbers with
  | some (first, step, last) =>
    let count := if (last - first) * step < 0 then 0 else ((last - first) / step).toNat + 1
    Act.write ((List.range count).flatMap fun (i : Nat) => Sum.digits (first + i * step) ++ ['\n'])
  | none => Act.fail 1 "seq: missing operand"

/-- Writes what the input holds so far, even when more is to come. -/
def copyInput : Act Unit := do
  let s ← get
  set { s with input := [] }
  Act.write s.input
  if !s.ended then throw .waiting

def complaint (tool : String) (file : Raw) (e : SystemError) : Act Unit :=
  Act.fail 1 s!"{tool}: {shown file}: {e.message}"

def cat (args : List Raw) : Act Unit := do
  let args := args.filter fun a => a != "-u".toList && a != "--".toList
  Act.succeed true
  if args.isEmpty then copyInput
  else
    let mut well := true
    for a in args do
      if a = ['-'] then copyInput
      else match ← Act.content? a with
        | .ok cs => Act.write cs
        | .error e =>
          complaint "cat" a e
          well := false
    if !well then Act.succeed false

def tee (args : List Raw) : Act Unit := do
  let behind := args.contains ['-', 'a']
  let files := args.filter fun a => a.head? != some '-'
  let cs ← Act.takeAll
  Act.write cs
  files.forM fun a => do
    let s ← get
    if a != "/dev/null".toList then
      let old := if behind then (s.files.read (s.pathOf a)).toOption.getD [] else []
      match s.files.write (s.pathOf a) (old ++ Raw.toBytes cs) with
      | .ok files => set { s with files }
      | .error e => complaint "tee" a e

def frontLines : Nat → Raw → Raw × Raw
  | 0, cs => ([], cs)
  | n + 1, cs =>
    match cs.dropWhile (· != '\n') with
    | [] => (cs, [])
    | _ :: rest =>
      let (more, rest) := frontLines n rest
      (cs.takeWhile (· != '\n') ++ '\n' :: more, rest)

inductive Amount where
  | bytes (n : Nat)
  | lines (n : Nat)
  /-- Everything behind the first so many bytes or lines. -/
  | behindBytes (n : Nat)
  | behindLines (n : Nat)

def bytesOf? (cs : Raw) : Option Amount :=
  match cs with
  | '+' :: n => (nat? n).map fun n => .behindBytes (n - 1)
  | n => (nat? n).map .bytes

def linesOf? (cs : Raw) : Option Amount :=
  match cs with
  | '+' :: n => (nat? n).map fun n => .behindLines (n - 1)
  | n => (nat? n).map .lines

def amount? : List Raw → Option (Amount × List Raw)
  | ['-', 'c'] :: n :: rest => (bytesOf? n).map (·, rest)
  | ['-', 'n'] :: n :: rest => (linesOf? n).map (·, rest)
  | ('-' :: 'c' :: n) :: rest => (bytesOf? n).map (·, rest)
  | ('-' :: 'n' :: n) :: rest => (linesOf? n).map (·, rest)
  | ('-' :: c :: n) :: rest =>
    if Text.isDigit c then (linesOf? (c :: n)).map (·, rest) else none
  | rest => some (.lines 10, rest)

def contentOf (files : List Raw) : Act (Except SystemError Raw) :=
  Act.content? (files.headD ['-'])

/-- Programs that look for the end of a line take their input in blocks of this size. -/
def blockSize : Nat := 8192

def takeLines (count : Nat) : Act Raw := do
  let s ← get
  let (cs, _) := frontLines count s.input
  if count ≤ cs.count '\n' then
    let blocks := (cs.length + blockSize - 1) / blockSize
    set { s with input := s.input.drop (blocks * blockSize) }
    return cs
  else Act.takeAll

def head (args : List Raw) : Act Unit := do
  match amount? args with
  | some (.bytes n, []) => Act.write (← Act.take n)
  | some (.lines n, []) => Act.write (← takeLines n)
  | some (a, files) =>
    match ← contentOf files with
    | .error e => complaint "head" (files.headD []) e
    | .ok cs =>
      Act.write (match a with
        | .bytes n | .behindBytes n => cs.take n
        | .lines n | .behindLines n => (frontLines n cs).1)
  | none => Act.fail 1 "head: invalid number"

def lineCount (cs : Raw) : Nat :=
  cs.count '\n'

def tail (args : List Raw) : Act Unit := do
  match amount? args with
  | none => Act.fail 1 "tail: invalid number"
  | some (a, files) =>
    match ← contentOf files with
    | .error e => complaint "tail" (files.headD []) e
    | .ok cs =>
      let whole := lineCount cs + (if cs.getLast? = some '\n' || cs.isEmpty then 0 else 1)
      Act.write (match a with
        | .bytes n => cs.drop (cs.length - n)
        | .lines n => (frontLines (whole - n) cs).2
        | .behindBytes n => cs.drop n
        | .behindLines n => (frontLines n cs).2)

def operand? (name : String) (args : List Raw) : Option Raw :=
  args.findSome? fun a =>
    let key := name.toList ++ ['=']
    if key.isPrefixOf a then some (a.drop key.length) else none

def dd (args : List Raw) : Act Unit := do
  let size := ((operand? "bs" args).bind nat?).getD 512
  match operand? "count" args with
  | some n => Act.write (← Act.take (size * (nat? n).getD 0))
  | none => Act.write (← Act.takeAll)

def wordCount (cs : Raw) : Nat :=
  (cs.foldl (fun (n, inWord) c =>
    if Sum.isSpace c then (n, false) else (if inWord then n else n + 1, true))
    ((0, false) : Nat × Bool)).1

/-- Several counts of an input whose size is not known beforehand stand in columns this wide. -/
def columnWidth : Nat := 7

def wc (args : List Raw) : Act Unit := do
  let (options, files) := args.partition fun a => a.head? = some '-' && a != ['-']
  match ← contentOf files with
  | .error e => complaint "wc" (files.headD []) e
  | .ok cs =>
    let chosen := (options.map (·.drop 1)).flatten
    let isChosen := fun c => chosen.isEmpty || chosen.contains c
    let counts := (if isChosen 'l' then [lineCount cs] else []) ++
      (if isChosen 'w' then [wordCount cs] else []) ++ (if isChosen 'c' then [cs.length] else [])
    let width := if counts.length ≤ 1 then 0
      else if files.isEmpty then columnWidth else (Nat.toDigits 10 cs.length).length
    let columns := counts.map fun n => Format.pad {} width (Nat.toDigits 10 n)
    let name := match files with
      | f :: _ => ' ' :: f
      | [] => []
    Act.write (joined columns ++ name ++ ['\n'])

def classOf? (name : String) : Option Raw :=
  let range := fun (a b : Char) =>
    (List.range (b.toNat + 1 - a.toNat)).map fun i => Char.ofNat (a.toNat + i)
  match name with
  | "lower" => some (range 'a' 'z')
  | "upper" => some (range 'A' 'Z')
  | "digit" => some (range '0' '9')
  | "alpha" => some (range 'A' 'Z' ++ range 'a' 'z')
  | "alnum" => some (range '0' '9' ++ range 'A' 'Z' ++ range 'a' 'z')
  | "space" => some (range '\t' '\r' ++ [' '])
  | "cntrl" => some (range '\x00' '\x1f' ++ ['\x7f'])
  | _ => none

def characters : Nat → Raw → Raw
  | 0, _ => []
  | _, [] => []
  | n + 1, '[' :: ':' :: rest =>
    let name := rest.takeWhile (· != ':')
    match classOf? (String.ofList name) with
    | some cs => cs ++ characters n (rest.drop (name.length + 2))
    | none => '[' :: characters n (':' :: rest)
  | n + 1, '\\' :: rest =>
    match Format.escape .format rest with
    | some ('\\' :: c :: cs, rest) => c :: cs ++ characters n rest
    | some (cs, rest) => cs ++ characters n rest
    | none => []
  | n + 1, a :: '-' :: b :: rest =>
    (List.range (b.toNat + 1 - a.toNat)).map (fun i => Char.ofNat (a.toNat + i)) ++ characters n rest
  | n + 1, c :: rest => c :: characters n rest

def setOf (cs : Raw) : Raw :=
  characters cs.length cs

/-- Leaves one of several equal characters in a row, if it is in the set. -/
def squeezed (inSet : Char → Bool) : Raw → Raw
  | a :: b :: rest =>
    if a = b && inSet a then squeezed inSet (b :: rest) else a :: squeezed inSet (b :: rest)
  | cs => cs

def tr (args : List Raw) : Act Unit := do
  let (options, sets) := args.partition fun a => a.head? = some '-' && 1 < a.length
  let chosen := (options.map (·.drop 1)).flatten
  let sets := sets.map setOf
  let source := sets.headD []
  let inSource := fun c => source.contains c != (chosen.contains 'c' || chosen.contains 'C')
  let last := sets.getLastD []
  let cs ← Act.takeAll
  let changed := fun c =>
    if chosen.contains 'c' then (if inSource c then last.getLastD c else c)
    else match source.idxOf? c with
      | some i => (last[i]? <|> last.getLast?).getD c
      | none => c
  let cs := if chosen.contains 'd' then cs.filter fun c => !inSource c
    else if sets.length = 2 then cs.map changed else cs
  let inLast := fun c => if sets.length = 2 then last.contains c else inSource c
  if sets.isEmpty then Act.fail 1 "tr: missing operand"
  else Act.write (if chosen.contains 's' then squeezed inLast cs else cs)

/-- The lines of a text; a line end at its end begins no other line. -/
def linesOf : Nat → Raw → List Raw
  | 0, _ => []
  | _, [] => []
  | n + 1, cs =>
    cs.takeWhile (· != '\n') :: linesOf n ((cs.dropWhile (· != '\n')).drop 1)

def isBefore (a b : Raw) : Bool :=
  List.lex a b fun x y => x < y

def sorted (ls : List Raw) : List Raw :=
  ls.mergeSort fun a b => !isBefore b a

def sort (args : List Raw) : Act Unit := do
  let (options, files) := args.partition fun a => a.head? = some '-' && a != ['-']
  let chosen := (options.map (·.drop 1)).flatten
  match ← contentOf files with
  | .error e => complaint "sort" (files.headD []) e
  | .ok cs =>
    let ls := sorted (linesOf cs.length cs)
    let ls := if chosen.contains 'u' then ls.eraseDups else ls
    let ls := if chosen.contains 'r' then ls.reverse else ls
    Act.write (ls.flatMap (· ++ ['\n']))

def rev (args : List Raw) : Act Unit := do
  match ← contentOf args with
  | .error e => complaint "rev" (args.headD []) e
  | .ok cs =>
    let turned := ((linesOf cs.length cs).map List.reverse).intersperse ['\n']
    Act.write (turned.flatten ++ if cs.getLast? = some '\n' then ['\n'] else [])

def ls (args : List Raw) : Act Unit := do
  let s ← get
  let place := (args.filter fun a => a.head? != some '-').headD ['.']
  let path := s.pathOf place
  if s.files.isDirectory path then
    let names := (s.files.list path).map Raw.ofBytes
    let all := args.contains "-a".toList
    let names := if all then [".".toList, "..".toList] ++ names
      else names.filter fun n => n.head? != some '.'
    Act.write ((sorted names).flatMap (· ++ ['\n']))
  else match s.files.find path with
    | .ok _ => Act.write (place ++ ['\n'])
    | .error e => Act.fail 2 s!"ls: cannot access {shown place}: {e.message}"

def duration? (cs : Raw) : Option Nat :=
  let (cs, unit) := match cs.reverse with
    | 's' :: rest => (rest.reverse, 1)
    | 'm' :: rest => (rest.reverse, 60)
    | 'h' :: rest => (rest.reverse, 3600)
    | _ => (cs, 1)
  let whole := cs.takeWhile (· != '.')
  let part := (cs.dropWhile (· != '.')).drop 1
  if (whole ++ part).isEmpty || !(whole ++ part).all Text.isDigit then none
  else
    let thousandths := (part ++ ['0', '0', '0']).take 3
    some (unit * (1000 * Nat.ofDigitChars 10 whole 0 + Nat.ofDigitChars 10 thousandths 0))

def sleep (args : List Raw) : Act Unit := do
  match args.mapM duration? with
  | some (d :: ds) =>
    Act.sleep (ds.foldl (· + ·) d)
    Act.succeed true
  | _ => Act.fail 1 "sleep: missing operand"

def signals : List (String × Nat) :=
  [("EXIT", 0), ("HUP", 1), ("INT", 2), ("QUIT", 3), ("ILL", 4), ("TRAP", 5), ("ABRT", 6), ("BUS", 7),
    ("FPE", 8), ("KILL", 9), ("USR1", 10), ("SEGV", 11), ("USR2", 12), ("PIPE", 13), ("ALRM", 14),
    ("TERM", 15), ("CHLD", 17), ("CONT", 18), ("STOP", 19), ("TSTP", 20), ("TTIN", 21), ("TTOU", 22),
    ("URG", 23), ("WINCH", 28)]

def signal? (cs : Raw) : Option Nat :=
  match nat? cs with
  | some n => if n < 65 then some n else none
  | none => signals.lookup (String.ofList (cs.map Char.toUpper))

def signalName (n : Nat) : String :=
  ((signals.find? (·.2 == n)).map (·.1)).getD (toString n)

def isFatal (n : Nat) : Bool :=
  n != 0 && !([17, 18, 19, 20, 21, 22, 23, 28].contains n)

def killing? (args : List Raw) : Option (Nat × List Raw) :=
  match args with
  | ['-', 's'] :: name :: targets => (signal? name).map (·, targets)
  | ['-', '-'] :: targets => some (15, targets)
  | ('-' :: name) :: targets => (signal? name).map (·, targets)
  | targets => some (15, targets)

/-- Sends a signal. It counts for the process itself and those that it was started by. -/
def kill (args : List Raw) : Act Unit := do
  match args with
  | ['-', 'l'] :: n :: _ =>
    Act.write (Raw.ofText (signalName ((nat? n).getD 0 % 128)) ++ ['\n'])
  | args =>
    match killing? args with
    | none | some (_, []) => Act.fail 2 "kill: usage"
    | some (signal, targets) =>
      match targets.mapM nat? with
      | none => Act.fail 2 "kill: illegal number"
      | some targets =>
        let own := (← get).number
        Act.succeed true
        match targets.find? fun t => 100 ≤ t && t ≤ own with
        | some t => if isFatal signal then throw (.killed t signal)
        | none => if !targets.all (· == 0) then Act.fail 1 "kill: no such process"

def compare? (op : Raw) (a b : Int) : Option Bool :=
  match String.ofList op with
  | "-eq" => some (a == b)
  | "-ne" => some (a != b)
  | "-lt" => some (a < b)
  | "-le" => some (a ≤ b)
  | "-gt" => some (b < a)
  | "-ge" => some (b ≤ a)
  | _ => none

/-- A test of up to three words; nothing if it is none. -/
def primary (s : Shell) (args : List Raw) : Option Bool :=
  match args with
  | [] => some false
  | [a] => some (!a.isEmpty)
  | [op, a] =>
    match String.ofList op with
    | "!" => some a.isEmpty
    | "-n" => some (!a.isEmpty)
    | "-z" => some a.isEmpty
    | "-e" => some (s.files.find (s.pathOf a)).isOk
    | "-r" => some (s.files.find (s.pathOf a)).isOk
    | "-w" => some (s.files.find (s.pathOf a)).isOk
    | "-x" => some (s.files.isDirectory (s.pathOf a))
    | "-f" => some (s.files.isFile (s.pathOf a))
    | "-d" => some (s.files.isDirectory (s.pathOf a))
    | "-s" => some (match s.files.read (s.pathOf a) with | .ok bs => !bs.isEmpty | .error _ => false)
    | "-t" => some false
    | "-L" => some false
    | "-h" => some false
    | _ => none
  | [a, op, b] =>
    match String.ofList op with
    | "=" => some (a == b)
    | "==" => some (a == b)
    | "!=" => some (a != b)
    | "<" => some (isBefore a b)
    | ">" => some (isBefore b a)
    | _ => do compare? op (← int? a) (← int? b)
  | _ => none

def condition (s : Shell) : Nat → List Raw → Option Bool
  | 0, _ => none
  | n + 1, args =>
    match primary s args with
    | some b => some b
    | none =>
      let before := fun (word : String) => args.takeWhile (· != word.toList)
      let behind := fun (word : String) => (args.dropWhile (· != word.toList)).drop 1
      if args.contains "-o".toList then do
        return (← condition s n (before "-o")) || (← condition s n (behind "-o"))
      else if args.contains "-a".toList then do
        return (← condition s n (before "-a")) && (← condition s n (behind "-a"))
      else match args with
        | ['!'] :: rest => (condition s n rest).map (!·)
        | _ => none

def test (args : List Raw) : Act Unit := do
  match condition (← get) (args.length + 1) args with
  | some b => Act.succeed b
  | none => Act.fail 2 "test: unexpected operator"

def bracket (args : List Raw) : Act Unit :=
  if args.getLast? = some [']'] then test args.dropLast else Act.fail 2 "[: missing ]"

def pwd : Act Unit := do
  Act.write (Raw.ofBytes (← get).place.bytes ++ ['\n'])

def program? (name : Raw) : Option (List Raw → Act Unit) :=
  match String.ofList name with
  | "[" => some bracket
  | "basename" => some basename
  | "cat" => some cat
  | "dd" => some dd
  | "dirname" => some dirname
  | "echo" => some echoProgram
  | "false" => some fun _ => Act.succeed false
  | "head" => some head
  | "kill" => some kill
  | "ls" => some ls
  | "printf" => some (printf .program)
  | "pwd" => some fun _ => pwd
  | "rev" => some rev
  | "seq" => some seq
  | "sleep" => some sleep
  | "sort" => some sort
  | "tail" => some tail
  | "tee" => some tee
  | "test" => some test
  | "tr" => some tr
  | "true" => some fun _ => Act.succeed true
  | "wc" => some wc
  | _ => none

end LanguageClient.Machine.Tools
