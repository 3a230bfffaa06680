import LanguageClient.Machine.Script.Reader
import LanguageClient.Machine.Shell.Tools

namespace LanguageClient.Machine

/-- A character of an expanded word with its origin, a place where something quoted stood, or a
border between fields. -/
inductive Glyph where
  | quoted (c : Char)
  | plain (c : Char)
  | value (c : Char)
  | present
  | border

namespace Glyph

def char? : Glyph → Option Char
  | quoted c | plain c | value c => some c
  | present | border => none

def text (gs : List Glyph) : Raw :=
  gs.filterMap fun g =>
    match g with
    | border => some ' '
    | g => g.char?

def pattern (gs : List Glyph) : List Wildcard :=
  Wildcard.ofCharacters (gs.filterMap fun g =>
    match g with
    | quoted c => some (c, true)
    | plain c | value c => some (c, false)
    | present | border => none)

def ofText (isQuoted : Bool) (cs : Raw) : List Glyph :=
  if isQuoted then present :: cs.map quoted else cs.map value

def isBlank (c : Char) : Bool :=
  [' ', '\t', '\n'].contains c

/-- Splits a word into fields at the separators in values. The field begun is given latest first. -/
def split (separators : Raw) : Option Raw → List Glyph → List Raw
  | begun, [] => (begun.map List.reverse).toList
  | begun, present :: gs => split separators (some (begun.getD [])) gs
  | begun, border :: gs => (begun.map List.reverse).toList ++ split separators none gs
  | begun, quoted c :: gs => split separators (some (c :: begun.getD [])) gs
  | begun, plain c :: gs => split separators (some (c :: begun.getD [])) gs
  | begun, value c :: gs =>
    if !separators.contains c then split separators (some (c :: begun.getD [])) gs
    else if isBlank c then (begun.map List.reverse).toList ++ split separators none gs
    else (begun.getD []).reverse :: split separators none gs

end Glyph

namespace Shell

def separators (s : Shell) : Raw :=
  (s.value? "IFS".toList).getD [' ', '\t', '\n']

def allArguments (s : Shell) : Raw :=
  (s.arguments.intersperse (s.separators.take 1)).flatten

def flags (s : Shell) : Raw :=
  (if s.strict then ['e'] else []) ++ (if s.careful then ['u'] else [])

def parameter? (s : Shell) (name : Raw) : Option Raw :=
  match name with
  | ['?'] => some (Nat.toDigits 10 s.status)
  | ['#'] => some (Nat.toDigits 10 s.arguments.length)
  | ['$'] => some (Nat.toDigits 10 s.number)
  | ['!'] => some []
  | ['-'] => some s.flags
  | ['0'] => some s.name
  | ['@'] => if s.arguments.isEmpty then none else some (Tools.joined s.arguments)
  | ['*'] => if s.arguments.isEmpty then none else some s.allArguments
  | [c] => if Text.isDigit c then s.arguments[Text.digitValue c - 1]? else s.value? name
  | _ => if name = "PPID".toList then some (Nat.toDigits 10 (s.number - 1)) else s.value? name

end Shell

abbrev Marked := Char × Bool

namespace Marked

/-- Carries the backslashes of a line out. The flag says whether one stands at its end. -/
def ofLine : Raw → List Marked × Bool
  | [] => ([], false)
  | ['\\'] => ([], true)
  | '\\' :: c :: rest =>
    let (cs, open_) := ofLine rest
    ((c, true) :: cs, open_)
  | c :: rest =>
    let (cs, open_) := ofLine rest
    ((c, false) :: cs, open_)

def text (cs : List Marked) : Raw :=
  cs.map Prod.fst

def dropBlanks (separators : Raw) (cs : List Marked) : List Marked :=
  cs.dropWhile fun (c, kept) => !kept && Glyph.isBlank c && separators.contains c

def isSeparator (separators : Raw) : Marked → Bool
  | (c, kept) => !kept && separators.contains c

/-- The last field takes all that is left; only a separator at its very end is dropped, if there is
no other. -/
def lastField (separators : Raw) (cs : List Marked) : Raw :=
  let cs := (dropBlanks separators cs.reverse).reverse
  match cs.reverse with
  | c :: front =>
    if isSeparator separators c && !front.any (isSeparator separators) then text front.reverse
    else text cs
  | [] => []

def fields (separators : Raw) : Nat → List Marked → List Raw
  | 0, _ => []
  | n + 1, cs =>
    let cs := dropBlanks separators cs
    if n = 0 then [lastField separators cs]
    else
      let word := cs.takeWhile fun c => !isSeparator separators c
      let behind := dropBlanks separators (cs.drop word.length)
      let behind := match behind with
        | c :: rest =>
          if isSeparator separators c && !Glyph.isBlank c.1 then rest else behind
        | [] => []
      text word :: fields separators n behind

end Marked

namespace Act

def setParameters (args : List Raw) : Act Unit :=
  modify fun s => { s with arguments := args }

def takeMarked (plain : Bool) : Nat → Act (List Marked × Bool)
  | 0 => return ([], false)
  | n + 1 => do
    let (line, whole) ← takeLine
    if plain then return (line.map (·, false), whole)
    else
      let (cs, goesOn) := Marked.ofLine line
      if goesOn && whole then
        let (more, whole) ← takeMarked plain n
        return (cs ++ more, whole)
      else return (cs, whole)

def readLine (args : List Raw) : Act Unit := do
  let (options, names) := args.partition fun a => a.head? = some '-'
  if names.isEmpty then fail 2 "read: arg count"
  else
    let (cs, whole) ← takeMarked (options.any (·.contains 'r')) ((← get).input.length + 1)
    let s ← get
    let values := Marked.fields s.separators names.length cs
    set ((names.zip values).foldl (fun s (n, v) => s.setValue n v) s)
    succeed whole

/-- Gives names their values, if there are any, and does with each name what `mark` says. -/
def declare (mark : Shell → Raw → Shell) (args : List Raw) : Act Unit := do
  args.forM fun a =>
    match Script.assignment? a with
    | some (name, value) => modify fun s => (mark s name).setValue name value
    | none => modify fun s => mark s a
  succeed true

/-- The old value of a name comes back at the end of the function. -/
def hide (s : Shell) (name : Raw) : Shell :=
  { s with hidden := (name, s.value? name) :: s.hidden }

def unhide (s : Shell) : Shell :=
  s.hidden.foldl (fun s (name, v) => s.putBack name v) s

def changePlace (args : List Raw) : Act Unit := do
  let s ← get
  let target := match args.filter (· != "--".toList) with
    | [] => (s.value? "HOME".toList).getD []
    | a :: _ => a
  let path := s.pathOf target
  if s.files.isDirectory path then
    set { s with place := path.normal }
    succeed true
  else fail 2 s!"cd: can't cd to {Tools.shown target}"

def countOr (n : Nat) (args : List Raw) : Act Nat :=
  match args with
  | [] => return n
  | a :: _ =>
    match Tools.nat? a with
    | some n => return n
    | none => failFor 2 s!"Illegal number: {Tools.shown a}"

def shift (args : List Raw) : Act Unit := do
  let n ← countOr 1 args
  let s ← get
  if s.arguments.length < n then failFor 2 "shift: can't shift that many"
  else
    set { s with arguments := s.arguments.drop n }
    succeed true

/-- Switches what an interpreter minds on or off. The flag says whether there is such a switch. -/
def switch (value : Bool) (c : Char) : Act Bool := do
  match c with
  | 'e' => modify fun s => { s with strict := value }
  | 'u' => modify fun s => { s with careful := value }
  | _ => pure ()
  return "euxvfnaCbmpV".toList.contains c

/-- Reads switches in front; what follows are the arguments. -/
def switches : Nat → List Raw → Act (Option (List Raw))
  | 0, args => return some args
  | n + 1, args =>
    match args with
    | ['-', '-'] :: rest => return some rest
    | ['-', 'o'] :: name :: rest => do
      if name = "errexit".toList then let _ ← switch true 'e'
      if name = "nounset".toList then let _ ← switch true 'u'
      switches n rest
    | ('-' :: c :: cs) :: rest => do
      if (← (c :: cs).allM (switch true)) then switches n rest
      else failFor 2 "set: Illegal option"
    | ('+' :: c :: cs) :: rest => do
      if (← (c :: cs).allM (switch false)) then switches n rest
      else failFor 2 "set: Illegal option"
    | ['-'] :: rest => return if rest.isEmpty then none else some rest
    | [] => return none
    | args => return some args

def setAll (args : List Raw) : Act Unit := do
  match ← switches args.length args with
  | some rest => setParameters rest
  | none => if args = [['-', '-']] then setParameters []
  succeed true

/-- Leaves loops, or goes on with the next round; outside of loops there is nothing to leave. -/
def leave (halt : Nat → Halt) (args : List Raw) : Act Unit := do
  let n ← countOr 1 args
  let depth := (← get).loops
  if depth = 0 then succeed true
  else
    succeed true
    throw (halt (min n depth))

def trap (args : List Raw) : Act Unit := do
  let args := if args.head? = some ['-', '-'] then args.tail else args
  let (action, names) := match args with
    | [name] => (none, [name])
    | ['-'] :: names => (none, names)
    | text :: names => (some text, names)
    | [] => (none, [])
  match names.mapM Tools.signal? with
  | none => fail 1 "trap: bad trap"
  | some signals => do
    modify fun s =>
      let names := signals.map Tools.signalName
      let others := s.traps.filter fun (name, _) => !names.contains name
      { s with traps := (action.map fun text => names.map (·, text)).getD [] ++ others }
    succeed true

def builtin? (name : Raw) : Option (List Raw → Act Unit) :=
  match String.ofList name with
  | ":" => some fun _ => succeed true
  | "true" => some fun _ => succeed true
  | "false" => some fun _ => succeed false
  | "echo" => some Tools.echo
  | "printf" => some (Tools.printf .format)
  | "test" => some Tools.test
  | "[" => some Tools.bracket
  | "kill" => some Tools.kill
  | "pwd" => some fun _ => Tools.pwd
  | "exit" => some fun args => do
    setStatus ((← countOr (← get).status args) % 256)
    throw .exited
  | "return" => some fun args => do
    setStatus ((← countOr (← get).status args) % 256)
    throw .returned
  | "break" => some (leave .left)
  | "continue" => some (leave .again)
  | "shift" => some shift
  | "set" => some setAll
  | "unset" => some fun args => do
    modify fun s => args.foldl Shell.unset s
    succeed true
  | "export" => some (declare Shell.pass)
  | "local" => some (declare hide)
  | "readonly" => some (declare fun s _ => s)
  | "read" => some readLine
  | "cd" => some changePlace
  | "trap" => some trap
  | "umask" => some fun _ => succeed true
  | "wait" => some fun _ => succeed true
  | "hash" => some fun _ => succeed true
  | "jobs" => some fun _ => succeed true
  | _ => none

def keepsAssignments (name : Raw) : Bool :=
  [":", ".", "break", "continue", "eval", "exit", "export", "readonly", "return", "set", "shift",
    "trap", "unset"].contains (String.ofList name)

def redirect (stream : Nat) (sink : Option Sink) : Act Unit :=
  modify fun s => s.setSink stream sink

def endInput : Act Unit :=
  modify fun s => { s with input := [], ended := true }

/-- Leads a stream to a file, which is made if it is not there. The flag says whether that went
well. -/
def toFile (stream : Nat) (behind : Bool) (file : Raw) : Act Bool := do
  let s ← get
  match String.ofList file with
  | "/dev/null" => redirect stream (some .nowhere)
  | "/dev/stdout" => redirect stream (s.sink? 1)
  | "/dev/stderr" => redirect stream (s.sink? 2)
  | _ =>
    let path := s.pathOf file
    let old := if behind then (s.files.read path).toOption.getD [] else []
    match s.files.write path old with
    | .ok files => set ({ s with files }.setSink stream (some (.file path)))
    | .error _ =>
      fail 2 s!"cannot create {Tools.shown file}"
      return false
  return true

/-- Takes the input from a file. The flag says whether there is one. -/
def fromFile (file : Raw) : Act Bool := do
  let s ← get
  match String.ofList file with
  | "/dev/null" =>
    endInput
    return true
  | "/dev/stdin" => return true
  | _ =>
    match s.files.read (s.pathOf file) with
    | .ok bs =>
      set { s with input := Raw.ofBytes bs, ended := true }
      return true
    | .error _ =>
      fail 2 s!"cannot open {Tools.shown file}: No such file"
      return false

def copyStream (stream : Nat) (source : Raw) : Act Bool := do
  let s ← get
  if source = ['-'] then
    if stream = 0 then endInput else redirect stream none
    return true
  else if stream = 0 then return true
  else
    match (Tools.nat? source).bind s.sink? with
    | some sink =>
      redirect stream (some sink)
      return true
    | none =>
      fail 2 s!"{Tools.shown source}: Bad file descriptor"
      return false

def keepStreams (replacesInput : Bool) : Act Unit :=
  modify fun s => { s with
    holdsInput := s.holdsInput && !replacesInput
    holdsOutput := s.holdsOutput && s.sink? 1 = some .out }

def replacesInput : Redirection → Bool
  | .input _ => true
  | .here _ => true
  | .copy 0 _ => true
  | _ => false

def isInterpreter (name : Raw) : Bool :=
  ["sh", "dash", "bash"].contains (String.ofList name)

def programName? (name : Raw) : Option Raw :=
  if !name.contains '/' then some name
  else ["/bin/", "/usr/bin/"].findSome? fun dir =>
    if dir.toList.isPrefixOf name && !(name.drop dir.length).contains '/' then
      some (name.drop dir.length)
    else none

/-- Goes once round a loop, unless it is left there. The flag says whether it goes on. -/
def onceRound (act : Act Bool) : Act Bool :=
  restoring (fun before s => { s with loops := before.loops }) do
    modify fun s => { s with loops := s.loops + 1 }
    try act catch
      | .left k => if k ≤ 1 then return false else throw (.left (k - 1))
      | .again k => if k ≤ 1 then return true else throw (.again (k - 1))
      | h => throw h

def whereIs (name : Raw) : Act Unit := do
  let s ← get
  if s.functions.any (·.1 == name) || (builtin? name).isSome then write (name ++ ['\n'])
  else match programName? name with
    | some tool =>
      if isInterpreter tool || (Tools.program? tool).isSome then
        write ((if name.contains '/' then name else "/usr/bin/".toList ++ name) ++ ['\n'])
      else setStatus 127
    | none => setStatus 127

mutual

def expand : Nat → List Part → Act (List Glyph)
  | 0, _ => throw .waiting
  | _, [] => return []
  | n + 1, p :: ps => do
    let front ← match p with
      | .text true cs => pure (Glyph.present :: cs.map .quoted)
      | .text false cs => pure (cs.map .plain)
      | .value true ['@'] .plain =>
        let s ← get
        pure ((s.arguments.map fun a => Glyph.ofText true a).intersperse [.border]).flatten
      | .value quoted name use => value n quoted name use
      | .output quoted script =>
        let cs ← captured (run n script)
        pure (Glyph.ofText quoted (cs.reverse.dropWhile (· == '\n')).reverse)
      | .sum quoted inner =>
        let cs := Glyph.text (← expand n inner)
        let s ← get
        match (Sum.ofRaw? cs).bind fun t => (Sum.eval t).run s with
        | some (k, s) =>
          set s
          pure (Glyph.ofText quoted (Sum.digits k))
        | none => failFor 2 s!"arithmetic expression: {Tools.shown cs}"
    return front ++ (← expand n ps)

def value : Nat → Bool → Raw → Use → Act (List Glyph)
  | 0, _, _, _ => throw .waiting
  | n + 1, quoted, name, use => do
    let v := (← get).parameter? name
    let cs := v.getD []
    let there := fun (blank : Bool) => v.isSome && !(blank && cs.isEmpty)
    let other := fun (word : List Part) => do
      let gs ← expand n word
      return if quoted then Glyph.ofText true (Glyph.text gs) else gs
    let needed : Act Unit := do
      if v.isNone && (← get).careful && name ≠ ['@'] && name ≠ ['*'] then
        failFor 2 s!"{Tools.shown name}: parameter not set"
    match use with
    | .plain =>
      needed
      return Glyph.ofText quoted cs
    | .length =>
      needed
      return Glyph.ofText quoted (Nat.toDigits 10 cs.length)
    | .cutFront longest pattern =>
      needed
      return Glyph.ofText quoted (Wildcard.cutFront longest (Glyph.pattern (← expand n pattern)) cs)
    | .cutBack longest pattern =>
      needed
      return Glyph.ofText quoted (Wildcard.cutBack longest (Glyph.pattern (← expand n pattern)) cs)
    | .orElse blank word => if there blank then return Glyph.ofText quoted cs else other word
    | .orAssign blank word =>
      if there blank then return Glyph.ofText quoted cs
      else
        let cs := Glyph.text (← expand n word)
        modify (·.setValue name cs)
        return Glyph.ofText quoted cs
    | .andThen blank word => if there blank then other word else return Glyph.ofText quoted []
    | .orFail blank =>
      if there blank then return Glyph.ofText quoted cs
      else failFor 2 s!"{Tools.shown name}: parameter not set"

def fields : Nat → List (List Part) → Act (List Raw)
  | 0, _ => throw .waiting
  | _, [] => return []
  | n + 1, w :: ws => do
    let gs ← expand n w
    let front := Glyph.split (← get).separators none gs
    return front ++ (← fields n ws)

def assign : Nat → List (Raw × List Part) → Act Unit
  | 0, _ => throw .waiting
  | _, [] => return
  | n + 1, (name, w) :: rest => do
    let cs := Glyph.text (← expand n w)
    modify (·.setValue name cs)
    assign n rest

/-- Sends the streams where the redirections tell. The flag says whether that went well. -/
def redirectAll : Nat → List Redirection → Act Bool
  | 0, _ => throw .waiting
  | _, [] => return true
  | n + 1, r :: rs => do
    let well ← match r with
      | .output stream behind w => toFile stream behind (Glyph.text (← expand n w))
      | .input w => fromFile (Glyph.text (← expand n w))
      | .here w => do
        let cs := Glyph.text (← expand n w)
        modify fun s => { s with input := cs, ended := true }
        pure true
      | .copy stream w => copyStream stream (Glyph.text (← expand n w))
    if well then redirectAll n rs else return false

/-- Runs `act` with the streams as the redirections tell, if they can. -/
def redirecting : Nat → List Redirection → Act Unit → Act Unit
  | 0, _, _ => throw .waiting
  | n + 1, rs, act =>
    withStreams (rs.any replacesInput) do
      if ← redirectAll n rs then act

/-- Runs what an interpreter does at a signal, if it provides for it. -/
def attended : Nat → Act Unit → Act Unit
  | 0, _ => throw .waiting
  | n + 1, act => do
    try act catch
      | .killed process signal => do
        let s ← get
        if s.number ≠ process || signal = 9 then throw (.killed process signal)
        match s.traps.lookup (Tools.signalName signal) with
        | none => throw (.killed process signal)
        | some text => do
          let status := s.status
          runText n text
          setStatus status
      | h => throw h

/-- Runs `act` up to the end of its interpreter, and then what that does at its end. -/
def finishing : Nat → Act Unit → Act Unit
  | 0, _ => throw .waiting
  | n + 1, act => do
    try act catch
      | .exited => pure ()
      | .returned => pure ()
      | .left _ => pure ()
      | .again _ => pure ()
      | h => throw h
    let s ← get
    match s.traps.lookup "EXIT" with
    | none => return
    | some text => do
      set { s with traps := s.traps.filter (·.1 != "EXIT") }
      runText n text
      setStatus s.status

/-- Calls a command by its name: a function, a part of the interpreter, or a program. -/
def call : Nat → Raw → List Raw → Act Unit
  | 0, _, _ => throw .waiting
  | n + 1, name, args => do
    let s ← get
    match s.functions.lookup name with
    | some body =>
      restoring (fun before s => { unhide s with
        arguments := before.arguments, hidden := before.hidden, loops := before.loops }) do
        modify fun s => { s with arguments := args, hidden := [], loops := 0 }
        try run n body catch
          | .returned => return
          | h => throw h
    | none =>
      match String.ofList name with
      | "eval" => runText n (Tools.joined args)
      | "exec" =>
        match args with
        | [] => succeed true
        | name :: args => do
          modify fun s => { s with traps := [] }
          program n false name args
          throw .exited
      | "command" =>
        match args with
        | [] => succeed true
        | ['-', 'v'] :: name :: _ => whereIs name
        | name :: args => do
          modify fun s => { s with functions := s.functions.filter (·.1 != name) }
          call n name args
          modify fun s' => { s' with functions := s.functions }
      | "." =>
        match args with
        | [] => succeed true
        | file :: _ =>
          match ← content? file with
          | .ok cs => runText n cs
          | .error _ => failFor 2 s!".: cannot open {Tools.shown file}"
      | _ =>
        match builtin? name with
        | some act => act args
        | none => program n true name args

/-- Runs a program that stands in a file, in a process of its own if it is not to take the place of
this one. -/
def program : Nat → Bool → Raw → List Raw → Act Unit
  | 0, _, _, _ => throw .waiting
  | n + 1, isOwn, name, args => do
    let missing := fail 127 s!"sh: 1: {Tools.shown name}: not found"
    match programName? name with
    | none =>
      let s ← get
      if name.contains '/' && (s.files.find (s.pathOf name)).isOk then
        fail 126 s!"sh: 1: {Tools.shown name}: Permission denied"
      else missing
    | some tool =>
      let place := if isOwn then inside else replacing
      if isInterpreter tool then
        let number := (← get).number + if isOwn then 1 else 0
        try
          place do
            modify fun s => { s.begun with number }
            finishing n (interpreter n name args)
        catch
          | .killed process signal =>
            if process = number && isOwn then setStatus (128 + signal)
            else throw (.killed process signal)
          | h => throw h
      else if tool = "env".toList then place (withEnvironment n args)
      else match Tools.program? tool with
        | some act => place (act args)
        | none => missing

def withEnvironment : Nat → List Raw → Act Unit
  | 0, _ => throw .waiting
  | _, [] => do
    let s ← get
    let passed := s.bindings.filter fun (name, _) => s.exported.contains name
    write (passed.reverse.flatMap fun (name, v) => name ++ '=' :: v ++ ['\n'])
  | n + 1, a :: rest => do
    if a = ['-', 'i'] then
      modify fun s => { s with bindings := [] }
      withEnvironment n rest
    else match Script.assignment? a with
      | some (name, v) =>
        modify fun s => (s.setValue name v).pass name
        withEnvironment n rest
      | none => program n true a rest

/-- A command interpreter: its script is an argument, a file, or its input. -/
def interpreter : Nat → Raw → List Raw → Act Unit
  | 0, _, _ => throw .waiting
  | n + 1, name, args => do
    modify fun s => { s with name, arguments := [] }
    match args with
    | [] => runText n (← takeAll)
    | ['-', '-'] :: rest => interpreter n name rest
    | ['-', 's'] :: rest => do
      let text ← takeAll
      setParameters rest
      runText n text
    | ('-' :: flags) :: rest =>
      flags.forM fun c => do
        let _ ← switch true c
      if !flags.contains 'c' then interpreter n name rest
      else match rest with
        | [] => failFor 2 "sh: 0: -c requires an argument"
        | script :: rest => do
          modify fun s => { s with name := rest.headD name, arguments := rest.drop 1 }
          runText n script
    | file :: rest =>
      match ← content? file with
      | .ok cs => do
        modify fun s => { s with name := file, arguments := rest }
        runText n cs
      | .error _ => failFor 2 s!"sh: 0: cannot open {Tools.shown file}: No such file"

def runText : Nat → Raw → Act Unit
  | 0, _ => throw .waiting
  | n + 1, text =>
    match Script.line? text with
    | none => failFor 2 "sh: 1: Syntax error"
    | some (.nothing, _) => return
    | some (script, rest) => do
      run n script
      runText n rest

/-- Goes round a loop. The status of the last time round is given. -/
def rounds : Nat → Bool → Script → Script → Nat → Act Unit
  | 0, _, _, _, _ => throw .waiting
  | n + 1, whileTrue, condition, body, status => do
    let goesOn ← onceRound do
      looking (run n condition)
      if ((← get).status == 0) == whileTrue then
        run n body
        return true
      else
        setStatus status
        return false
    if goesOn then rounds n whileTrue condition body (← get).status

def eachWord : Nat → Raw → List Raw → Script → Act Unit
  | 0, _, _, _ => throw .waiting
  | _, _, [], _ => return
  | n + 1, name, w :: ws, body => do
    modify (·.setValue name w)
    let goesOn ← onceRound do
      run n body
      return true
    if goesOn then eachWord n name ws body

def fitsAny : Nat → Raw → List (List Part) → Act Bool
  | 0, _, _ => throw .waiting
  | _, _, [] => return false
  | n + 1, subject, w :: ws => do
    if Wildcard.fitsAll (Glyph.pattern (← expand n w)) subject then return true
    else fitsAny n subject ws

def firstArm : Nat → Raw → List (List (List Part) × Script) → Act Unit
  | 0, _, _ => throw .waiting
  | _, _, [] => succeed true
  | n + 1, subject, (patterns, body) :: arms => do
    if ← fitsAny n subject patterns then do
      setStatus 0
      run n body
    else firstArm n subject arms

/-- Runs a simple command. Its assignments last if it has no other words. -/
def simple : Nat → List (Raw × List Part) → List (List Part) → List Redirection → Act Unit
  | 0, _, _, _ => throw .waiting
  | n + 1, assignments, words, redirections => do
    match ← fields n words with
    | [] =>
      if words.isEmpty then setStatus 0
      redirecting n redirections (assign n assignments)
    | ['e', 'x', 'e', 'c'] :: args =>
      if args.isEmpty then
        if ← redirectAll n redirections then
          keepStreams (redirections.any replacesInput)
          succeed true
      else
        redirecting n redirections do
          keepStreams (redirections.any replacesInput)
          assign n assignments
          call n "exec".toList args
    | name :: args =>
      redirecting n redirections do
        let names := if keepsAssignments name then [] else assignments.map Prod.fst
        restoring (fun before s =>
          { names.foldl (fun s name => s.putBack name (before.value? name)) s with
            exported := if names.isEmpty then s.exported else before.exported }) do
          assign n assignments
          modify fun s => names.foldl Shell.pass s
          call n name args

/-- Runs a script. The status that it leaves is that of its last command. -/
def run : Nat → Script → Act Unit
  | 0, _ => throw .waiting
  | n + 1, script => do
    match script with
    | .nothing => return
    | .simple assignments words redirections => do
      attended n (simple n assignments words redirections)
      checked
    | .sequence first second => do
      run n first
      match second with
      | .nothing => return
      | second => run n second
    | .beside first second => do
      let before ← get
      withStreams true do
        endInput
        try inside (run n first) catch
          | .killed process signal => throw (.killed process signal)
          | _ => return
      modify fun s => { s with patience := before.patience, status := 0 }
      run n second
    | .both first second => do
      looking (run n first)
      if (← get).status = 0 then run n second
    | .either first second => do
      looking (run n first)
      if (← get).status ≠ 0 then run n second
    | .negation script => do
      looking (run n script)
      succeed ((← get).status ≠ 0)
    | .pipe first second => do
      let (cs, halted) ← capturedUntil (run n first)
      withStreams true do
        modify fun s => { s with input := cs, ended := halted.isNone }
        try inside (run n second) catch h =>
          if halted.isNone then throw h
      match halted with
      | some h => throw h
      | none => checked
    | .loop whileTrue condition body => rounds n whileTrue condition body 0
    | .choice condition first second => do
      looking (run n condition)
      let holds := (← get).status = 0
      setStatus 0
      if holds then run n first else run n second
    | .cases subject arms => do
      let cs := Glyph.text (← expand n subject)
      firstArm n cs arms
    | .each name words body => do
      let words ← match words with
        | some ws => fields n ws
        | none => pure (← get).arguments
      setStatus 0
      eachWord n name words body
    | .define name body => do
      modify fun s => { s with functions := (name, body) :: s.functions }
      setStatus 0
    | .inside script => do
      attended n do
        inside do
          modify fun s => { s with traps := [] }
          finishing n (run n script)
      checked
    | .redirected script redirections => redirecting n redirections (run n script)

end

end Act
end LanguageClient.Machine
