import LanguageClient.Machine.Files
import LanguageClient.Machine.Script

namespace LanguageClient.Machine

def Raw.ofBytes (bs : Bytes) : Raw :=
  bs.map fun b => Char.ofNat b.toNat

def Raw.toBytes (cs : Raw) : Bytes :=
  cs.map fun c => c.toNat.toUInt8

def Raw.ofText (s : String) : Raw :=
  Raw.ofBytes (utf8 s)

/-- Where a stream leads: to what the process writes, to nowhere, or to a file. -/
inductive Sink where
  | out
  | nowhere
  | file (p : Path)
  deriving DecidableEq

/-- What a command interpreter knows: the bindings of its variables and which of them it passes on,
its functions, what it does at signals, where it stands, the input that is there (and whether more can
come), how long it may still sleep, and what it has written, latest first. A stream that is not
listed is closed. `holdsInput` and `holdsOutput` say whether the process still has what it was
started with. -/
structure Shell where
  bindings : List (Raw × Raw) := []
  exported : List Raw := []
  functions : List (Raw × Script) := []
  /-- The bindings that the function under way has hidden. -/
  hidden : List (Raw × Option Raw) := []
  traps : List (String × Raw) := []
  name : Raw
  number : Nat := 100
  arguments : List Raw := []
  place : Path
  files : Files
  input : Raw
  ended : Bool
  patience : Nat
  written : List Raw := []
  streams : List (Nat × Sink) := [(1, .out), (2, .nowhere)]
  holdsInput : Bool := true
  holdsOutput : Bool := true
  status : Nat := 0
  /-- A command that fails ends the interpreter, except where its failure is looked at. -/
  strict : Bool := false
  lookedAt : Bool := false
  /-- The value of a variable that has none ends the interpreter. -/
  careful : Bool := false
  loops : Nat := 0

/-- Why a command does not come to its end: it waits for input, it sleeps, its interpreter exits, a
signal ends a process, or it leaves loops or a function. -/
inductive Halt where
  | waiting
  | asleep (ms : Nat)
  | exited
  | killed (process : Nat) (signal : Nat)
  | left (loops : Nat)
  | again (loops : Nat)
  | returned
  deriving DecidableEq, Repr

/-- A stretch of work of an interpreter. What was done before a halt stays done. -/
abbrev Act := ExceptT Halt (StateM Shell)

namespace Shell

def value? (s : Shell) (name : Raw) : Option Raw :=
  s.bindings.lookup name

def setValue (s : Shell) (name value : Raw) : Shell :=
  { s with bindings := (name, value) :: s.bindings.filter (·.1 != name) }

def unset (s : Shell) (name : Raw) : Shell :=
  { s with bindings := s.bindings.filter (·.1 != name) }

def putBack (s : Shell) (name : Raw) : Option Raw → Shell
  | some value => s.setValue name value
  | none => s.unset name

def pass (s : Shell) (name : Raw) : Shell :=
  { s with exported := name :: s.exported }

def output (s : Shell) : Raw :=
  s.written.reverse.flatten

def pathOf (s : Shell) (name : Raw) : Path :=
  s.place.append ⟨Raw.toBytes name⟩

def sink? (s : Shell) (stream : Nat) : Option Sink :=
  s.streams.lookup stream

def setSink (s : Shell) (stream : Nat) (sink : Option Sink) : Shell :=
  { s with streams := (sink.map (stream, ·)).toList ++ s.streams.filter (·.1 != stream) }

/-- Writes to a sink; what goes to a file goes to its end. -/
def put (s : Shell) (cs : Raw) : Sink → Shell
  | .out => { s with written := cs :: s.written }
  | .nowhere => s
  | .file p =>
    match s.files.read p with
    | .ok bs => { s with files := s.files.add p (some (bs ++ Raw.toBytes cs)) }
    | .error _ => s

/-- What only the process has, and no other that it starts. -/
def begun (s : Shell) : Shell :=
  { s with
    bindings := s.bindings.filter fun (name, _) => s.exported.contains name
    functions := [], hidden := [], traps := [], status := 0, strict := false, lookedAt := false
    careful := false, loops := 0 }

end Shell

namespace Act

def setStatus (n : Nat) : Act Unit :=
  modify fun s => { s with status := n }

def succeed (b : Bool) : Act Unit :=
  setStatus (if b then 0 else 1)

def warn (text : String) : Act Unit :=
  modify fun s =>
    match s.sink? 2 with
    | some sink => s.put (Raw.ofText (text ++ "\n")) sink
    | none => s

def fail (status : Nat) (text : String) : Act Unit := do
  warn text
  setStatus status

def failFor (status : Nat) (text : String) : Act α := do
  fail status text
  throw .exited

/-- Writes to the standard output, which is the command's success. -/
def write (cs : Raw) : Act Unit := do
  let s ← get
  match s.sink? 1 with
  | some sink =>
    set (s.put cs sink)
    succeed true
  | none => fail 1 "write error: Bad file descriptor"

def take (n : Nat) : Act Raw := do
  let s ← get
  let front := s.input.take n
  if front.length < n && !s.ended then throw .waiting
  set { s with input := s.input.drop n }
  return front

def takeAll : Act Raw := do
  let s ← get
  if !s.ended then throw .waiting
  set { s with input := [] }
  return s.input

/-- Takes a line without its end. The flag says whether it was a whole one. -/
def takeLine : Act (Raw × Bool) := do
  let s ← get
  match s.input.dropWhile (· != '\n') with
  | _ :: rest =>
    set { s with input := rest }
    return (s.input.takeWhile (· != '\n'), true)
  | [] =>
    if !s.ended then throw .waiting
    set { s with input := [] }
    return (s.input, false)

/-- All that a file holds, if it can be read. -/
def content? (file : Raw) : Act (Except SystemError Raw) := do
  match String.ofList file with
  | "-" | "/dev/stdin" => return .ok (← takeAll)
  | "/dev/null" => return .ok []
  | _ =>
    let s ← get
    return (s.files.read (s.pathOf file)).map Raw.ofBytes

def sleep (ms : Nat) : Act Unit := do
  let s ← get
  if s.patience < ms then throw (.asleep (ms - s.patience))
  set { s with patience := s.patience - ms }

/-- Runs `act` and restores afterwards what `restore` takes from the state before, also when the act
halts. -/
def restoring (restore : Shell → Shell → Shell) (act : Act α) : Act α := do
  let before ← get
  try
    let a ← act
    modify (restore before)
    return a
  catch h =>
    modify (restore before)
    throw h

/-- Runs `act` in an interpreter that takes the place of this one: input, time, files, output, status
and what the process has kept come out of it. -/
def replacing (act : Act Unit) : Act Unit :=
  restoring (fun before s => { before with
    input := s.input, patience := s.patience, files := s.files, written := s.written
    status := s.status, holdsInput := s.holdsInput, holdsOutput := s.holdsOutput }) do
    try act catch
      | .exited => return
      | .returned => return
      | .left _ => return
      | .again _ => return
      | h => throw h

/-- Runs `act` in an interpreter of its own, which keeps nothing from this one. -/
def inside (act : Act Unit) : Act Unit :=
  restoring (fun before s =>
    { s with holdsInput := before.holdsInput, holdsOutput := before.holdsOutput }) (replacing act)

/-- Runs `act` inside and gives what it writes, with the reason if it halts. -/
def capturedUntil (act : Act Unit) : Act (Raw × Option Halt) :=
  restoring (fun before s => { s with written := before.written, streams := before.streams }) do
    modify fun s => { s.setSink 1 (some .out) with written := [] }
    let halted ← try
        inside act
        pure none
      catch h => pure (some h)
    return ((← get).output, halted)

def captured (act : Act Unit) : Act Raw := do
  match ← capturedUntil act with
  | (cs, none) => return cs
  | (_, some h) => throw h

/-- Runs `act` where its failure is looked at. -/
def looking (act : Act Unit) : Act Unit :=
  restoring (fun before s => { s with lookedAt := before.lookedAt }) do
    modify fun s => { s with lookedAt := true }
    act

/-- Ends a strict interpreter whose command has failed. -/
def checked : Act Unit := do
  let s ← get
  if s.strict && !s.lookedAt && s.status != 0 then throw .exited

/-- Keeps the places of the streams, and of the input if `replacesInput`. -/
def withStreams (replacesInput : Bool) (act : Act Unit) : Act Unit :=
  restoring (fun before s =>
    let s := { s with streams := before.streams }
    if replacesInput then { s with input := before.input, ended := before.ended } else s) act

end Act
end LanguageClient.Machine
