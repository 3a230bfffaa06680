import LanguageClient.Machine.Shell.Run

namespace LanguageClient.Machine

/-- A program that was started. It is run again over all of its input whenever there is more, so
`emitted` says how much of its output is known already; `slept` is the time that it has spent asleep. `listens` and
`speaks` say whether it has kept its input and its output. -/
structure Process where
  program : Raw
  arguments : List Raw
  environment : List (Raw × Raw) := []
  place : Path
  files : Files
  input : Bytes := []
  ended : Bool := false
  slept : Nat := 0
  emitted : Nat := 0
  listens : Bool := true
  speaks : Bool := true

namespace Process

/-- Where a process stands: it waits for input, it sleeps for a time, or it has come to its end by
itself or by a signal. -/
inductive State where
  | waiting
  | asleep (ms : Nat)
  | exited (code : Nat)
  | killed
  deriving DecidableEq, Repr

def State.isOver : State → Bool
  | exited _ | killed => true
  | waiting | asleep _ => false

def shell (p : Process) : Shell where
  bindings := p.environment
  exported := p.environment.map Prod.fst
  name := p.program
  place := p.place
  files := p.files
  input := Raw.ofBytes p.input
  ended := p.ended
  patience := p.slept

/-- More commands than any program carries out. -/
def longest : Nat := 1000000

/-- What a process writes with its input so far, where it stands then, and the interpreter behind
it. -/
def run (p : Process) : Raw × State × Shell :=
  let (r, s) :=
    (ExceptT.run (Act.program longest false p.program p.arguments) : StateM Shell _) p.shell
  (s.output, match r with
    | .ok _ => State.exited s.status
    | .error (.asleep ms) => .asleep ms
    | .error (.killed _ _) => .killed
    | .error .waiting => .waiting
    | .error _ => .exited s.status, s)

/-- Runs a process as far as it comes: what it writes that was not known before, and where it
stands. -/
def proceed (p : Process) : Bytes × State × Process :=
  let (output, state, s) := p.run
  (Raw.toBytes (output.drop p.emitted), state,
    { p with emitted := output.length, listens := s.holdsInput, speaks := s.holdsOutput })

def feed (p : Process) (bs : Bytes) : Process :=
  { p with input := p.input ++ bs }

def endInput (p : Process) : Process :=
  { p with ended := true }

def sleepFor (p : Process) (ms : Nat) : Process :=
  { p with slept := p.slept + ms }

def finish (p : Process) : Nat → Raw × State
  | 0 => (p.run.1, p.run.2.1)
  | n + 1 =>
    match p.run with
    | (_, .asleep ms, _) => finish (p.sleepFor ms) n
    | (output, state, _) => (output, state)

end Process

inductive StartFault where
  | notFound
  | refused (program reason : String)
  deriving DecidableEq, Repr

/-- The file of a program: one with a slash is its own, others are searched for. -/
def locate? (command : Raw) : Option Raw := do
  let tool ← Act.programName? command
  if Act.isInterpreter tool || tool = "env".toList || (Tools.program? tool).isSome then
    return if command.contains '/' then command else "/usr/bin/".toList ++ command
  else none

def start (files : Files) (environment : List (Raw × Raw)) (place : Path) (command : String)
    (arguments : List String) : Except StartFault Process :=
  let command := Raw.ofText command
  match locate? command with
  | none => .error .notFound
  | some file =>
    let refused := fun reason => Except.error (.refused (String.ofList file) reason)
    if arguments.any fun a => a.toList.contains '\x00' then
      refused "nul byte found in provided data"
    else match files.find place with
      | .error e => refused e.message
      | .ok (.file _) => refused SystemError.notDirectory.message
      | .ok .directory =>
        .ok {
          program := command
          arguments := arguments.map Raw.ofText
          environment
          place := place.normal
          files }

end LanguageClient.Machine
