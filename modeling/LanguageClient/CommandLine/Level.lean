import LanguageClient.Path
import LanguageClient.Text.Ascii

namespace LanguageClient.CommandLine

inductive Fault where
  | help
  | nothingGiven
  | noCommand
  | unknownCommand
  | unknownArgument
  | missingArgument
  | badNumber
  | emptyValue
  | repeated
  | unwantedValue
  deriving DecidableEq, Repr

/-- What an argument is to be. Counts of the first kind may be written as a zero with a minus sign. -/
inductive Kind where
  | path
  | text
  | place
  | time
  deriving DecidableEq, Repr

inductive Value where
  | path (p : Path)
  | text (s : String)
  | number (n : Nat)
  | flag
  deriving DecidableEq, Repr

def minusZero (cs : List Char) : Bool :=
  match cs with
  | '-' :: digits => !digits.isEmpty && digits.all (· == '0')
  | _ => false

def Kind.read (k : Kind) (s : String) : Except Fault Value :=
  match k with
  | .path => if s.isEmpty then .error .emptyValue else .ok (.path (Path.ofText s))
  | .text => .ok (.text s)
  | .place =>
    if minusZero s.toList then .ok (.number 0)
    else match Text.natBelow? UInt32.size s.toList with
      | some n => .ok (.number n)
      | none => .error .badNumber
  | .time =>
    match Text.natBelow? UInt64.size s.toList with
    | some n => .ok (.number n)
    | none => .error .badNumber

/-- The arguments that a level takes. A level with commands takes no positional ones. -/
structure Form where
  positionals : List (String × Kind) := []
  options : List (String × Kind) := []
  flags : List String := []
  commands : List String := []

def Form.kind? (f : Form) (name : String) : Option Kind :=
  f.positionals.lookup name <|> f.options.lookup name

/-- A level that has been read so far. `awaitsValue` says that the last argument was an option whose
value may follow, and `plain` that only positional arguments are left. -/
structure Level where
  form : Form
  given : List (String × Value) := []
  pending : Option (String × Option String) := none
  filled : Nat := 0
  awaitsValue : Bool := false
  plain : Bool := false

namespace Level

def give (l : Level) (name : String) (v : Value) : Except Fault Level :=
  if (l.given.lookup name).isSome then .error .repeated
  else .ok { l with given := (name, v) :: l.given, pending := none }

def settle (l : Level) : Except Fault Level :=
  match l.pending with
  | none => .ok l
  | some (_, none) => .error .emptyValue
  | some (name, some s) =>
    if (l.given.lookup name).isSome then .error .repeated
    else match ((l.form.kind? name).getD .text).read s with
      | .ok v => l.give name v
      | .error e => .error e

def expect (l : Level) (name : String) (value : Option String) : Level :=
  { l with pending := some (name, value), awaitsValue := value.isNone }

def long (l : Level) (name : String) (value : Option String) : Except Fault Level :=
  if name = "help" then
    if value.isSome then .error .unwantedValue
    else do
      let _ ← l.settle
      .error .help
  else if l.form.flags.contains name then
    if value.isSome then .error .unwantedValue
    else do
      ({ (← l.settle) with awaitsValue := false }).give name .flag
  else if (l.form.options.lookup name).isSome then do
    let l := (← l.settle).expect name value
    if value.isSome then l.settle else .ok l
  else .error .unknownArgument

def short (l : Level) (letters : List Char) : Except Fault Level :=
  match letters with
  | 'h' :: _ => do
    let _ ← l.settle
    .error .help
  | _ => .error .unknownArgument

def positional (l : Level) (arg : String) : Except Fault Level := do
  let l ← l.settle
  match l.form.positionals[l.filled]? with
  | some (name, _) =>
    .ok { l.expect name (some arg) with filled := l.filled + 1 }
  | none =>
    if l.form.commands.isEmpty || (l.plain && l.form.commands.contains arg) then
      .error .unknownArgument
    else .error .unknownCommand

def splitValue (cs : List Char) : String × Option String :=
  match cs.dropWhile (· != '=') with
  | [] => (String.ofList cs, none)
  | _ :: rest => (String.ofList (cs.takeWhile (· != '=')), some (String.ofList rest))

def read (l : Level) (arg : String) : Except Fault Level :=
  if l.plain then l.positional arg
  else match arg.toList with
    | ['-', '-'] => .ok { l with plain := true }
    | '-' :: '-' :: rest =>
      let (name, value) := splitValue rest
      l.long name value
    | '-' :: c :: rest => l.short (c :: rest)
    | _ =>
      match l.pending with
      | some (name, none) => if l.awaitsValue then .ok (l.expect name (some arg)) else l.positional arg
      | _ => l.positional arg

/-- Ends a level: everything positional must be there. -/
def finish (l : Level) : Except Fault Level := do
  let l ← l.settle
  if l.filled < l.form.positionals.length then .error .missingArgument else .ok l

def path? (l : Level) (name : String) : Option Path :=
  match l.given.lookup name with
  | some (.path p) => some p
  | _ => none

def number? (l : Level) (name : String) : Option Nat :=
  match l.given.lookup name with
  | some (.number n) => some n
  | _ => none

def text? (l : Level) (name : String) : Option String :=
  match l.given.lookup name with
  | some (.text s) => some s
  | _ => none

def has (l : Level) (name : String) : Bool :=
  (l.given.lookup name).isSome

def readUpTo (l : Level) : List String → Except Fault (Level × Option (String × List String))
  | [] => .ok (l, none)
  | a :: rest =>
    if !l.plain && !l.awaitsValue && l.form.commands.contains a then .ok (l, some (a, rest))
    else do
      readUpTo (← l.read a) rest

end Level
end LanguageClient.CommandLine
