import LanguageClient.Text.Utf8
import LanguageClient.Text.Ascii

namespace LanguageClient

/-- A path in a file system: any bytes, with slashes between its steps. -/
structure Path where
  bytes : Bytes
  deriving DecidableEq, Repr, Inhabited

namespace Path

inductive Step where
  | root
  | here
  | up
  | name (bytes : Bytes)
  deriving DecidableEq, Repr, BEq

def slash : UInt8 := 0x2F

def dot : UInt8 := 0x2E

/-- The pieces between slashes, empty ones included. -/
def split : Bytes → List Bytes
  | [] => [[]]
  | b :: rest =>
    if b = slash then [] :: split rest
    else match split rest with
      | [] => [[b]]
      | piece :: pieces => (b :: piece) :: pieces

def ofText (s : String) : Path :=
  ⟨utf8 s⟩

def isAbsolute (p : Path) : Bool :=
  p.bytes.head? == some slash

def stepOf (piece : Bytes) : Option Step :=
  if piece = [] ∨ piece = [dot] then none
  else if piece = [dot, dot] then some .up
  else some (.name piece)

/-- The steps of a path. Repeated slashes count once, and a dot counts only in front of a relative
path. Two paths with the same steps are the same path. -/
def steps (p : Path) : List Step :=
  let pieces := split p.bytes
  let front := if p.isAbsolute then [.root] else if pieces.head? = some [dot] then [.here] else []
  front ++ pieces.filterMap stepOf

def Step.bytes : Step → Bytes
  | .root => [slash]
  | .here => [dot]
  | .up => [dot, dot]
  | .name n => n

/-- Goes from one path on along another; an absolute path leads to itself. -/
def append (p q : Path) : Path :=
  if q.isAbsolute then q
  else if p.bytes = [] ∨ p.bytes.getLast? = some slash then ⟨p.bytes ++ q.bytes⟩
  else ⟨p.bytes ++ slash :: q.bytes⟩

def ofSteps (steps : List Step) : Path :=
  steps.foldl (fun p s => p.append ⟨s.bytes⟩) ⟨[]⟩

/-- One more step, latest first: a step up takes back a name before it, and is dropped where there
is none. -/
def settle (done : List Step) : Step → List Step
  | .up =>
    match done with
    | .name _ :: rest => rest
    | _ => done
  | .here => done
  | s => s :: done

/-- The path without dots, followed by its text alone. -/
def normal (p : Path) : Path :=
  ofSteps (p.steps.foldl settle []).reverse

/-- A relative path is taken from the directory `cwd`. Two slashes at the front stay two, and a
slash at the end stays. The empty path has no place. -/
def absolute? (p cwd : Path) : Option Path :=
  if p.bytes = [] then none
  else
    let steps := p.steps.filter (· != .here)
    let placed :=
      if !p.isAbsolute then steps.foldl (fun q s => q.append ⟨s.bytes⟩) cwd
      else if [slash, slash].isPrefixOf p.bytes && !([slash, slash, slash].isPrefixOf p.bytes) then
        (steps.drop 1).foldl (fun q s => q.append ⟨s.bytes⟩) ⟨[slash, slash]⟩
      else ofSteps steps
    some (if p.bytes.getLast? = some slash then placed.append ⟨[]⟩ else placed)

/-- The name that the path ends in. -/
def fileName? (p : Path) : Option Bytes :=
  match p.steps.getLast? with
  | some (.name n) => some n
  | _ => none

def extension? (p : Path) : Option Bytes := do
  let name ← p.fileName?
  let after := name.reverse.takeWhile (· != dot)
  if after.length + 1 < name.length then some after.reverse else none

/-- The path as text for people; bytes that are not text show as replacement characters. -/
def display (p : Path) : String :=
  String.ofList (Utf8.lossy p.bytes)

end Path
end LanguageClient
