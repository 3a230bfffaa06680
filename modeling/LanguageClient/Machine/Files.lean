import LanguageClient.Path
import LanguageClient.SystemError

namespace LanguageClient.Machine

/-- What a file system holds, by the names that lead there from the root: the bytes of a file, or
nothing for a directory. Directories above an entry are there too. -/
structure Files where
  entries : List (List Bytes × Option Bytes) := [([], none), ([utf8 "tmp"], none)]

namespace Files

def names (p : Path) : List Bytes :=
  p.steps.filterMap fun
    | .name n => some n
    | _ => none

def add (fs : Files) (p : Path) (content : Option Bytes) : Files :=
  ⟨fs.entries ++ [(names p, content)]⟩

inductive Entry where
  | file (content : Bytes)
  | directory

def lookup? (fs : Files) (at_ : List Bytes) : Option Entry :=
  match fs.entries.findRev? (·.1 == at_) with
  | some (_, some content) => some (.file content)
  | some (_, none) => some .directory
  | none => if fs.entries.any fun e => at_.isPrefixOf e.1 then some .directory else none

def longestName : Nat := 255

def longestPath : Nat := 4096

/-- Walks along names from the root. The way leads through directories only. -/
def walk (fs : Files) : List Bytes → List Bytes → Except SystemError Entry
  | done, [] =>
    match fs.lookup? done with
    | some e => .ok e
    | none => .error .notFound
  | done, n :: rest =>
    match fs.lookup? done with
    | some .directory =>
      if longestName < n.length then .error .nameTooLong else walk fs (done ++ [n]) rest
    | some (.file _) => .error .notDirectory
    | none => .error .notFound

/-- What a path leads to. Steps up are taken as they come in the text of the path. -/
def find (fs : Files) (p : Path) : Except SystemError Entry :=
  if p.bytes.contains 0 then .error .nulInPath
  else if longestPath ≤ p.bytes.length then .error .nameTooLong
  else walk fs [] (names p.normal)

def read (fs : Files) (p : Path) : Except SystemError Bytes :=
  match fs.find p with
  | .ok (.file content) => .ok content
  | .ok .directory => .error .isDirectory
  | .error e => .error e

/-- Makes a file, or replaces its content. There has to be a directory to hold it. -/
def write (fs : Files) (p : Path) (content : Bytes) : Except SystemError Files :=
  match fs.find p with
  | .ok .directory => .error .isDirectory
  | .ok (.file _) => .ok (fs.add p.normal (some content))
  | .error e =>
    match walk fs [] (names p.normal).dropLast with
    | .ok .directory => if e = .notFound then .ok (fs.add p.normal (some content)) else .error e
    | _ => .error e

def list (fs : Files) (p : Path) : List Bytes :=
  let place := names p.normal
  (fs.entries.filterMap fun (at_, _) =>
    if place.isPrefixOf at_ then (at_.drop place.length).head? else none).eraseDups

def isDirectory (fs : Files) (p : Path) : Bool :=
  match fs.find p with
  | .ok .directory => true
  | _ => false

def isFile (fs : Files) (p : Path) : Bool :=
  match fs.find p with
  | .ok (.file _) => true
  | _ => false

end Files
end LanguageClient.Machine
