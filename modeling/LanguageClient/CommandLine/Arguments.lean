import LanguageClient.CommandLine.Level
import LanguageClient.Position

namespace LanguageClient.CommandLine

inductive Command where
  | symbols (file : Path)
  | hover (file : Path) (at_ : Position)
  | definition (file : Path) (at_ : Position)
  | references (file : Path) (at_ : Position) (noDeclaration : Bool)
  | rename (file : Path) (at_ : Position) (newName : String)
  | completion (file : Path) (at_ : Position)
  | diagnostics (file : Path) (waitMs : Nat)
  | status
  deriving DecidableEq, Repr

def Command.file? : Command → Option Path
  | .symbols f | .hover f _ | .definition f _ | .references f _ _ | .rename f _ _
  | .completion f _ | .diagnostics f _ => some f
  | .status => none

/-- A whole command line: where the settings are, the root, and the command. -/
structure Arguments where
  config : Option Path
  root : Option Path
  command : Command
  deriving DecidableEq, Repr

namespace Arguments

/-- Options that may stand on every level. -/
def everywhere : List (String × Kind) :=
  [("config", .path), ("root", .path)]

def file : String × Kind := ("file", .path)

def inFile : List (String × Kind) :=
  [file, ("line", .place), ("character", .place)]

def commands : List (String × Form) := [
  ("symbols", { positionals := [file], options := everywhere }),
  ("hover", { positionals := inFile, options := everywhere }),
  ("definition", { positionals := inFile, options := everywhere }),
  ("references", { positionals := inFile, options := everywhere, flags := ["no-declaration"] }),
  ("rename", { positionals := inFile ++ [("new-name", .text)], options := everywhere }),
  ("completion", { positionals := inFile, options := everywhere }),
  ("diagnostics", { positionals := [file], options := ("wait-ms", .time) :: everywhere }),
  ("status", { options := everywhere })]

def helpCommand : String := "help"

def program : Form where
  options := everywhere
  commands := commands.map Prod.fst ++ [helpCommand]

/-- How long diagnostics are collected if nothing else is said, in milliseconds. -/
def usualWait : Nat := 3000

def command? (name : String) (l : Level) : Option Command := do
  if name = "status" then return .status
  let file ← l.path? "file"
  if name = "symbols" then return .symbols file
  if name = "diagnostics" then return .diagnostics file ((l.number? "wait-ms").getD usualWait)
  let at_ : Position := ⟨(← l.number? "line").toUInt32, (← l.number? "character").toUInt32⟩
  match name with
  | "hover" => return .hover file at_
  | "definition" => return .definition file at_
  | "references" => return .references file at_ (l.has "no-declaration")
  | "rename" => return .rename file at_ (← l.text? "new-name")
  | "completion" => return .completion file at_
  | _ => none

/-- Asks for help about commands, of which there is only one level. -/
def helpAbout (names : List String) : Fault :=
  match names with
  | [] => .help
  | [name] => if program.commands.contains name then .help else .unknownCommand
  | _ => .unknownCommand

/-- Reads a command line. What a command is given beats what stands before it. -/
def read (args : List String) : Except Fault Arguments := do
  match ← Level.readUpTo { form := program } args with
  | (outer, none) =>
    let outer ← outer.finish
    .error (if outer.given.isEmpty then .nothingGiven else .noCommand)
  | (outer, some (name, rest)) =>
    match commands.lookup name with
    | none => .error (helpAbout rest)
    | some form =>
      let inner ← rest.foldlM Level.read { form }
      let inner ← inner.finish
      let outer ← outer.finish
      match command? name inner with
      | some command =>
        .ok { config := inner.path? "config" <|> outer.path? "config"
              root := inner.path? "root" <|> outer.path? "root"
              command }
      | none => .error .missingArgument

end Arguments
end LanguageClient.CommandLine
