import LanguageClient.CommandLine.Run

namespace LanguageClient.CommandLine

def usage : String :=
  "Usage: polyglot [--config <CONFIG>] [--root <ROOT>] <COMMAND>"

def takeOver (files : Machine.Files) (p : Path) : IO Machine.Files := do
  try
    let place ← IO.FS.realPath p.display
    if ← place.isDir then return files.add p none
    return files.add p (some (← IO.FS.readBinFile place).toList)
  catch _ => return files

end LanguageClient.CommandLine

open LanguageClient CommandLine in
/-- The program. It spawns no command: every server runs in the interpreter of `Machine`, over the
files that were taken over before. -/
def main (args : List String) : IO UInt32 := do
  let place := Path.ofText (← IO.currentDir).toString
  let home ← IO.getEnv "HOME"
  let bare : Surroundings := { place, home := home.map Path.ofText, files := {} }
  let files ← (bare.concerned args).foldlM takeOver {}
  let ending := CommandLine.run { bare with files } args
  match ending with
  | .printed _ => (← IO.getStdout).putStr (ending.output?.getD "")
  | .failed m => (← IO.getStderr).putStrLn s!"Error: {m}"
  | .panicked => (← IO.getStderr).putStrLn "attempt to add with overflow"
  | .refused .help => (← IO.getStdout).putStrLn usage
  | .refused _ => (← IO.getStderr).putStrLn usage
  return ending.exitCode.toUInt32
