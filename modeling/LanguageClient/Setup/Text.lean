import LanguageClient.Setup
import LanguageClient.Toml.Reader

namespace LanguageClient.Setup

def ofText (s : String) : Except Fault Setup :=
  match Toml.ofString? s with
  | some v => ofJson true v
  | none => .error .malformed

end LanguageClient.Setup
