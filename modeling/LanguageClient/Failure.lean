import LanguageClient.Message
import LanguageClient.Path
import LanguageClient.SystemError

namespace LanguageClient

/-- Why an operation failed. Times are in milliseconds. -/
inductive Failure where
  | notInstalled (language command : String)
  | startFailed (language reason : String)
  | protocol (language message : String)
  | timedOut (language method : String) (elapsed : Nat)
  | crashed (language : String)
  | stopped (language : String)
  | refused (language method : String) (refusal : Refusal)
  | notOpen (path : Path)
  | noUri (path : Path)
  | unreadable (path : Path) (error : SystemError)
  | misnamed (language expected found : String)
  | system (error : SystemError)
  deriving DecidableEq, Repr

namespace Failure

def message : Failure → String
  | notInstalled l c => s!"{l}: language server `{c}` not found: cannot find binary path"
  | startFailed l r => s!"{l}: language server failed to start: {r}"
  | protocol l m => s!"{l}: protocol error: {m}"
  | timedOut l m t => s!"{l}: `{m}` timed out after {t}ms"
  | crashed l => s!"{l}: language server exited unexpectedly"
  | stopped l => s!"{l}: session stopped"
  | refused l m r => s!"{l}: `{m}` failed ({r.code}): {r.message}"
  | notOpen p => s!"document not open: {p.display}"
  | noUri p => s!"cannot convert path to file URI: {p.display}"
  | unreadable p e => s!"reading {p.display}: {e.message}"
  | misnamed l e f => s!"{l}: rename to `{e}` produced an edit with `{f}`"
  | system e => e.message

def language? : Failure → Option String
  | notInstalled l _ | startFailed l _ | protocol l _ | timedOut l _ _ | crashed l | stopped l
  | refused l _ _ | misnamed l _ _ => some l
  | notOpen _ | noUri _ | unreadable _ _ | system _ => none

/-- The connection that the failure came from serves no longer. -/
def isFatal : Failure → Bool
  | notInstalled _ _ | startFailed _ _ | protocol _ _ | crashed _ => true
  | _ => false

end Failure

/-- Why a connection takes no more requests. -/
inductive Closing where
  | exited
  | protocol (message : String)
  | shutdown
  deriving DecidableEq, Repr

def Closing.failure (language : String) : Closing → Failure
  | exited => .crashed language
  | protocol m => .protocol language m
  | shutdown => .stopped language

end LanguageClient
