import LanguageClient.Link
import LanguageClient.Mailbox

namespace LanguageClient

/-- A link with the queue for the diagnostics that its server publishes. -/
structure Feed where
  link : Link
  mailbox : Mailbox Publication

namespace Feed

/-- Reads the next message. The reader never waits for the receiver of diagnostics. -/
def readNext? (f : Feed) : Option Feed :=
  match f.link.readNext? with
  | none => none
  | some (link, none) => some { f with link }
  | some (link, some published) => some { link, mailbox := f.mailbox.post published }

end Feed
end LanguageClient
