import LanguageClient.Main
import LanguageClient.Rehearsal.Wire
import LanguageClient.Proofs.Message
import LanguageClient.Proofs.Link.Operations
import LanguageClient.Proofs.Link.Conversation
import LanguageClient.Proofs.Link.Waiting
import LanguageClient.Proofs.Link.Numbering
import LanguageClient.Proofs.Link.Replies
import LanguageClient.Proofs.Link.Cancelling
import LanguageClient.Proofs.Documents.Lines
import LanguageClient.Proofs.FileUri.Encoding
import LanguageClient.Proofs.Documents.Mentions
import LanguageClient.Proofs.Documents.Mirror
import LanguageClient.Proofs.Documents.Quiet
import LanguageClient.Proofs.Session.Coherence
import LanguageClient.Proofs.Session.Lives
import LanguageClient.Proofs.Session.DiskReads
import LanguageClient.Proofs.Text.Utf8
import LanguageClient.Proofs.Json.Scalar
import LanguageClient.Proofs.Json.ReadBack
import LanguageClient.Proofs.Frame.Header
import LanguageClient.Proofs.Frame.RoundTrip
import LanguageClient.Proofs.Frame.Cut
import LanguageClient.Proofs.Link.Closing
import LanguageClient.Proofs.Session.Works
import LanguageClient.Proofs.Session.Outcomes
import LanguageClient.Proofs.Session.Steps
import LanguageClient.Proofs.Session.Gate
import LanguageClient.Proofs.Session.Minding
import LanguageClient.Proofs.Session.OneServer
import LanguageClient.Proofs.Link.FirstAnswer
import LanguageClient.Proofs.Session.Recovery
import LanguageClient.Proofs.Workspace.Isolation
import LanguageClient.Proofs.Link.Consumer
import LanguageClient.Proofs.Link.Greeting
import LanguageClient.Proofs.Session.Aside
import LanguageClient.Proofs.Session.Handshake
import LanguageClient.Proofs.Session.Ordering
import LanguageClient.Proofs.Link.Delivery
import LanguageClient.Proofs.Session.Transient
import LanguageClient.Proofs.Session.Stages
import LanguageClient.Proofs.Session.Parting
import LanguageClient.Proofs.Session.Callers
import LanguageClient.Proofs.Session.Shutdown
import LanguageClient.Proofs.Link.Routing
import LanguageClient.Proofs.Link.Fatality
import LanguageClient.Proofs.Session.Fatality
import LanguageClient.Proofs.Answer.Edits
import LanguageClient.Proofs.Query
import LanguageClient.Proofs.Session.Lasting
import LanguageClient.Proofs.Session.Answering
import LanguageClient.Proofs.Session.Renaming
import LanguageClient.Proofs.Session.Abilities
import LanguageClient.Proofs.Text.Decoding
import LanguageClient.Proofs.Frame.Grammar
import LanguageClient.Proofs.Frame.Consumption
import LanguageClient.Proofs.Inflight.Registrations
import LanguageClient.Proofs.Inflight.Accounts
import LanguageClient.Proofs.Session.Trail
import LanguageClient.Proofs.Session.Passing
import LanguageClient.Proofs.Session.Status
import LanguageClient.Proofs.Table
import LanguageClient.Proofs.Path.Steps
import LanguageClient.Proofs.Path.Normal
import LanguageClient.Proofs.FileUri.Reading
import LanguageClient.Proofs.Documents.Cuts
import LanguageClient.Proofs.Session.Locating
import LanguageClient.Proofs.Workspace.Paths
import LanguageClient.Proofs.Answer.Markup
import LanguageClient.Proofs.Answer.Rearranging
import LanguageClient.Proofs.Message.Rebuilding
import LanguageClient.Proofs.Link.Publishing
import LanguageClient.Proofs.Setup.Routes
import LanguageClient.Proofs.Setup.Routing
import LanguageClient.Proofs.Session.Limits
import LanguageClient.Proofs.Setup.Waits
import LanguageClient.Proofs.Position.Overlap
import LanguageClient.Proofs.CommandLine.Collecting
