import ImapToJmap.Core.UidMap
import ImapToJmap.Core.Race
import ImapToJmap.Core.View
import ImapToJmap.Commands.Expunge
import ImapToJmap.Commands.CopyMove
import ImapToJmap.Commands.SavedSearch
import ImapToJmap.Commands.Linked
import ImapToJmap.Core.Writer
import ImapToJmap.Commands.Session
import ImapToJmap.Commands.Snapshot
import ImapToJmap.Core.Authenticate
import ImapToJmap.Core.Ingest
import ImapToJmap.Core.Leftover
import ImapToJmap.Core.RoundTrip
import ImapToJmap.Imap.Access
import ImapToJmap.Imap.Frame
import ImapToJmap.Imap.Upgrade
import ImapToJmap.ManageSieve.Access
import ImapToJmap.Imap.Residue
import ImapToJmap.ManageSieve.Upgrade
import ImapToJmap.ManageSieve.Residue
import ImapToJmap.Imap.Split
import ImapToJmap.Protocol.Writer
import ImapToJmap.Protocol.Utf7
import ImapToJmap.Protocol.Listing
import ImapToJmap.Core.Vanished
import ImapToJmap.Core.Keyspace
import ImapToJmap.Core.Modseq
import ImapToJmap.Mailboxes.Children
import ImapToJmap.Mailboxes.State
import ImapToJmap.Commands.Store
import ImapToJmap.Commands.Pattern
import ImapToJmap.Commands.UidExpunge
import ImapToJmap.Core.Synchronized
import ImapToJmap.Core.Listing
import ImapToJmap.Core.Announced
import ImapToJmap.Core.Purge
import ImapToJmap.Commands.Conditional
import ImapToJmap.Parser.SearchGrammar
import ImapToJmap.Commands.Unreported
import ImapToJmap.Mime.Section
import ImapToJmap.Parser.SequenceText
import ImapToJmap.Core.Budget
import ImapToJmap.Parser.FetchGrammar
import ImapToJmap.Parser.FetchText
import ImapToJmap.Commands.SearchResults
import ImapToJmap.Imap.Unwraps
import ImapToJmap.Protocol.Shifted
import ImapToJmap.Parser.Keyword
import ImapToJmap.Commands.ObjectId
import ImapToJmap.Mime.Size
import ImapToJmap.Mailboxes.Create
import ImapToJmap.Mailboxes.Delete
import ImapToJmap.Mailboxes.Paths
import ImapToJmap.Mailboxes.Rename
import ImapToJmap.Mailboxes.Differences
import ImapToJmap.Mailboxes.Refresh
import ImapToJmap.Core.Reuse
import ImapToJmap.Mailboxes.Walk
import ImapToJmap.Commands.Traversal
import ImapToJmap.Protocol.Accumulator
import ImapToJmap.Commands.Partial
import ImapToJmap.Protocol.Expunge
import ImapToJmap.Commands.Overlap
import ImapToJmap.Commands.Chunks
import ImapToJmap.Parser.Naming
import ImapToJmap.Parser.SearchMeaning
import ImapToJmap.Jmap.Query
import ImapToJmap.Commands.Matching
import ImapToJmap.Commands.Rights
import ImapToJmap.Commands.Thread
import ImapToJmap.Protocol.Values
import ImapToJmap.ManageSieve.Scripts
import ImapToJmap.Commands.List
import ImapToJmap.Commands.SavedOrder
