import AsterBridge.Address
import AsterBridge.AddressLists
import AsterBridge.Auth.AppPasswords
import AsterBridge.Auth.DeviceIdentity
import AsterBridge.Auth.Refresh
import AsterBridge.Auth.Session
import AsterBridge.Crypto.Attachment
import AsterBridge.Crypto.Bootstrap
import AsterBridge.Crypto.Bundles
import AsterBridge.Crypto.EnvelopeReaders
import AsterBridge.Crypto.Envelopes
import AsterBridge.Crypto.InternalSend
import AsterBridge.Crypto.KeyRotation
import AsterBridge.Crypto.PinRuns
import AsterBridge.Crypto.PinWrites
import AsterBridge.Crypto.Ratchet
import AsterBridge.Crypto.RecipientTrust
import AsterBridge.Crypto.SealedBodies
import AsterBridge.Dav.Card
import AsterBridge.Dav.ReadCard
import AsterBridge.Dav.RoundTrip
import AsterBridge.Dav.Store
import AsterBridge.Dav.VCard
import AsterBridge.Dav.Writes
import AsterBridge.Db.Cache
import AsterBridge.Db.ChangeLog
import AsterBridge.Db.DataDir
import AsterBridge.Db.Database
import AsterBridge.Db.Encryption
import AsterBridge.Db.FlagPush
import AsterBridge.Db.History
import AsterBridge.Db.Outbox
import AsterBridge.Db.SearchIndex
import AsterBridge.Db.SignOut
import AsterBridge.Db.Uids
import AsterBridge.Db.WireSizes
import AsterBridge.Error
import AsterBridge.Folders.Directory
import AsterBridge.Folders.FolderOps
import AsterBridge.Folders.Forest
import AsterBridge.Folders.Tree
import AsterBridge.Imap.ConcurrentFlags
import AsterBridge.Imap.FlagPushRuns
import AsterBridge.Imap.FlagPushes
import AsterBridge.Imap.Heartbeat
import AsterBridge.Imap.AppendRuns
import AsterBridge.Imap.ImportRuns
import AsterBridge.Imap.ListPatterns
import AsterBridge.Imap.Mutf7
import AsterBridge.Imap.Mutf7Wire
import AsterBridge.Imap.Search
import AsterBridge.Imap.SearchLiterals
import AsterBridge.Imap.SearchMeaning
import AsterBridge.Imap.SearchShortcuts
import AsterBridge.Imap.SequenceNumbers
import AsterBridge.Imap.SequenceSets
import AsterBridge.Imap.StoreFlags
import AsterBridge.Imap.Strings
import AsterBridge.Imap.UidValidity
import AsterBridge.Jmap.Blob
import AsterBridge.Jmap.CacheRepair
import AsterBridge.Jmap.ChangesClient
import AsterBridge.Jmap.ChangesPaging
import AsterBridge.Jmap.EmailFilter
import AsterBridge.Jmap.EmailStore
import AsterBridge.Jmap.FilterMeaning
import AsterBridge.Jmap.ResultReferences
import AsterBridge.Jmap.Snippets
import AsterBridge.Jmap.StateStrings
import AsterBridge.Jmap.Submission
import AsterBridge.Lib.Ancestry
import AsterBridge.Lib.Base64
import AsterBridge.Lib.Budget
import AsterBridge.Lib.Faults
import AsterBridge.Lib.Html
import AsterBridge.Lib.Index
import AsterBridge.Lib.Journal
import AsterBridge.Lib.Json
import AsterBridge.Lib.JsonForms
import AsterBridge.Lib.JsonText
import AsterBridge.Lib.Ledger
import AsterBridge.Lib.Lines
import AsterBridge.Lib.Locks
import AsterBridge.Lib.Multipart
import AsterBridge.Lib.Pieces
import AsterBridge.Lib.Runs
import AsterBridge.Lib.Serial
import AsterBridge.Lib.Splits
import AsterBridge.Lib.SqlExpr
import AsterBridge.Lib.Table
import AsterBridge.Lib.Tasks
import AsterBridge.Lib.Text
import AsterBridge.Lib.Transcript
import AsterBridge.Lib.Unicode
import AsterBridge.Lib.Utf16
import AsterBridge.Lib.Utf8
import AsterBridge.LineReaders
import AsterBridge.Outbox.Process
import AsterBridge.Outbox.Runs
import AsterBridge.Pop3.Maildrop
import AsterBridge.Pop3.Sessions
import AsterBridge.Pop3.Wire
import AsterBridge.Ports.Config
import AsterBridge.Ports.Plan
import AsterBridge.Render.HeaderBlocks
import AsterBridge.Render.Headers
import AsterBridge.Render.Layout
import AsterBridge.Render.LegacyNote
import AsterBridge.Render.LineBreaks
import AsterBridge.Render.Message
import AsterBridge.Render.MessageSizes
import AsterBridge.Render.Mime
import AsterBridge.Render.Notes
import AsterBridge.Render.Sections
import AsterBridge.Render.Sizes
import AsterBridge.Shutdown
import AsterBridge.Smtp.Framing
import AsterBridge.Smtp.Payload
import AsterBridge.Smtp.ReplyThread
import AsterBridge.Smtp.Retry
import AsterBridge.Smtp.Session
import AsterBridge.Smtp.Transactions
import AsterBridge.Sync.AttachmentRuns
import AsterBridge.Sync.Attachments
import AsterBridge.Sync.History
import AsterBridge.Sync.HistoryRuns
import AsterBridge.Sync.ListingPage
import AsterBridge.Sync.MailItem
import AsterBridge.Sync.PageReports
import AsterBridge.Sync.PendingFlags
import AsterBridge.Sync.UidMap
import AsterBridge.Sync.UidRuns
import AsterBridge.Sync.Views
import AsterBridge.Tags.Keywords
import AsterBridge.Tags.Labels
import AsterBridge.Tags.Slots
