import Yaldabaoth.Proofs.Pump.Stamp
import Yaldabaoth.Proofs.Session.Fencing
import Yaldabaoth.Proofs.Session.Openings
import Yaldabaoth.Proofs.Session.Turns
import Yaldabaoth.Proofs.Wal.Recovery
import Yaldabaoth.Proofs.Wal.TornAppend
import Yaldabaoth.Lib.Effect
import Yaldabaoth.Model.CogWire
import Yaldabaoth.Model.DeliveryJournal
import Yaldabaoth.Proofs.Cog.JournalFile
import Yaldabaoth.Proofs.Cog.JournalFaults
import Yaldabaoth.Proofs.Cog.JournalCrashes
import Yaldabaoth.Model.DeliveryCoordinator
import Yaldabaoth.Model.CogHost
import Yaldabaoth.Proofs.Cog.Operations
import Yaldabaoth.Proofs.Cog.Agreement
import Yaldabaoth.Proofs.Cog.Handover
import Yaldabaoth.Proofs.Cog.Results
import Yaldabaoth.Lib.Backlog
import Yaldabaoth.Model.AgentTranscript
import Yaldabaoth.Proofs.Client.UserTurns
import Yaldabaoth.Model.AgentEventJson
import Yaldabaoth.Proofs.Codec.AgentEvents
import Yaldabaoth.Lib.LogWindow
import Yaldabaoth.Proofs.Session.Windows
import Yaldabaoth.Proofs.Session.Steps
import Yaldabaoth.Proofs.Session.Replay
import Yaldabaoth.Lib.IntentLog
import Yaldabaoth.Model.Crew
import Yaldabaoth.Proofs.Session.Desk
import Yaldabaoth.Proofs.Session.DeskSteps
import Yaldabaoth.Proofs.Session.Crew
import Yaldabaoth.Proofs.Session.Prompts
import Yaldabaoth.Proofs.Session.PromptCrashes
import Yaldabaoth.Proofs.Session.Owed
import Yaldabaoth.Proofs.Session.Settlement
import Yaldabaoth.Lib.SplitTree
import Yaldabaoth.Model.DesktopState
import Yaldabaoth.Model.Frame
import Yaldabaoth.Proofs.Frame.Surgery
import Yaldabaoth.Lib.Holdings
import Yaldabaoth.Proofs.Frame.Operations
import Yaldabaoth.Proofs.Frame.Opening
import Yaldabaoth.Proofs.Frame.Tiles
import Yaldabaoth.Proofs.Frame.Focus
import Yaldabaoth.Proofs.Frame.Ephemeral
import Yaldabaoth.Model.Document
import Yaldabaoth.Model.FileSync
import Yaldabaoth.Proofs.Buffer.Echoes
import Yaldabaoth.Lib.Swaps
import Yaldabaoth.Model.Authorship
import Yaldabaoth.Proofs.Buffer.History
import Yaldabaoth.Proofs.Buffer.Undo
import Yaldabaoth.Proofs.Session.Compaction
import Yaldabaoth.Proofs.Wal.Repair
import Yaldabaoth.Proofs.Cog.Renewals
import Yaldabaoth.Model.AgentState
import Yaldabaoth.Model.DirectTile
import Yaldabaoth.Proofs.Client.DirectTurns
import Yaldabaoth.Model.SessionLog
import Yaldabaoth.Proofs.Client.Deliveries
import Yaldabaoth.Proofs.Client.TurnEnds
import Yaldabaoth.Model.WakeReader
import Yaldabaoth.Proofs.Cog.Wakes
import Yaldabaoth.Proofs.Client.Compactions
import Yaldabaoth.Proofs.Buffer.Changes
import Yaldabaoth.Model.Timeline
import Yaldabaoth.Proofs.Buffer.Rows
import Yaldabaoth.Proofs.Buffer.Timeline
import Yaldabaoth.Proofs.Buffer.LineEndings
import Yaldabaoth.Proofs.Buffer.SavePoint
import Yaldabaoth.Proofs.Buffer.ParseEdits
import Yaldabaoth.Lib.UriAuthority
import Yaldabaoth.Model.CogTransport
import Yaldabaoth.Proofs.Cog.Loopback
import Yaldabaoth.Lib.Spans
import Yaldabaoth.Model.Editor
import Yaldabaoth.Proofs.Buffer.Guards
import Yaldabaoth.Proofs.Buffer.FrozenText
import Yaldabaoth.Proofs.Buffer.Shifts
import Yaldabaoth.Lib.Maps
import Yaldabaoth.Model.Projects
import Yaldabaoth.Proofs.Frame.Projects
import Yaldabaoth.Model.PersistedFrame
import Yaldabaoth.Proofs.Frame.AgentOwners
import Yaldabaoth.Model.DocFolds
import Yaldabaoth.Proofs.Doc.FoldLayout
import Yaldabaoth.Proofs.Doc.Folds
import Yaldabaoth.Proofs.Doc.Rekey
import Yaldabaoth.Lib.Assoc
import Yaldabaoth.Proofs.Frame.Arrangements
import Yaldabaoth.Model.ChatBridge
import Yaldabaoth.Proofs.Bridge.Mirror
import Yaldabaoth.Proofs.Bridge.Topics
import Yaldabaoth.Lib.TextLines
import Yaldabaoth.Model.DiffModel
import Yaldabaoth.Model.GitDiff
import Yaldabaoth.Proofs.Diff.Parsing
import Yaldabaoth.Proofs.Diff.Fidelity
import Yaldabaoth.Model.DiffRows
import Yaldabaoth.Model.DiffScript
import Yaldabaoth.Proofs.Diff.Headers
import Yaldabaoth.Proofs.Diff.Tiling
import Yaldabaoth.Proofs.Diff.Expansion
import Yaldabaoth.Model.ProjectsFile
import Yaldabaoth.Proofs.Frame.ProjectsFile
import Yaldabaoth.Model.SlotLabels
import Yaldabaoth.Proofs.Frame.SlotLabels
import Yaldabaoth.Model.Keybind
import Yaldabaoth.Proofs.Keys.Keystrokes
import Yaldabaoth.Proofs.Keys.Expiry
import Yaldabaoth.Model.Compose
import Yaldabaoth.Proofs.Compose.Draft
import Yaldabaoth.Lib.Utf8Text
import Yaldabaoth.Model.MdHighlight
import Yaldabaoth.Proofs.Highlight.Inlines
import Yaldabaoth.Proofs.Highlight.Tokens
import Yaldabaoth.Proofs.Highlight.Lines
import Yaldabaoth.Model.HighlightCache
import Yaldabaoth.Proofs.Highlight.Cache
import Yaldabaoth.Model.RenderedLine
import Yaldabaoth.Proofs.Highlight.Columns
import Yaldabaoth.Proofs.Highlight.Links
import Yaldabaoth.Lib.RangeTable
import Yaldabaoth.Model.CharCase
import Yaldabaoth.Proofs.Keys.CharCase
import Yaldabaoth.Model.KeyNotation
import Yaldabaoth.Proofs.Keys.Notation
import Yaldabaoth.Model.AnchorMaps
import Yaldabaoth.Proofs.Buffer.Anchors
import Yaldabaoth.Model.ToolPayload
import Yaldabaoth.Proofs.Client.Capping
import Yaldabaoth.Model.AgentViewModel
import Yaldabaoth.Proofs.View.Blocks
import Yaldabaoth.Proofs.View.Passes
import Yaldabaoth.Proofs.View.Rendered
import Yaldabaoth.Model.ReplyDrafts
import Yaldabaoth.Proofs.View.Drafts
import Yaldabaoth.Model.StreamedText
import Yaldabaoth.Model.ViewMemo
import Yaldabaoth.Proofs.View.Floors
import Yaldabaoth.Proofs.View.Memo
import Yaldabaoth.Lib.TreeEvents
import Yaldabaoth.Model.SessionStore
import Yaldabaoth.Model.Markdown
import Yaldabaoth.Model.MarkdownSource
import Yaldabaoth.Model.MarkdownTree
import Yaldabaoth.Model.SessionClient
import Yaldabaoth.Proofs.Client.Frames
import Yaldabaoth.Proofs.Session.Store
import Yaldabaoth.Proofs.Buffer.LockedPrefix
import Yaldabaoth.Proofs.Markdown.Events
import Yaldabaoth.Proofs.Markdown.Inline
import Yaldabaoth.Proofs.Markdown.Rendering
import Yaldabaoth.Proofs.Markdown.SourceMap
import Yaldabaoth.Proofs.Markdown.Outline
