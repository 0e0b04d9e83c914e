import Mathlib.Data.List.Infix
import Yaldabaoth.Lib.Json

/-!
# `Yaldabaoth.Model.Wire`: the agent-fact and notification vocabulary

The types of `agent_event.rs`, `session_proto.rs` and the part of
`acp_channel.rs` they are built from: what the worker reports
(`ReplyEvent`), the one canonical agent fact (`AgentEvent`), and what
a session's log holds (`Notification`).

Types of the agent protocol itself (`ToolCall`, `ToolCallUpdate`,
`Plan`, `SessionModeId`) come from a library and are only carried, so
they wrap the JSON value they stand for. Paths and ids are strings;
`u64` and `usize` values are `Nat`, and the one place where their
width decides a result says so with `u64Max`.
-/

set_option autoImplicit false

namespace Yaldabaoth

/-! ### Scalars -/

/-- The largest value of a Rust `u64`. -/
def u64Max : Nat := 18446744073709551615

/-- `u64::saturating_add`. -/
def saturatingAdd (a b : Nat) : Nat := min (a + b) u64Max

/-- `u64::checked_add`. -/
def checkedAdd (a b : Nat) : Option Nat := if a + b ≤ u64Max then some (a + b) else none

/-- A server session id. -/
abbrev ServerSessionId := String

/-- A file system path. -/
abbrev PathBuf := String

/-! ### `acp_channel.rs`: settings and prompts -/

inductive AgentProvider where
  | claude
  | codex
deriving Repr, DecidableEq, Inhabited

inductive PermissionMode where
  | readOnly
  | autoEdit
  | askEachTime
  | yolo
deriving Repr, DecidableEq, Inhabited

structure ImageAttachment where
  data : String
  mimeType : String
deriving Repr, DecidableEq, Inhabited

structure PromptPayload where
  text : String
  textBlocks : List String
  images : List ImageAttachment
deriving Repr, DecidableEq, Inhabited

/-- A Rust `f64`: the number a decimal text stands for, or none. -/
inductive F64 where
  | finite (text : String)
  | infinite (negative : Bool)
  | nan
deriving Repr, DecidableEq

structure UsageSnapshot where
  tokensUsed : Nat
  tokensTotal : Nat
  costUsd : Option F64
deriving Repr, DecidableEq

structure ModelOption where
  id : String
  label : String
deriving Repr, DecidableEq

structure AgentCommand where
  name : String
  description : String
deriving Repr, DecidableEq

/-! ### Payloads of the agent protocol, carried as they are -/

structure ToolCall where
  value : Json
deriving Repr, DecidableEq

structure ToolCallUpdate where
  value : Json
deriving Repr, DecidableEq

structure Plan where
  value : Json
deriving Repr, DecidableEq

structure SessionModeId where
  id : String
deriving Repr, DecidableEq

/-! ### `agent_event.rs` -/

inductive ChunkRole where
  | message
  | thought
deriving Repr, DecidableEq

inductive NoticeKind where
  | retry
  | info
deriving Repr, DecidableEq

/-- How a turn ended. `replayEnd` marks the end of a replayed prefix
and is no end of a live turn. -/
inductive TurnOutcome where
  | completed
  | cancelled
  | maxTokens
  | refusal
  | failed (msg : String)
  | replayEnd
deriving Repr, DecidableEq

inductive AgentEventKind where
  | channelOpened (resumed : Bool)
  | chunk (text : String) (role : ChunkRole)
  | toolCallStarted (toolCall : ToolCall)
  | toolCallUpdated (update : ToolCallUpdate)
  | planUpdated (plan : Plan)
  | modeChanged (mode : SessionModeId)
  | modelChanged (model : String)
  | modelsAvailable (current : String) (options : List ModelOption)
  | availableCommands (commands : List AgentCommand)
  | usageUpdated (usage : UsageSnapshot)
  | notice (kind : NoticeKind) (msg : String)
  | userMessage (text : String)
  | turnEnded (outcome : TurnOutcome)
  | compactedSummary (throughTurn : Nat) (summary : String)
  | unknown (tag : String) (raw : Json)
deriving Repr, DecidableEq

/-- One agent fact under its identity envelope. -/
structure AgentEvent where
  sessionId : ServerSessionId
  generation : Nat
  turn : Nat
  seq : Nat
  kind : AgentEventKind
deriving Repr, DecidableEq

/-! ### `acp_channel.rs`: what the worker reports -/

inductive ReplyEvent where
  | chunk (text : String)
  | availableCommands (commands : List AgentCommand)
  | toolCallStarted (toolCall : ToolCall)
  | toolCallUpdated (update : ToolCallUpdate)
  | planUpdated (plan : Plan)
  | modeChanged (mode : SessionModeId)
  | modelChanged (model : String)
  | modelsAvailable (current : String) (options : List ModelOption)
  | usageUpdated (usage : UsageSnapshot)
  | notice (msg : String)
  | userMessage (text : String)
  | replayComplete
  | turnEnded (count : Nat)
  | turnSettled (count : Nat) (outcome : TurnOutcome)
deriving Repr, DecidableEq

/-- `TurnSettled`, the boundary only the pump reads. -/
def ReplyEvent.isTurnSettled : ReplyEvent → Bool
  | .turnSettled _ _ => true
  | _ => false

/-- `msg.contains(word)`. -/
def contains (msg word : String) : Bool := decide (word.toList <:+: msg.toList)

/-- The canonical kind of a reply; `none` for the boundaries, whose
envelope the caller builds. -/
def agentKindFromReply : ReplyEvent → Option AgentEventKind
  | .chunk text => some (.chunk text .message)
  | .toolCallStarted tc => some (.toolCallStarted tc)
  | .toolCallUpdated u => some (.toolCallUpdated u)
  | .planUpdated p => some (.planUpdated p)
  | .modeChanged m => some (.modeChanged m)
  | .modelChanged m => some (.modelChanged m)
  | .modelsAvailable current options => some (.modelsAvailable current options)
  | .availableCommands commands => some (.availableCommands commands)
  | .usageUpdated s => some (.usageUpdated s)
  | .notice msg =>
      some (.notice (if contains msg "retry" || contains msg "retrying" then .retry else .info) msg)
  | .userMessage text => some (.userMessage text)
  | .replayComplete => none
  | .turnEnded _ => none
  | .turnSettled _ _ => none

/-- The `TurnEnded` kind of a settled live turn. -/
def turnEndedKind (outcome : TurnOutcome) : AgentEventKind := .turnEnded outcome

/-- The end of a replayed prefix. -/
def replayEndKind : AgentEventKind := .turnEnded .replayEnd

/-- The first-event kind of a channel. -/
def channelOpenedKind (resumed : Bool) : AgentEventKind := .channelOpened resumed

/-! ### `session_proto.rs` -/

structure SessionInfo where
  sessionId : ServerSessionId
  acpSessionId : Option String
  label : String
  cwd : PathBuf
  provider : AgentProvider
  turns : Nat
  connected : Bool
  permissionMode : PermissionMode
  busy : Bool
  archived : Bool
deriving Repr, DecidableEq

inductive Notification where
  | agent (event : AgentEvent)
  | replyEvent (sessionId : ServerSessionId) (event : ReplyEvent)
  | turnEnded (sessionId : ServerSessionId) (turnCount generation : Nat)
  | userPrompt (sessionId : ServerSessionId) (text : String)
  | sessionAttached (sessionId : ServerSessionId) (acpSessionId : Option String)
  | sessionDetached (sessionId : ServerSessionId) (reason : String)
  | sessionCreated (session : SessionInfo)
  | sessionClosed (sessionId : ServerSessionId)
  | sessionBusy (sessionId : ServerSessionId) (busy : Bool)
  | sessionConnected (sessionId : ServerSessionId) (connected : Bool)
  | sessionRenamed (sessionId : ServerSessionId) (label : String)
  | sessionArchived (sessionId : ServerSessionId) (archived : Bool)
  | promptRejected (sessionId : ServerSessionId) (reason text : String)
deriving Repr, DecidableEq

namespace Notification

/-- The agent fact of a notification, if it carries one. -/
@[simp] def agent? : Notification → Option AgentEvent
  | .agent event => some event
  | _ => none

/-- The number of the turn a legacy `TurnEnded` closes. -/
@[simp] def turnCount? : Notification → Option Nat
  | .turnEnded _ turnCount _ => some turnCount
  | _ => none

end Notification

/-- The envelope turn of an agent fact that ends a live turn. -/
def AgentEvent.settledTurn? (event : AgentEvent) : Option Nat :=
  match event.kind with
  | .turnEnded .replayEnd => none
  | .turnEnded _ => some event.turn
  | _ => none

end Yaldabaoth
