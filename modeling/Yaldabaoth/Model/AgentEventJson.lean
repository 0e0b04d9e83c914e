import Yaldabaoth.Model.Wire

/-!
# `Yaldabaoth.Model.AgentEventJson`: agent events as JSON

The serializers of `agent_event.rs`: the derived ones of the envelope and
of the mirror enum `KnownKind`, and the hand-written ones of
`AgentEventKind`. A value is read from and written to a JSON tree as
`serde` sees it: the entries of an object in the order they came in, a
repeated key kept until something reads the object into a map
(`Json.collapse`). What the text of a tree is does not matter here.

The payloads that come from the agent-protocol library read themselves,
and a float is read from its text with best-effort precision; what these
readers return is a parameter (`Readers`).
-/

set_option autoImplicit false

namespace Yaldabaoth

open Json

/-! ### Scalars -/

def encodeU64 (n : Nat) : Json := .num (Nat.repr n)

/-- A `u64`: a number whose text is that of a natural number in range. -/
def decodeU64 : Json → Option Nat
  | .num text => text.toNat?.filter fun n => Nat.repr n == text && n ≤ u64Max
  | _ => none

def decodeString : Json → Option String
  | .str value => some value
  | _ => none

def decodeBool : Json → Option Bool
  | .bool value => some value
  | _ => none

/-- JSON has no text for the other floats. -/
def F64.encode : F64 → Json
  | .finite text => .num text
  | .infinite _ | .nan => .null

/-- `readF64` is the float parser. -/
def F64.decode (readF64 : String → F64) : Json → Option F64
  | .num text => some (readF64 text)
  | _ => none

/-! ### What `serde` derives -/

/-- A field of a struct: there once. -/
def field {α : Type} (es : Entries) (key : String) (decode : Json → Option α) : Option α :=
  match es.filter (·.1 == key) with
  | [(_, value)] => decode value
  | _ => none

/-- A field of type `Option`: it may be missing or `null`. -/
def optionalField {α : Type} (es : Entries) (key : String) (decode : Json → Option α) :
    Option (Option α) :=
  match es.filter (·.1 == key) with
  | [] => some none
  | [(_, .null)] => some none
  | [(_, value)] => (decode value).map some
  | _ => none

/-- An internally tagged enum: the tag, and the entries beside it. -/
def internallyTagged (key : String) : Json → Option (String × Entries)
  | .obj es =>
      (field es key decodeString).map fun tag => (tag, es.filter (·.1 != key))
  | _ => none

def decodeVec {α : Type} (decode : Json → Option α) : Json → Option (List α)
  | .arr items => items.mapM decode
  | _ => none

def ChunkRole.encode : ChunkRole → Json
  | .message => .str "message"
  | .thought => .str "thought"

def ChunkRole.decode : Json → Option ChunkRole
  | .str "message" => some .message
  | .str "thought" => some .thought
  | _ => none

def NoticeKind.encode : NoticeKind → Json
  | .retry => .str "retry"
  | .info => .str "info"

def NoticeKind.decode : Json → Option NoticeKind
  | .str "retry" => some .retry
  | .str "info" => some .info
  | _ => none

def TurnOutcome.encode : TurnOutcome → Json
  | .completed => .obj [("outcome", .str "completed")]
  | .cancelled => .obj [("outcome", .str "cancelled")]
  | .maxTokens => .obj [("outcome", .str "max_tokens")]
  | .refusal => .obj [("outcome", .str "refusal")]
  | .failed msg => .obj [("outcome", .str "failed"), ("msg", .str msg)]
  | .replayEnd => .obj [("outcome", .str "replay_end")]

def TurnOutcome.decode (j : Json) : Option TurnOutcome :=
  match internallyTagged "outcome" j with
  | some ("completed", _) => some .completed
  | some ("cancelled", _) => some .cancelled
  | some ("max_tokens", _) => some .maxTokens
  | some ("refusal", _) => some .refusal
  | some ("failed", es) => (field es "msg" decodeString).map .failed
  | some ("replay_end", _) => some .replayEnd
  | _ => none

def ModelOption.encode (o : ModelOption) : Json :=
  .obj [("id", .str o.id), ("label", .str o.label)]

def ModelOption.decode : Json → Option ModelOption
  | .obj es => do
      let id ← field es "id" decodeString
      let label ← field es "label" decodeString
      pure { id, label }
  | _ => none

def AgentCommand.encode (c : AgentCommand) : Json :=
  .obj [("name", .str c.name), ("description", .str c.description)]

def AgentCommand.decode : Json → Option AgentCommand
  | .obj es => do
      let name ← field es "name" decodeString
      let description ← field es "description" decodeString
      pure { name, description }
  | _ => none

/-- The entries of a usage snapshot. -/
def UsageSnapshot.encode (u : UsageSnapshot) : Entries :=
  [("tokens_used", encodeU64 u.tokensUsed), ("tokens_total", encodeU64 u.tokensTotal),
    ("cost_usd", (u.costUsd.map F64.encode).getD .null)]

def UsageSnapshot.decode (readF64 : String → F64) (es : Entries) : Option UsageSnapshot := do
  let tokensUsed ← field es "tokens_used" decodeU64
  let tokensTotal ← field es "tokens_total" decodeU64
  let costUsd ← optionalField es "cost_usd" (F64.decode readF64)
  pure { tokensUsed, tokensTotal, costUsd }

/-! ### The mirror enum -/

/-- What the payload types of the agent protocol accept, and the float
parser. -/
structure Readers where
  toolCall : Json → Option ToolCall
  toolCallUpdate : Json → Option ToolCallUpdate
  plan : Json → Option Plan
  f64 : String → F64

/-- `KnownKind`: the kinds this build knows, as they are on the wire. -/
inductive KnownKind where
  | channelOpened (resumed : Bool)
  | chunk (text : String) (role : ChunkRole)
  | toolCallStarted (toolCall : ToolCall)
  | toolCallUpdated (toolCallUpdate : ToolCallUpdate)
  | planUpdated (plan : Plan)
  | modeChanged (mode : SessionModeId)
  | modelChanged (model : String)
  | modelsAvailable (current : String) (options : List ModelOption)
  | availableCommands (commands : List AgentCommand)
  | usageUpdated (usage : UsageSnapshot)
  | notice (level : NoticeKind) (msg : String)
  | userMessage (text : String)
  | turnEnded (outcome : TurnOutcome)
  | compactedSummary (throughTurn : Nat) (summary : String)

namespace KnownKind

/-- The tags of the mirror enum. -/
def tags : List String :=
  ["channel_opened", "chunk", "tool_call_started", "tool_call_updated", "plan_updated",
    "mode_changed", "model_changed", "models_available", "available_commands", "usage_updated",
    "notice", "user_message", "turn_ended", "compacted_summary"]

/-- The derived `Serialize`: the tag first. A newtype variant is written
into the same object, and cannot be when its payload is no object. -/
def encode : KnownKind → Option Entries
  | .channelOpened resumed =>
      some [("kind", .str "channel_opened"), ("resumed", .bool resumed)]
  | .chunk text role =>
      some [("kind", .str "chunk"), ("text", .str text), ("role", role.encode)]
  | .toolCallStarted toolCall =>
      some [("kind", .str "tool_call_started"), ("tool_call", toolCall.value)]
  | .toolCallUpdated toolCallUpdate =>
      some [("kind", .str "tool_call_updated"), ("tool_call_update", toolCallUpdate.value)]
  | .planUpdated plan =>
      match plan.value with
      | .obj es => some (("kind", .str "plan_updated") :: es)
      | _ => none
  | .modeChanged mode => some [("kind", .str "mode_changed"), ("mode", .str mode.id)]
  | .modelChanged model => some [("kind", .str "model_changed"), ("model", .str model)]
  | .modelsAvailable current options =>
      some [("kind", .str "models_available"), ("current", .str current),
        ("options", .arr (options.map ModelOption.encode))]
  | .availableCommands commands =>
      some [("kind", .str "available_commands"),
        ("commands", .arr (commands.map AgentCommand.encode))]
  | .usageUpdated usage => some (("kind", .str "usage_updated") :: usage.encode)
  | .notice level msg =>
      some [("kind", .str "notice"), ("level", level.encode), ("msg", .str msg)]
  | .userMessage text => some [("kind", .str "user_message"), ("text", .str text)]
  | .turnEnded outcome => some [("kind", .str "turn_ended"), ("outcome", outcome.encode)]
  | .compactedSummary throughTurn summary =>
      some [("kind", .str "compacted_summary"), ("through_turn", encodeU64 throughTurn),
        ("summary", .str summary)]

/-- The payload of a variant, from the entries beside the tag. -/
def decodePayload (readers : Readers) (es : Entries) : String → Option KnownKind
  | "channel_opened" => (field es "resumed" decodeBool).map .channelOpened
  | "chunk" => do
      let text ← field es "text" decodeString
      let role ← field es "role" ChunkRole.decode
      pure (.chunk text role)
  | "tool_call_started" => (field es "tool_call" readers.toolCall).map .toolCallStarted
  | "tool_call_updated" => (field es "tool_call_update" readers.toolCallUpdate).map .toolCallUpdated
  | "plan_updated" => (readers.plan (.obj es)).map .planUpdated
  | "mode_changed" => (field es "mode" decodeString).map fun id => .modeChanged ⟨id⟩
  | "model_changed" => (field es "model" decodeString).map .modelChanged
  | "models_available" => do
      let current ← field es "current" decodeString
      let options ← field es "options" (decodeVec ModelOption.decode)
      pure (.modelsAvailable current options)
  | "available_commands" =>
      (field es "commands" (decodeVec AgentCommand.decode)).map .availableCommands
  | "usage_updated" => (UsageSnapshot.decode readers.f64 es).map .usageUpdated
  | "notice" => do
      let level ← field es "level" NoticeKind.decode
      let msg ← field es "msg" decodeString
      pure (.notice level msg)
  | "user_message" => (field es "text" decodeString).map .userMessage
  | "turn_ended" => (field es "outcome" TurnOutcome.decode).map .turnEnded
  | "compacted_summary" => do
      let throughTurn ← field es "through_turn" decodeU64
      let summary ← field es "summary" decodeString
      pure (.compactedSummary throughTurn summary)
  | _ => none

/-- The derived `Deserialize`. -/
def decode (readers : Readers) (j : Json) : Option KnownKind := do
  let (tag, es) ← internallyTagged "kind" j
  decodePayload readers es tag

end KnownKind

/-! ### The hand-written serializers -/

namespace AgentEventKind

/-- `as_known`. -/
def asKnown : AgentEventKind → Option KnownKind
  | .channelOpened resumed => some (.channelOpened resumed)
  | .chunk text role => some (.chunk text role)
  | .toolCallStarted toolCall => some (.toolCallStarted toolCall)
  | .toolCallUpdated update => some (.toolCallUpdated update)
  | .planUpdated plan => some (.planUpdated plan)
  | .modeChanged mode => some (.modeChanged mode)
  | .modelChanged model => some (.modelChanged model)
  | .modelsAvailable current options => some (.modelsAvailable current options)
  | .availableCommands commands => some (.availableCommands commands)
  | .usageUpdated usage => some (.usageUpdated usage)
  | .notice kind msg => some (.notice kind msg)
  | .userMessage text => some (.userMessage text)
  | .turnEnded outcome => some (.turnEnded outcome)
  | .compactedSummary throughTurn summary => some (.compactedSummary throughTurn summary)
  | .unknown _ _ => none

/-- `from_known`. -/
def fromKnown : KnownKind → AgentEventKind
  | .channelOpened resumed => .channelOpened resumed
  | .chunk text role => .chunk text role
  | .toolCallStarted toolCall => .toolCallStarted toolCall
  | .toolCallUpdated toolCallUpdate => .toolCallUpdated toolCallUpdate
  | .planUpdated plan => .planUpdated plan
  | .modeChanged mode => .modeChanged mode
  | .modelChanged model => .modelChanged model
  | .modelsAvailable current options => .modelsAvailable current options
  | .availableCommands commands => .availableCommands commands
  | .usageUpdated usage => .usageUpdated usage
  | .notice level msg => .notice level msg
  | .userMessage text => .userMessage text
  | .turnEnded outcome => .turnEnded outcome
  | .compactedSummary throughTurn summary => .compactedSummary throughTurn summary

/-- `as_object`. -/
def objectEntries : Json → Entries
  | .obj es => es
  | _ => []

/-- `serialize`. -/
def encode : AgentEventKind → Option Entries
  | .unknown tag raw =>
      some (("kind", .str tag) :: (objectEntries raw).filter (·.1 != "kind"))
  | kind => kind.asKnown.bind KnownKind.encode

/-- Drop the first `kind`, the tag of the event. -/
def dropTag : Entries → Entries
  | [] => []
  | e :: rest => if e.1 == "kind" then rest else e :: dropTag rest

/-- `tool_payload`. -/
def toolPayload {α : Type} (decode : Json → Option α) (es : Entries) (nestedKey : String) :
    Option α :=
  match es.find? (·.1 == nestedKey) with
  | some (_, value) => decode value
  | none => decode (.obj (ofEntries (dropTag es)))

/-- The tag of an event: its first `kind`. -/
def eventTag (es : Entries) : String :=
  ((es.find? (·.1 == "kind")).bind fun e => decodeString e.2).getD ""

/-- The end of `agent_event_kind_from_entries`: the mirror, or a kind to
be kept as it is. -/
def fromMap (readers : Readers) (es : Entries) : AgentEventKind :=
  let value := Json.obj (ofEntries es)
  match KnownKind.decode readers value with
  | some known => fromKnown known
  | none => .unknown (eventTag es) value

/-- `agent_event_kind_from_entries`. -/
def fromEntries (readers : Readers) (es : Entries) : AgentEventKind :=
  match eventTag es with
  | "tool_call_started" =>
      match toolPayload readers.toolCall es "tool_call" with
      | some toolCall => .toolCallStarted toolCall
      | none => fromMap readers es
  | "tool_call_updated" =>
      match toolPayload readers.toolCallUpdate es "tool_call_update" with
      | some update => .toolCallUpdated update
      | none => fromMap readers es
  | _ => fromMap readers es

/-- `visit_map`: the entries in order, each value read as a tree of
maps. -/
def decode (readers : Readers) (es : Entries) : AgentEventKind :=
  fromEntries readers (collapseEntries es)

end AgentEventKind

/-! ### The envelope and what it is nested in -/

/-- The fields of the envelope. -/
def envelopeKeys : List String := ["session_id", "generation", "turn", "seq"]

namespace AgentEvent

/-- The entries of the four envelope fields. -/
def envelope (e : AgentEvent) : Entries :=
  [("session_id", .str e.sessionId), ("generation", encodeU64 e.generation),
    ("turn", encodeU64 e.turn), ("seq", encodeU64 e.seq)]

/-- The derived `Serialize`, with the kind flattened into the envelope. -/
def encode (e : AgentEvent) : Option Json :=
  e.kind.encode.map fun es => .obj (e.envelope ++ es)

/-- The derived `Deserialize`: the kind is read from the entries that are
no field of the envelope. -/
def decode (readers : Readers) : Json → Option AgentEvent
  | .obj es => do
      let sessionId ← field es "session_id" decodeString
      let generation ← field es "generation" decodeU64
      let turn ← field es "turn" decodeU64
      let seq ← field es "seq" decodeU64
      let kind := AgentEventKind.decode readers (es.filter fun e => decide (e.1 ∉ envelopeKeys))
      pure { sessionId, generation, turn, seq, kind }
  | _ => none

end AgentEvent

/-- The entries of `Notification::Agent` around an encoded event. -/
def agentNotification (event : Json) : Entries := [("type", .str "agent"), ("event", event)]

/-- The `agent` variant of the derived `Deserialize` of `Notification`. -/
def decodeAgentNotification (readers : Readers) (j : Json) : Option AgentEvent :=
  match internallyTagged "type" j with
  | some ("agent", es) => field es "event" (AgentEvent.decode readers)
  | _ => none

/-- The line of `WalRecord::Event` with that notification. -/
def walEventLine (event : Json) : Json := .obj (("t", .str "event") :: agentNotification event)

/-- The `event` variant of the derived `Deserialize` of `WalRecord`. -/
def decodeWalEventLine (readers : Readers) (j : Json) : Option AgentEvent :=
  match internallyTagged "t" j with
  | some ("event", es) => decodeAgentNotification readers (.obj es)
  | _ => none

/-- The `Frame::Notification` with that notification. -/
def notificationFrame (event : Json) : Json :=
  .obj [("kind", .str "notification"), ("note", .obj (agentNotification event))]

/-- The `notification` variant of the derived `Deserialize` of `Frame`. -/
def decodeNotificationFrame (readers : Readers) (j : Json) : Option AgentEvent :=
  match internallyTagged "kind" j with
  | some ("notification", es) => field es "note" (decodeAgentNotification readers)
  | _ => none

end Yaldabaoth
