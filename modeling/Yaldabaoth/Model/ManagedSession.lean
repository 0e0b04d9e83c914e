import Yaldabaoth.Model.EventLog
import Yaldabaoth.Model.Provider
import Yaldabaoth.Model.SessionWal
import Yaldabaoth.Model.Transport

/-!
# `Yaldabaoth.Model.ManagedSession`: the state of one session

`ManagedSession` of the session server's `main.rs`, with its methods:
the one chokepoint through which the transcript grows (`pushEvent`),
the canonical agent fact (`recordAgent`), the prompt records, and the
publishing of a spawned channel (`applyChannelState`).

The record also carries what those methods act on outside of memory:
the records in the session's log file, and what the session has sent
out. A write to the log takes its fate from `walIo`; bytes a failed
write leaves in the file are the subject of the log's own model and
are not repeated here. `history` is every notification pushed since
the session was created or last recovered, behind what was on disk
then; it is the transcript in full, which the trimmed `eventLog` and
the file each hold a part of.
-/

set_option autoImplicit false

namespace Yaldabaoth

/-! ### Parts -/

inductive SessionLifecycle where
  | spawning
  | live
  | restarting
  | disconnected
  | archived
deriving Repr, DecidableEq, Inhabited

structure PendingPrompt where
  id : Nat
  payload : PromptPayload
deriving Repr, DecidableEq

/-- A delivery that waits for exclusive use of the session. `reply`
names the one-shot channel its answer goes to. -/
structure PendingProviderDelivery where
  request : ProviderDeliveryRequest
  payload : PromptPayload
  reply : Nat

/-- The delivery correlated with a provider turn. -/
structure ActiveProviderDelivery where
  attemptId : OpaqueId
  provider : ProviderKind
  providerSessionId : OpaqueId
  generation : Nat
  targetTurnCount : Nat
  reply : Nat
deriving DecidableEq

/-- The part of the log that is on disk only. -/
structure DurablePrefix where
  path : PathBuf
  len : Nat
deriving Repr, DecidableEq

structure LogSnapshot where
  log : EventLog
  generation : Nat
deriving Repr, DecidableEq

/-- The actor's handle on the attached forwarder. `alive` is whether
its task still holds the other reference. -/
structure ForwarderHandle where
  sentSeq : Nat
  evicted : Bool
  released : Bool
  alive : Bool
deriving Repr, DecidableEq

/-- Tell a forwarder to stop without closing its connection. -/
def ForwarderHandle.release (handle : ForwarderHandle) : ForwarderHandle :=
  { handle with released := true }

/-- The fate of one write to the log file: it lands and the call
succeeds, it fails with nothing of use in the file, or it lands and
only the sync fails. -/
inductive WalWrite where
  | done
  | lost (error : String)
  | unsynced (error : String)
deriving Repr, DecidableEq

/-- What a session has sent out, oldest first: answers on one-shot
channels, broadcasts to every connection, and the forwarders it told
to stop. -/
structure Outbox where
  answers : List (Nat × ProviderDeliveryResult)
  events : List Notification
  stopped : List ForwarderHandle

/-- Nothing sent yet. -/
def Outbox.empty : Outbox := { answers := [], events := [], stopped := [] }

structure ManagedSession where
  id : ServerSessionId
  label : String
  cwd : PathBuf
  provider : AgentProvider
  acpSessionId : Option String
  archived : Bool
  lifecycle : SessionLifecycle
  channel : Option TransportHandle
  channelGeneration : Nat
  /-- The mirror of the generation the pumps watch. -/
  genWatch : Nat
  turns : Nat
  permissionMode : PermissionMode
  modelId : Option String
  busy : Bool
  /-- The snapshot last published to the forwarder. -/
  logTx : LogSnapshot
  forwarder : Option ForwarderHandle
  pendingPrompts : List PendingPrompt
  pendingProviderDeliveries : List PendingProviderDelivery
  activeProviderDelivery : Option ActiveProviderDelivery
  nextPromptId : Nat
  eventLog : EventLog
  replayFence : Nat
  /-- Whether the log file is open for appends. -/
  walOpen : Bool
  walPath : Option PathBuf
  durablePrefix : Option DurablePrefix
  agentSeq : Nat
  /-- The records in the log file. -/
  disk : List WalRecord
  /-- The fates of the coming writes; the rest succeed. -/
  walIo : List WalWrite
  history : List Notification
  out : Outbox
  /-- The resolved `YALDA_EVENT_LOG_CAP` and `.._HIGH_WATER`. -/
  eventLogCap : Nat
  eventLogHighWater : Nat

namespace ManagedSession

/-! ### Sending out -/

variable (s : ManagedSession)

/-- Answer a one-shot channel. -/
def answer (reply : Nat) (result : ProviderDeliveryResult) : ManagedSession :=
  { s with out := { s.out with answers := s.out.answers ++ [(reply, result)] } }

/-- Broadcast to every connection. -/
def emit (note : Notification) : ManagedSession :=
  { s with out := { s.out with events := s.out.events ++ [note] } }

/-- `info`. -/
def info : SessionInfo :=
  { sessionId := s.id
    acpSessionId := s.acpSessionId
    label := s.label
    cwd := s.cwd
    provider := s.provider
    turns := s.turns
    connected := s.channel.any TransportHandle.isConnected
    permissionMode := s.permissionMode
    busy := s.busy
    archived := s.archived }

/-- `fail_provider_deliveries`: the active delivery first, then the
waiting ones in order. -/
def failProviderDeliveries (failure : ProviderDeliveryFailure) : ManagedSession :=
  let failed := s.activeProviderDelivery.toList.map (·.reply) ++
    s.pendingProviderDeliveries.map (·.reply)
  { s with
    activeProviderDelivery := none
    pendingProviderDeliveries := []
    out := { s.out with
      answers := s.out.answers ++ failed.map fun reply => (reply, .failed failure) } }

/-! ### The log file -/

/-- Write one record through the open handle. -/
def walWrite (rec : WalRecord) (fsync : Bool) : ManagedSession × Except String Unit :=
  match s.walIo with
  | [] => ({ s with disk := s.disk ++ [rec] }, .ok ())
  | .done :: rest => ({ s with disk := s.disk ++ [rec], walIo := rest }, .ok ())
  | .lost error :: rest => ({ s with walIo := rest }, .error error)
  | .unsynced error :: rest =>
      ({ s with disk := s.disk ++ [rec], walIo := rest },
        if fsync then .error error else .ok ())

/-- Whether a notification ends a turn or is a user's prompt, and so is
synced. -/
def isBoundary : Notification → Bool
  | .userPrompt _ _ => true
  | .turnEnded _ _ _ => true
  | .agent event =>
      match event.kind with
      | .userMessage _ => true
      | .turnEnded _ => true
      | _ => false
  | _ => false

/-- `wal_append`: an error is logged, never fatal. -/
def walAppend (note : Notification) : ManagedSession :=
  if s.walOpen then (s.walWrite (.event note) (isBoundary note)).1 else s

/-- `begin_prompt_intent`. -/
def beginPromptIntent (payload : PromptPayload) :
    ManagedSession × Except String PendingPrompt :=
  let id := s.nextPromptId
  let written :=
    if s.walOpen then
      s.walWrite (.promptIntent id payload.text payload.textBlocks payload.images) true
    else (s, .ok ())
  match written with
  | (s, .error error) => (s, .error s!"could not persist prompt before delivery: {error}")
  | (s, .ok ()) => ({ s with nextPromptId := saturatingAdd s.nextPromptId 1 }, .ok { id, payload })

/-- `finish_prompt_intent`: an error is logged, never fatal. -/
def finishPromptIntent (id : Nat) (outcome : PromptOutcome) : ManagedSession :=
  if s.walOpen then (s.walWrite (.promptTerminal id outcome) true).1 else s

/-! ### The transcript -/

/-- `publish_snapshot`. -/
def publishSnapshot : ManagedSession :=
  { s with logTx := { log := s.eventLog, generation := s.channelGeneration } }

/-- `prune_dead_forwarder`. -/
def pruneDeadForwarder : ManagedSession :=
  if s.forwarder.any (!·.alive) then { s with forwarder := none } else s

/-- `enforce_high_water`: evict a forwarder that fell too far behind. -/
def enforceHighWater : ManagedSession :=
  let s := s.pruneDeadForwarder
  match s.forwarder with
  | none => s
  | some handle =>
      if s.eventLog.tipSeq - handle.sentSeq ≤ s.eventLogHighWater then s
      else { s with
        forwarder := none
        out := { s.out with stopped := s.out.stopped ++ [{ handle with evicted := true }] } }

/-- `compaction_floor`. -/
def compactionFloor : ManagedSession × Nat :=
  let s := s.pruneDeadForwarder
  (s, (s.forwarder.map (·.sentSeq)).getD u64Max)

/-- `push_event`: the file, the log, the trim, the snapshot. -/
def pushEvent (note : Notification) : ManagedSession :=
  let s := s.walAppend note
  let s := { s with eventLog := (s.eventLog.push note).1, history := s.history ++ [note] }
  let s := s.enforceHighWater
  let (s, floor) := s.compactionFloor
  let s := { s with
    eventLog := (compactEventLog s.eventLog s.id s.channelGeneration s.eventLogCap floor).1 }
  s.publishSnapshot

/-- `record` and `log_only` differ in intent only. -/
def record (note : Notification) : ManagedSession := s.pushEvent note

def logOnly (note : Notification) : ManagedSession := s.pushEvent note

/-- `record_agent`: the canonical fact under the session's envelope. -/
def recordAgent (kind : AgentEventKind) : ManagedSession :=
  let event : AgentEvent :=
    { sessionId := s.id, generation := s.channelGeneration, turn := s.turns, seq := s.agentSeq,
      kind }
  let s := { s with agentSeq := s.agentSeq + 1 }
  s.record (.agent event)

/-! ### Publishing a channel -/

/-- Flush the queued prompts onto a new channel, in order. A prompt the
channel refuses is rejected and returned with the reason. -/
def flushPending : ManagedSession → TransportHandle → List PendingPrompt →
    ManagedSession × TransportHandle × List (String × String)
  | s, handle, [] => (s, handle, [])
  | s, handle, pending :: rest =>
      match handle.sendPayload pending.payload none with
      | (handle, .ok ()) =>
          let s := { s.finishPromptIntent pending.id .delivered with busy := true }
          flushPending s handle rest
      | (handle, .error e) =>
          let s := s.finishPromptIntent pending.id .rejected
          let (s, handle, undelivered) := flushPending s handle rest
          (s, handle,
            (pending.payload.text, s!"queued message was not delivered on reconnect: {e}") ::
              undelivered)

/-- A fresh channel under the session's own settings. -/
def configured (handle : TransportHandle) : TransportHandle :=
  let handle := handle.setPermissionMode s.permissionMode
  match s.modelId with
  | some modelId => handle.setModel modelId
  | none => handle

/-- The half of `apply_channel_state` behind the flush: the handle goes
live under the committed generation, and the transcript says so. -/
def installChannel (handle : TransportHandle) (isRespawn resumed : Bool) : ManagedSession :=
  let acpSessionId := handle.sessionId
  let s := if acpSessionId.isSome then { s with acpSessionId } else s
  let s := if isRespawn then
      { s with
        channelGeneration := s.channelGeneration + 1
        genWatch := s.channelGeneration + 1
        agentSeq := 0 }
    else s
  let s := { s with
    channel := some { handle with generation := s.channelGeneration }
    lifecycle := .live
    replayFence := if resumed then s.turns else 0 }
  let s := s.recordAgent (channelOpenedKind resumed)
  s.record (.sessionAttached s.id acpSessionId)

/-- `apply_channel_state`: install a (re)spawned channel. The queued
prompts it refused come back. -/
def applyChannelState (handle : TransportHandle) (isRespawn resumed : Bool) :
    ManagedSession × List (String × String) :=
  let (s, handle, undelivered) :=
    flushPending { s with busy := false, pendingPrompts := [] } (s.configured handle)
      s.pendingPrompts
  (s.installChannel handle isRespawn resumed, undelivered)

end ManagedSession

/-! ### New and recovered sessions -/

/-- The limits of the in-memory log, resolved once per process. -/
structure EventLogLimits where
  cap : Nat
  highWater : Nat

/-- `new_managed_session`. -/
def newManagedSession (id : ServerSessionId) (label : String) (cwd : PathBuf)
    (provider : AgentProvider) (permissionMode : PermissionMode) (walPath : Option PathBuf)
    (disk : List WalRecord) (limits : EventLogLimits) : ManagedSession :=
  { id
    label
    cwd
    provider
    acpSessionId := none
    archived := false
    lifecycle := .spawning
    channel := none
    channelGeneration := 0
    genWatch := 0
    turns := 0
    permissionMode
    modelId := none
    busy := false
    logTx := { log := .new, generation := 0 }
    forwarder := none
    pendingPrompts := []
    pendingProviderDeliveries := []
    activeProviderDelivery := none
    nextPromptId := 1
    eventLog := .new
    replayFence := 0
    walOpen := walPath.isSome
    walPath
    durablePrefix := none
    agentSeq := 0
    disk
    walIo := []
    history := []
    out := .empty
    eventLogCap := limits.cap
    eventLogHighWater := limits.highWater }

/-- The session `restore_seed_from_dir` builds from one recovered log.
`disk` is what the file holds. -/
def restoreSeed (rs : RecoveredSession) (disk : List WalRecord) (history : List Notification)
    (limits : EventLogLimits) : ManagedSession :=
  let eventLog := EventLog.fromRecovered [] rs.durableEvents
  { id := rs.serverSessionId
    label := rs.label
    cwd := rs.cwd
    provider := rs.provider
    acpSessionId := rs.acpSessionId
    archived := rs.archived
    lifecycle := if rs.archived then .archived else .spawning
    channel := none
    channelGeneration := rs.nextGeneration
    genWatch := rs.nextGeneration
    turns := rs.turns
    permissionMode := rs.permissionMode
    modelId := rs.modelId
    busy := false
    logTx := { log := eventLog, generation := rs.nextGeneration }
    forwarder := none
    pendingPrompts := rs.pendingPrompts.map fun pending =>
      { id := pending.id, payload := pending.payload }
    pendingProviderDeliveries := []
    activeProviderDelivery := none
    nextPromptId := rs.nextPromptId
    eventLog
    replayFence := rs.turns
    walOpen := !rs.archived
    walPath := some rs.path
    durablePrefix := some { path := rs.path, len := rs.durableEvents }
    agentSeq := 0
    disk
    walIo := []
    history
    out := .empty
    eventLogCap := limits.cap
    eventLogHighWater := limits.highWater }

end Yaldabaoth
