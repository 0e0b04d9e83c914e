import Yaldabaoth.Model.ManagedSession

/-!
# `Yaldabaoth.Model.Manager`: the session actor's commands

`Manager` of the session server's `main.rs`: one command at a time is
applied to the sessions, and nothing else changes them. A command
names its session and touches no other, so the model follows one
session: `Manager.session` is the entry under its id, `none` before it
is created and after it is closed.

What a command asks of the operating system is its `Fate`: the fates
of the writes to the log file, and whether a thread, a reopened file
or a deleted one goes wrong. Spawn threads that were started are left
in `jobs`; what they send back are commands again.
-/

set_option autoImplicit false

namespace Yaldabaoth

/-! ### Commands and their fates -/

/-- A spawn thread: what it starts, and what it publishes with. -/
structure SpawnJob where
  cwd : PathBuf
  provider : AgentProvider
  resumeId : Option String
  resumeOnly : Bool
  expectedGeneration : Nat
  isRespawn : Bool
deriving Repr, DecidableEq

/-- Whether the spawn attempts to load an earlier conversation. -/
def SpawnJob.resumed (job : SpawnJob) : Bool := job.resumeId.isSome

/-- What the operating system does while one command is applied. -/
structure Fate where
  walIo : List WalWrite
  createError : Option String
  reopenError : Option String
  deleteError : Option String
  threadError : Option String
deriving Repr, DecidableEq

/-- Everything succeeds. -/
def Fate.good : Fate :=
  { walIo := [], createError := none, reopenError := none, deleteError := none,
    threadError := none }

inductive Command where
  | attach (cursor : Option (Nat × Nat))
  | detach
  | prompt (text : String) (images : List ImageAttachment)
  | steer (text : String) (images : List ImageAttachment)
  | adminPrompt (text : String)
  | cogDelivery (request : ProviderDeliveryRequest) (reply : Nat)
  | cancel
  | close
  | restart
  | rename (label : String)
  | setArchived (archived : Bool)
  | setPermissionMode (mode : PermissionMode)
  | setModel (modelId : String)
  | publishChannel (handle : TransportHandle) (expectedGeneration : Nat)
      (isRespawn resumed : Bool)
  | spawnFailed (expectedGeneration : Nat) (reason : String)
  | record (generation : Nat) (event : ReplyEvent)
  | turnCount (generation turns : Nat) (outcome : TurnOutcome)
  | replayDone (generation : Nat)
  | agentDisconnected (generation : Nat)

/-- What a new forwarder is handed. -/
structure AttachGrant where
  logRx : LogSnapshot
  initialSentSeq : Nat
  progress : ForwarderHandle
  durablePrefix : Option DurablePrefix
deriving Repr, DecidableEq

/-- What a publish hands the owning pump: the committed generation, the
replay fence and the turn base. -/
structure Published where
  generation : Nat
  replayFence : Nat
  turnBase : Nat
deriving Repr, DecidableEq

/-- The answer to a command. -/
inductive Reply where
  | none
  | attached (grant : Except String AttachGrant)
  | done (result : Except String Unit)
  | published (channel : Option Published)

/-! ### Commands on one session -/

namespace ManagedSession

variable (s : ManagedSession)

/-- `broadcast_busy`. -/
def broadcastBusy (busy : Bool) : ManagedSession := s.emit (.sessionBusy s.id busy)

/-- `broadcast_connected`. -/
def broadcastConnected (connected : Bool) : ManagedSession :=
  s.emit (.sessionConnected s.id connected)

/-- `set_busy`: broadcast on a change only. -/
def setBusy (busy : Bool) : ManagedSession :=
  if s.busy = busy then s else { s with busy }.broadcastBusy busy

/-- Close queued prompts with `outcome`, and put a rejection of each in
the transcript. -/
def rejectPending (outcome : PromptOutcome) (reason : String) :
    ManagedSession → List PendingPrompt → ManagedSession
  | s, [] => s
  | s, pending :: rest =>
      let s := s.finishPromptIntent pending.id outcome
      let s := s.record (.promptRejected s.id reason pending.payload.text)
      rejectPending outcome reason s rest

/-- `handle_spawn_failed`: end a failed handshake or a dead pump. -/
def handleSpawnFailed (expectedGeneration : Nat) (reason : String) : ManagedSession :=
  if s.archived ∨ s.channelGeneration ≠ expectedGeneration then s
  else
    let wasBusy := s.busy
    let s := { s with lifecycle := .disconnected, channel := none, busy := false, replayFence := 0 }
    let s := s.failProviderDeliveries
      { failureClass := .providerUnavailable, retryable := true, message := reason }
    let pending := s.pendingPrompts
    let s := rejectPending .rejected reason { s with pendingPrompts := [] } pending
    let s := s.record (.sessionDetached s.id reason)
    let s := if wasBusy then s.broadcastBusy false else s
    s.broadcastConnected false

/-- `do_attach`. -/
def doAttach (cursor : Option (Nat × Nat)) : ManagedSession × AttachGrant :=
  let resolution := s.eventLog.resolveCursor cursor s.channelGeneration
  let initialSentSeq := s.eventLog.seqOf resolution.initialVecIndex
  let progress : ForwarderHandle :=
    { sentSeq := initialSentSeq, evicted := false, released := false, alive := true }
  ({ s with forwarder := some progress },
    { logRx := s.logTx
      initialSentSeq
      progress
      durablePrefix := if resolution = .fromBase then s.durablePrefix else none })

/-- `do_detach`. -/
def doDetach : ManagedSession := { s with forwarder := none }

/-- Hand an admitted prompt to the live channel with `send`, or queue it
while the agent is still spawning. The prefix is the one the failed
call reports under. -/
def deliverPrompt (pending : PendingPrompt) (failed : String)
    (send : TransportHandle → TransportHandle × Except String Unit) :
    ManagedSession × Except String Unit :=
  match s.lifecycle, s.channel with
  | .live, some channel =>
      match send channel with
      | (channel, .ok ()) =>
          ({ s with channel := some channel }.finishPromptIntent pending.id .delivered, .ok ())
      | (channel, .error error) =>
          ({ s with channel := some channel }.finishPromptIntent pending.id .rejected,
            .error s!"{failed}: {error}")
  | .spawning, none | .restarting, none =>
      ({ s with pendingPrompts := s.pendingPrompts ++ [pending] }, .ok ())
  | _, _ =>
      (s.finishPromptIntent pending.id .rejected,
        .error s!"session {s.id} has inconsistent lifecycle state; restart it")

/-- The body `do_steer` and `enqueue_prompt` share. They differ in the
words of their errors and in how a live channel is sent to. -/
def admitPrompt (text : String) (images : List ImageAttachment)
    (archivedTo disconnectedTo failed : String)
    (send : TransportHandle → PromptPayload → TransportHandle × Except String Unit) :
    ManagedSession × Except String Unit :=
  if s.lifecycle = .archived then
    (s, .error s!"session {s.id} is archived; unarchive it before {archivedTo}")
  else if s.lifecycle = .disconnected then
    (s, .error s!"session {s.id} is disconnected; restart it before {disconnectedTo}")
  else
    match s.beginPromptIntent { text, textBlocks := [], images } with
    | (s, .error error) => (s, .error error)
    | (s, .ok pending) =>
        let wasBusy := s.busy
        let s := { s with busy := true }
        match s.deliverPrompt pending failed fun channel => send channel pending.payload with
        | (s, .ok ()) =>
            let s := s.logOnly (.userPrompt s.id text)
            let s := s.recordAgent (.userMessage text)
            (if wasBusy then s else s.broadcastBusy true, .ok ())
        | (s, .error reason) => (s.handleSpawnFailed s.channelGeneration reason, .error reason)

/-- `do_steer`. -/
def doSteer (text : String) (images : List ImageAttachment) : ManagedSession × Except String Unit :=
  s.admitPrompt text images "steering" "steering" "steer failed"
    fun channel payload => channel.steerOrReplacePayload payload none

/-- `enqueue_prompt`. -/
def enqueuePrompt (text : String) (images : List ImageAttachment) :
    ManagedSession × Except String Unit :=
  s.admitPrompt text images "sending a prompt" "sending" "send failed"
    fun channel payload => channel.sendPayload payload none

/-- `do_prompt`. -/
def doPrompt (text : String) (images : List ImageAttachment) :
    ManagedSession × Except String Unit :=
  s.enqueuePrompt text images

/-! ### Provider deliveries -/

/-- `fail_pending_provider_delivery`. -/
def failPendingProviderDelivery (pending : PendingProviderDelivery)
    (failure : ProviderDeliveryFailure) : ManagedSession × Bool :=
  (s.answer pending.reply (.failed failure), false)

/-- `start_provider_delivery`: true only after the transport accepted
the exact payload. -/
def startProviderDelivery (pending : PendingProviderDelivery) (steer : Bool) :
    ManagedSession × Bool :=
  let unavailable (message : String) : ProviderDeliveryFailure :=
    { failureClass := .providerUnavailable, retryable := true, message }
  match s.channel with
  | none =>
      s.failPendingProviderDelivery pending (unavailable "provider session has no live transport")
  | some channel =>
      match channel.sessionId <|> s.acpSessionId with
      | none =>
          s.failPendingProviderDelivery pending
            (unavailable "provider did not expose a session id")
      | some rawSessionId =>
          match OpaqueId.new rawSessionId with
          | .error error =>
              s.failPendingProviderDelivery pending
                { failureClass := .unsupportedContractValue, retryable := false,
                  message := s!"invalid provider session id: {error}" }
          | .ok providerSessionId =>
              let sent :=
                if steer then channel.steerPayload pending.payload (some pending.reply)
                else channel.sendPayload pending.payload (some pending.reply)
              match sent with
              | (channel, .error error) =>
                  { s with channel := some channel }.failPendingProviderDelivery pending
                    (unavailable s!"provider input was rejected before dispatch: {error}")
              | (channel, .ok ()) =>
                  let becameBusy := !s.busy
                  let s := { s with
                    channel := some channel
                    busy := true
                    activeProviderDelivery := some {
                      attemptId := pending.request.envelope.attemptId
                      provider := pending.request.provider
                      providerSessionId
                      generation := s.channelGeneration
                      targetTurnCount := s.turns + 1
                      reply := pending.reply } }
                  (if becameBusy then s.broadcastBusy true else s, true)

/-- The loop of `start_next_provider_delivery` over the waiting
deliveries. -/
def startNext : ManagedSession → List PendingProviderDelivery → ManagedSession
  | s, [] => s
  | s, pending :: rest =>
      if s.activeProviderDelivery.isNone ∧ !s.busy then
        match { s with pendingProviderDeliveries := rest }.startProviderDelivery pending false with
        | (s, true)  => s
        | (s, false) => startNext s rest
      else s

/-- `start_next_provider_delivery`. -/
def startNextProviderDelivery : ManagedSession := startNext s s.pendingProviderDeliveries

/-- Whether the session runs the provider a delivery is for. -/
def providerMatches (request : ProviderDeliveryRequest) : Bool :=
  match s.provider, request.provider with
  | .codex, .codex | .claude, .claude => true
  | _, _ => false

/-- `do_cog_delivery` on the session it names, once its blocks are
serialized. -/
def doCogDelivery (pending : PendingProviderDelivery) : ManagedSession :=
  if !s.providerMatches pending.request then
    s.answer pending.reply (.failed
      { failureClass := .unsupportedContractValue, retryable := false,
        message := "configured Cog provider does not match the Yalda session provider" })
  else if s.archived ∨ s.lifecycle ≠ .live then
    s.answer pending.reply (.failed
      { failureClass := .providerUnavailable, retryable := true,
        message := "provider session is not live" })
  else
    let steerNow := s.busy ∧ pending.request.provider = .codex ∧
      s.channel.any TransportHandle.supportsSteering
    if s.activeProviderDelivery.isSome ∨ (s.busy ∧ ¬ steerNow) then
      { s with pendingProviderDeliveries := s.pendingProviderDeliveries ++ [pending] }
    else (s.startProviderDelivery pending (decide steerNow)).1

/-- What a turn that did not complete means for the delivery it ran. -/
def failureOfOutcome : TurnOutcome → ProviderDeliveryFailure
  | .cancelled =>
      { failureClass := .cancelled, retryable := false, message := "provider turn was cancelled" }
  | .maxTokens =>
      { failureClass := .providerRejected, retryable := false,
        message := "provider turn reached its processing limit" }
  | .refusal =>
      { failureClass := .providerRejected, retryable := false,
        message := "provider refused the delivery" }
  | .failed msg => { failureClass := .providerRejected, retryable := false, message := msg }
  | .replayEnd =>
      { failureClass := .internal, retryable := false,
        message := "replay boundary cannot settle provider delivery" }
  | .completed => { failureClass := .internal, retryable := false, message := "unreachable" }

theorem decimal_ne_empty (n : Nat) : toString n ≠ "" := by
  rw [Nat.toString_eq_repr]
  exact Nat.repr_ne_empty

/-- The answer of a settled delivery. -/
def settledResult (delivery : ActiveProviderDelivery) (completedTurn : Nat) :
    TurnOutcome → ProviderDeliveryResult
  | .completed => .succeeded
      { kind := delivery.provider
        sessionId := delivery.providerSessionId
        turnId := some { value := toString completedTurn, nonempty := decimal_ne_empty _ }
        metadata := none }
  | outcome => .failed (failureOfOutcome outcome)

/-! ### Pump commands -/

/-- `Command::Record` at the session's own generation. -/
def doRecord (event : ReplyEvent) : ManagedSession :=
  let s := match agentKindFromReply event with
    | some kind => s.recordAgent kind
    | none =>
        match event with
        | .replayComplete => s.recordAgent replayEndKind
        | _ => s
  s.record (.replyEvent s.id event)

/-- `Command::TurnCount` at the session's own generation. -/
def doTurnCount (turns : Nat) (outcome : TurnOutcome) : ManagedSession :=
  let s := { s with turns }
  let channelGeneration := s.channelGeneration
  let completedTurn := turns - 1
  let agentSeq := s.agentSeq
  let s := { s with agentSeq := s.agentSeq + 1 }
  let s := s.record (.agent
    { sessionId := s.id, generation := channelGeneration, turn := completedTurn, seq := agentSeq,
      kind := turnEndedKind outcome })
  let s := s.record (.turnEnded s.id turns channelGeneration)
  let terminal := s.activeProviderDelivery.filter fun delivery =>
    decide (delivery.generation = channelGeneration ∧ delivery.targetTurnCount ≤ turns)
  let s := if terminal.isSome then { s with activeProviderDelivery := none } else s
  let s := s.setBusy false
  let s := match terminal with
    | some delivery => s.answer delivery.reply (settledResult delivery completedTurn outcome)
    | none => s
  s.startNextProviderDelivery

/-! ### Lifecycle -/

/-- The head of `do_cancel`: fail the active delivery and signal the
agent. -/
def cancelActive : ManagedSession :=
  let s := match s.activeProviderDelivery with
    | some active =>
        { s with activeProviderDelivery := none }.answer active.reply (.failed
          { failureClass := .cancelled, retryable := false,
            message := "provider turn was cancelled" })
    | none => s
  { s with channel := s.channel.map TransportHandle.cancel }

/-- `do_cancel`. -/
def doCancel : ManagedSession :=
  let s := s.cancelActive
  match s.lifecycle with
  | .spawning | .restarting | .disconnected =>
      let queued := s.pendingPrompts
      let hadWork := s.busy || !queued.isEmpty
      let s := rejectPending .cancelled "cancelled before agent delivery"
        { s with pendingPrompts := [], busy := false } queued
      if hadWork then s.broadcastBusy false else s
  | _ => s

/-- Start a spawn thread, or fail the session when it does not start. -/
def startJob (job : SpawnJob) (threadError : Option String) (could : String) :
    ManagedSession × Option SpawnJob × Except String Unit :=
  match threadError with
  | none => (s, some job, .ok ())
  | some error =>
      let reason := s!"{could}: {error}"
      (s.handleSpawnFailed job.expectedGeneration reason, none, .error reason)

/-- `do_restart`: fence and drop the old transport, then spawn. -/
def doRestart (fate : Fate) : ManagedSession × Option SpawnJob × Except String Unit :=
  if s.archived then
    (s, none, .error s!"session {s.id} is archived; unarchive it before restarting")
  else
    let resume := s.channel.bind (·.sessionId) <|> s.acpSessionId
    let wasBusy := s.busy
    let s := s.failProviderDeliveries
      { failureClass := .providerUnavailable, retryable := true,
        message := "provider session is restarting" }
    let s := { s with
      channelGeneration := s.channelGeneration + 1
      agentSeq := 0
      replayFence := 0
      busy := false
      lifecycle := .restarting
      genWatch := s.channelGeneration + 1
      channel := none }
    let s := if wasBusy then s.broadcastBusy false else s
    let s := s.broadcastConnected false
    s.startJob
      { cwd := s.cwd, provider := s.provider, resumeId := resume, resumeOnly := resume.isSome,
        expectedGeneration := s.channelGeneration, isRespawn := false }
      fate.threadError "could not start restart worker"

/-- Append a metadata record, through the open handle or one reopened
for it; a session without a file has nothing to append to. -/
def appendMetadata (rec : WalRecord) (reopenError : Option String) :
    ManagedSession × Except String Unit :=
  if s.walOpen then s.walWrite rec true
  else if s.walPath.isSome then
    match reopenError with
    | some error => (s, .error error)
    | none => s.walWrite rec true
  else (s, .ok ())

/-- `do_rename`: an error of the file is logged, never fatal. -/
def doRename (label : String) (fate : Fate) : ManagedSession :=
  let s := ({ s with label }.appendMetadata (.rename label) fate.reopenError).1
  s.emit (.sessionRenamed s.id label)

/-- Close queued prompts as cancelled, without a word in the
transcript. -/
def cancelPending : ManagedSession → List PendingPrompt → ManagedSession
  | s, [] => s
  | s, pending :: rest => cancelPending (s.finishPromptIntent pending.id .cancelled) rest

/-- The job that brings an unarchived session's channel back
(`spawn_channel`). -/
def resumeJob : SpawnJob :=
  { cwd := s.cwd, provider := s.provider, resumeId := s.acpSessionId,
    resumeOnly := s.acpSessionId.isSome, expectedGeneration := s.channelGeneration,
    isRespawn := false }

/-- End all that a session under archive owes: its turn, its deliveries
and its queued prompts. -/
def endWork : ManagedSession :=
  let s := { s with channel := s.channel.map TransportHandle.cancel }
  let s := s.failProviderDeliveries
    { failureClass := .cancelled, retryable := false, message := "provider session was archived" }
  cancelPending
    { s with archived := true, lifecycle := .archived, busy := false, pendingPrompts := [] }
    s.pendingPrompts

/-- Fence and drop everything live, and fold what is in memory into the
durable prefix. -/
def shelve : ManagedSession :=
  let s := { s with
    replayFence := 0
    channelGeneration := s.channelGeneration + 1
    agentSeq := 0
    genWatch := s.channelGeneration + 1
    channel := none
    forwarder := none
    out := { s.out with
      stopped := s.out.stopped ++ s.forwarder.toList.map ForwarderHandle.release } }
  let s := match s.walPath with
    | some path =>
        let tip := s.eventLog.tipSeq
        { s with
          durablePrefix := some { path, len := tip }
          eventLog := .fromRecovered [] tip }
    | none => s
  { s.publishSnapshot with walOpen := false }

/-- The archiving half of `do_set_archived`: persist the marker first. -/
def doArchive : ManagedSession × Except String Unit :=
  if !s.walOpen then (s, .error s!"session {s.id} has no open durable WAL")
  else
    match s.walWrite (.archive true) true with
    | (s, .error e) => (s, .error s!"could not persist archive state: {e}")
    | (s, .ok ()) =>
        let wasBusy := s.busy
        let s := s.endWork.shelve
        let s := if wasBusy then s.broadcastBusy false else s
        let s := s.broadcastConnected false
        (s.emit (.sessionArchived s.id true), .ok ())

/-- The unarchiving half: reopen the file and persist the marker, then
spawn. -/
def doUnarchive (fate : Fate) : ManagedSession × Option SpawnJob × Except String Unit :=
  match s.walPath, fate.reopenError with
  | none, _ => (s, none, .error s!"session {s.id} has no durable WAL path")
  | some _, some e => (s, none, .error s!"could not reopen archived WAL: {e}")
  | some _, none =>
      match s.walWrite (.archive false) true with
      | (s, .error e) => (s, none, .error s!"could not persist unarchive state: {e}")
      | (s, .ok ()) =>
          let s := { s with walOpen := true, archived := false, lifecycle := .spawning }
          let s := s.emit (.sessionArchived s.id false)
          s.startJob s.resumeJob fate.threadError "could not start lifecycle worker"

/-- `do_set_archived`. Repeating an unarchive of a session whose
channel did not come up is a retry. -/
def doSetArchived (archived : Bool) (fate : Fate) :
    ManagedSession × Option SpawnJob × Except String Unit :=
  if s.archived = archived then
    if !archived ∧ s.lifecycle = .disconnected then
      let s := { s with lifecycle := .spawning }
      s.startJob s.resumeJob fate.threadError "could not start lifecycle worker"
    else (s, none, .ok ())
  else if archived then
    match s.doArchive with
    | (s, result) => (s, none, result)
  else s.doUnarchive fate

/-- `do_set_permission_mode`. -/
def doSetPermissionMode (mode : PermissionMode) (fate : Fate) :
    ManagedSession × Except String Unit :=
  match s.appendMetadata (.permission mode) fate.reopenError with
  | (s, .error error) => (s, .error s!"could not persist permission mode: {error}")
  | (s, .ok ()) =>
      ({ s with permissionMode := mode, channel := s.channel.map (·.setPermissionMode mode) },
        .ok ())

/-- `do_set_model`. -/
def doSetModel (modelId : String) (fate : Fate) : ManagedSession × Except String Unit :=
  if s.archived then
    (s, .error s!"session {s.id} is archived; unarchive it before switching models")
  else
    match s.appendMetadata (.model modelId) fate.reopenError with
    | (s, .error error) => (s, .error s!"could not persist model selection: {error}")
    | (s, .ok ()) =>
        ({ s with modelId := some modelId, channel := s.channel.map (·.setModel modelId) }, .ok ())

/-- `Command::PublishChannel`. -/
def doPublishChannel (handle : TransportHandle) (expectedGeneration : Nat)
    (isRespawn resumed : Bool) : ManagedSession × Option Published :=
  if s.archived ∨ s.channelGeneration ≠ expectedGeneration then (s, none)
  else
    let (s, undelivered) := s.applyChannelState handle isRespawn resumed
    let published : Published :=
      { generation := s.channelGeneration, replayFence := s.replayFence, turnBase := s.turns }
    let s := s.broadcastBusy s.busy
    let s := s.broadcastConnected true
    let s := undelivered.foldl
      (fun s (text, reason) => s.emit (.promptRejected s.id reason text)) s
    (s, some published)

end ManagedSession

/-! ### The actor -/

structure Manager where
  session : Option ManagedSession
  /-- Answers given while there is no session. -/
  answers : List (Nat × ProviderDeliveryResult)
  jobs : List SpawnJob
  defaultPermissionMode : PermissionMode
  limits : EventLogLimits
  /-- Where a new session's log file goes; `none` without a directory. -/
  walDir : Option PathBuf

namespace Manager

variable (m : Manager)

/-- Put a session back. -/
def put (s : ManagedSession) : Manager := { m with session := some s }

/-- Put a session back together with the thread it started. -/
def putJob (s : ManagedSession) (job : Option SpawnJob) : Manager :=
  { m.put s with jobs := m.jobs ++ job.toList }

/-- `open_session_wal`: the path and the header of a new log file, or
nothing when it cannot be created. -/
def openSessionWal (id : ServerSessionId) (label : String) (cwd : PathBuf)
    (provider : AgentProvider) (fate : Fate) : Option (PathBuf × WalHeader) :=
  match m.walDir, fate.createError with
  | some dir, none =>
      some (s!"{dir}/{id}.log",
        { serverSessionId := id, label, cwd, permissionMode := m.defaultPermissionMode, provider })
  | _, _ => none

/-- `do_create`. -/
def doCreate (id : ServerSessionId) (cwd : PathBuf) (label : String) (provider : AgentProvider)
    (resumeSessionId : Option String) (fate : Fate) : Manager × SessionInfo :=
  let wal := m.openSessionWal id label cwd provider fate
  let s := newManagedSession id label cwd provider m.defaultPermissionMode (wal.map (·.1))
    (wal.toList.map (·.2.record)) m.limits
  let info := s.info
  let s := { s with walIo := fate.walIo }.emit (.sessionCreated info)
  let job : SpawnJob :=
    { cwd, provider, resumeId := resumeSessionId, resumeOnly := false, expectedGeneration := 0,
      isRespawn := false }
  let (s, job, _) := s.startJob job fate.threadError "could not start agent spawn worker"
  (m.putJob s job, info)

/-- `do_close`: the file goes first; only then the session. -/
def doClose (s : ManagedSession) (fate : Fate) : Manager × Except String Unit :=
  match fate.deleteError with
  | some error =>
      if s.walOpen then
        (m.put { s with walOpen := fate.reopenError.isNone },
          .error s!"could not delete session WAL: {error}")
      else if s.walPath.isSome then
        (m.put s, .error s!"could not delete session WAL: {error}")
      else close
  | none => close
where
  close : Manager × Except String Unit :=
    let s := s.failProviderDeliveries
      { failureClass := .cancelled, retryable := false, message := "provider session was closed" }
    ({ m with session := none, answers := m.answers ++ s.out.answers }, .ok ())

/-- The error of a command for a session that does not exist. -/
def noSuchSession (id : ServerSessionId) : String := s!"no such session: {id}"

/-- The answer to a delivery whose envelope does not serialize. -/
def unserializable (error : String) : ProviderDeliveryResult :=
  .failed
    { failureClass := .unsupportedContractValue, retryable := false,
      message := s!"could not serialize Cog delivery envelope: {error}" }

/-- `apply` of a command that names a session which does not exist. -/
def applyMissing (id : ServerSessionId) : Command → Manager × Reply
  | .cogDelivery request reply =>
      let result := match request.envelope.providerBlocks with
        | .error error => unserializable error
        | .ok _ => .failed
            { failureClass := .providerUnavailable, retryable := true,
              message := s!"no such provider session: {request.serverSessionId}" }
      ({ m with answers := m.answers ++ [(reply, result)] }, .none)
  | .attach _ => (m, .attached (.error (noSuchSession id)))
  | .detach => (m, .done (.ok ()))
  | .publishChannel _ _ _ _ => (m, .published none)
  | .spawnFailed _ _ | .record _ _ | .turnCount _ _ _ | .replayDone _ | .agentDisconnected _ =>
      (m, .none)
  | _ => (m, .done (.error (noSuchSession id)))

/-- `apply` of a command to its session. -/
def applyTo (s : ManagedSession) (fate : Fate) : Command → Manager × Reply
  | .attach cursor =>
      let (s, grant) := s.doAttach cursor
      (m.put s, .attached (.ok grant))
  | .detach => (m.put s.doDetach, .done (.ok ()))
  | .prompt text images =>
      let (s, result) := s.doPrompt text images
      (m.put s, .done result)
  | .steer text images =>
      let (s, result) := s.doSteer text images
      (m.put s, .done result)
  | .adminPrompt text =>
      let (s, result) := s.enqueuePrompt text []
      (m.put s, .done result)
  | .cogDelivery request reply =>
      match request.envelope.providerBlocks with
      | .error error => (m.put (s.answer reply (unserializable error)), .none)
      | .ok blocks =>
          (m.put (s.doCogDelivery { request, payload := .orderedTextBlocks blocks, reply }), .none)
  | .cancel => (m.put s.doCancel, .done (.ok ()))
  | .close =>
      let (m, result) := m.doClose s fate
      (m, .done result)
  | .restart =>
      let (s, job, result) := s.doRestart fate
      (m.putJob s job, .done result)
  | .rename label => (m.put (s.doRename label fate), .done (.ok ()))
  | .setArchived archived =>
      let (s, job, result) := s.doSetArchived archived fate
      (m.putJob s job, .done result)
  | .setPermissionMode mode =>
      let (s, result) := s.doSetPermissionMode mode fate
      (m.put s, .done result)
  | .setModel modelId =>
      let (s, result) := s.doSetModel modelId fate
      (m.put s, .done result)
  | .publishChannel handle expectedGeneration isRespawn resumed =>
      let (s, channel) := s.doPublishChannel handle expectedGeneration isRespawn resumed
      (m.put s, .published channel)
  | .spawnFailed expectedGeneration reason =>
      (m.put (s.handleSpawnFailed expectedGeneration reason), .none)
  | .record generation event =>
      (m.put (if generation ≠ s.channelGeneration then s else s.doRecord event), .none)
  | .turnCount generation turns outcome =>
      (m.put (if generation ≠ s.channelGeneration then s else s.doTurnCount turns outcome), .none)
  | .replayDone generation =>
      (m.put (if generation ≠ s.channelGeneration then s else { s with replayFence := 0 }), .none)
  | .agentDisconnected generation =>
      (m.put (s.handleSpawnFailed generation "agent disconnected"), .none)

/-- `apply`: one command. `id` is the session id the command names. A
`Create` names none and is `doCreate`. -/
def apply (id : ServerSessionId) (fate : Fate) (command : Command) : Manager × Reply :=
  match m.session with
  | none => m.applyMissing id command
  | some s => m.applyTo { s with walIo := fate.walIo } fate command

end Manager

end Yaldabaoth
