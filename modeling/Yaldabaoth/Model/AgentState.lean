import Yaldabaoth.Model.AgentTranscript
import Yaldabaoth.Model.Wire

/-!
# `Yaldabaoth.Model.AgentState`: the reducers of an agent tile

What the GUI folds into the state of one agent session: `AgentState` of
`agent.rs`, and `apply_reply_events`, `apply_agent_event`,
`settle_agent_effect` and `apply_server_batch` of `agent_ui.rs`. The
server sends every fact twice, as an `Agent` event and as its older twin,
and the reducers pick one of the two.

What a tile shows is a parameter: the reducers only hand it the
operations of `Screen`. Clocks, the caret, the draft of the user and the
naming of sessions are left out.
-/

set_option autoImplicit false

namespace Yaldabaoth

/-! ### Turn numbers -/

/-- The tag of a line of the transcript. -/
inductive TurnId where
  | llm (turn : Nat)
  | user (turn : Nat)
  | tool (turn : Nat)
  | system
deriving Repr, DecidableEq

/-- `ReplayTurns` of `acp_channel.rs`. The cursor `replayTurn` is 0
outside of a replay. -/
structure ReplayTurns where
  lastSeen : Nat
  replayTurn : Nat
deriving Repr, DecidableEq

namespace ReplayTurns

def new (lastSeen : Nat) : ReplayTurns := { lastSeen, replayTurn := 0 }

def currentTurn (r : ReplayTurns) : Nat := if 0 < r.replayTurn then r.replayTurn else r.lastSeen + 1

def advanceUserBoundary (r : ReplayTurns) : ReplayTurns :=
  { r with replayTurn := if r.replayTurn = 0 then r.lastSeen + 1 else r.replayTurn + 1 }

def finishReplay (r : ReplayTurns) : ReplayTurns :=
  { lastSeen := max r.replayTurn r.lastSeen, replayTurn := 0 }

end ReplayTurns

/-- `TurnPhase`, without its clocks. -/
inductive TurnPhase where
  | idle
  | awaiting
  | stopRequested (escalated : Bool)
deriving Repr, DecidableEq

def TurnPhase.isAwaiting : TurnPhase → Bool
  | .idle => false
  | _ => true

/-! ### The state -/

/-- What the reducers do to the transcript of a tile: its editor and its
tool calls. -/
class Screen (T : Type) where
  /-- The editor and the tool calls of a fresh tile. -/
  blank : T
  /-- `append_llm_chunk_floored` above the draft of the user. -/
  chunk (turn : Nat) (text : String) : T → T
  /-- `anchor_for_new_tool_call` and `register`. -/
  toolCallStarted (turn : Nat) (toolCall : ToolCall) : T → T
  /-- `update` of a known call; an unknown one is started. -/
  toolCallUpdated (turn : Nat) (update : ToolCallUpdate) : T → T
  /-- `append_system_notice`. -/
  systemNotice (msg : String) : T → T
  /-- `freeze_as_user_turn`. -/
  userTurn (turn : Nat) (text : String) : T → T
  /-- `finalize_agent_turn`. -/
  endTurn : T → T

structure AgentState (T : Type) where
  screen : T
  serverManaged : Bool
  generation : Nat
  turnPhase : TurnPhase
  replayTurns : ReplayTurns
  reconciler : UserTurnReconciler
  userTurnKs : List Nat
  /-- The `(generation, turn)` ledger. -/
  finalized : List (Nat × Nat)
  replayPrefixFinalized : Bool
  agentStreamAuthoritative : Bool
  unread : Bool
  status : Option String
  currentPlan : Option Plan
  agentMode : Option SessionModeId
  agentModel : Option String
  availableModels : List ModelOption
  availableCommands : List AgentCommand
  usage : Option UsageSnapshot
  /-- The turns whose end `finalize_agent_turn_idem` accepted from a live
  boundary, in order. It is there for statements only. -/
  settled : List Nat

/-- The boundary that an event was found to be. -/
inductive AgentEventEffect where
  | none
  | turnEnded (generation turn : Nat)
  | replayEnded
deriving Repr, DecidableEq

namespace AgentState

variable {T : Type} [Screen T]

/-- A tile that was just opened. -/
def fresh (serverManaged : Bool) : AgentState T where
  screen := Screen.blank
  serverManaged
  generation := 0
  turnPhase := .idle
  replayTurns := .new 0
  reconciler := .new
  userTurnKs := []
  finalized := []
  replayPrefixFinalized := false
  agentStreamAuthoritative := false
  unread := false
  status := none
  currentPlan := none
  agentMode := none
  agentModel := none
  availableModels := []
  availableCommands := []
  usage := none
  settled := []

/-- Change the transcript. -/
def onScreen (claude : AgentState T) (f : T → T) : AgentState T :=
  { claude with screen := f claude.screen }

def currentTurn (claude : AgentState T) : Nat := claude.replayTurns.currentTurn

def nextUnusedUserTurn (claude : AgentState T) : Nat :=
  match claude.userTurnKs.max? with
  | none => 1
  | some k => k + 1

/-! ### User turns -/

/-- `register_user_turn`: the number of the turn to insert, if any. -/
def registerUserTurn (claude : AgentState T) (text : String) (origin : UserTurnOrigin)
    (advanceBoundary : Bool) : AgentState T × Option Nat :=
  let (reconciler, action) := claude.reconciler.reconcile origin text advanceBoundary
  let claude := { claude with reconciler }
  match action with
  | .skip => (claude, none)
  | .insert advanceBoundary =>
      let (claude, k) :=
        if advanceBoundary then
          let replayTurns := claude.replayTurns.advanceUserBoundary
          ({ claude with replayTurns }, replayTurns.replayTurn)
        else (claude, max claude.currentTurn claude.nextUnusedUserTurn)
      if k ∈ claude.userTurnKs then (claude, none)
      else ({ claude with userTurnKs := k :: claude.userTurnKs }, some k)

def insertUserTurn (claude : AgentState T) (text : String) (origin : UserTurnOrigin)
    (advanceBoundary : Bool) : AgentState T :=
  match claude.registerUserTurn text origin advanceBoundary with
  | (claude, some k) => claude.onScreen (Screen.userTurn k text)
  | (claude, none) => claude

/-- The part of `send_prompt_to_session` behind a prompt that was sent. -/
def submit (claude : AgentState T) (text : String) : AgentState T :=
  { claude.insertUserTurn text .localSubmit false with turnPhase := .awaiting }

/-! ### Turn ends -/

/-- `finalize_agent_turn_idem`, and whether it finalized. -/
def finalizeAgentTurnIdem (claude : AgentState T) (generation turn : Nat) (raiseUnread : Bool) :
    AgentState T × Bool :=
  if (generation, turn) ∈ claude.finalized then (claude, false)
  else
    let claude := claude.onScreen Screen.endTurn
    ({ claude with
        finalized := (generation, turn) :: claude.finalized
        unread := claude.unread || raiseUnread
        settled := if raiseUnread then claude.settled ++ [turn] else claude.settled }, true)

/-- Finalize, and rest when that happened. -/
def settleTurn (claude : AgentState T) (generation turn : Nat) (raiseUnread : Bool) :
    AgentState T :=
  match claude.finalizeAgentTurnIdem generation turn raiseUnread with
  | (claude, true) => { claude with turnPhase := .idle }
  | (claude, false) => claude

/-- `finalize_replay_prefix`, and whether it did anything. -/
def finalizeReplayPrefix (claude : AgentState T) : AgentState T × Bool :=
  if claude.replayPrefixFinalized then (claude, false)
  else ({ claude.onScreen Screen.endTurn with replayPrefixFinalized := true }, true)

def finishReplay (claude : AgentState T) : AgentState T :=
  { claude with replayTurns := claude.replayTurns.finishReplay }

/-- `settle_agent_effect`. -/
def settleAgentEffect (claude : AgentState T) : AgentEventEffect → AgentState T
  | .none => claude
  | .turnEnded generation turn => claude.settleTurn generation turn true
  | .replayEnded =>
      match claude.finalizeReplayPrefix with
      | (claude, true) =>
          if !claude.turnPhase.isAwaiting then { claude with turnPhase := .idle } else claude
      | (claude, false) => claude

/-! ### Generations -/

/-- `begin_server_generation`. -/
def beginServerGeneration (claude : AgentState T) : AgentState T :=
  { claude with
      turnPhase := .idle
      replayTurns := .new 0
      reconciler := .new
      userTurnKs := []
      finalized := []
      replayPrefixFinalized := false
      agentStreamAuthoritative := false }

/-- `reset_for_replay`. The generation stays. -/
def resetForReplay (claude : AgentState T) : AgentState T :=
  { claude.beginServerGeneration with
      screen := Screen.blank
      currentPlan := none
      usage := none }

/-! ### The older stream -/

/-- One pass of the loop of `apply_reply_events`; the flag is
`replay_complete`. -/
def applyReplyEvent (claude : AgentState T) : ReplyEvent → AgentState T × Bool
  | .chunk text =>
      ({ claude with status := none }.onScreen (Screen.chunk claude.currentTurn text), false)
  | .toolCallStarted tc => (claude.onScreen (Screen.toolCallStarted claude.currentTurn tc), false)
  | .toolCallUpdated upd => (claude.onScreen (Screen.toolCallUpdated claude.currentTurn upd), false)
  | .planUpdated plan => ({ claude with currentPlan := some plan }, false)
  | .modeChanged mode => ({ claude with agentMode := some mode }, false)
  | .modelChanged model => ({ claude with agentModel := some model }, false)
  | .modelsAvailable current options =>
      ({ claude with agentModel := some current, availableModels := options }, false)
  | .availableCommands commands => ({ claude with availableCommands := commands }, false)
  | .usageUpdated usage => ({ claude with usage := some usage }, false)
  | .notice msg => ({ claude.onScreen (Screen.systemNotice msg) with status := some msg }, false)
  | .userMessage text => (claude.insertUserTurn text .echo (!claude.serverManaged), false)
  | .replayComplete =>
      ({ claude.finishReplay with reconciler := claude.reconciler.noteTurnProgressed }, true)
  | .turnEnded _ => (claude, false)
  | .turnSettled _ _ => (claude, false)

/-- `apply_reply_events`, and whether a `ReplayComplete` was among them. -/
def applyReplyEvents (claude : AgentState T) (events : List ReplyEvent) : AgentState T × Bool :=
  events.foldl (fun (claude, complete) event =>
    let (claude, seen) := claude.applyReplyEvent event
    (claude, complete || seen)) (claude, false)

/-! ### The canonical stream -/

/-- The note that stands for a compacted prefix. -/
def compactedNote (throughTurn : Nat) (summary : String) : String :=
  if summary.isEmpty then s!"history compacted through turn {throughTurn}"
  else s!"history compacted through turn {throughTurn}: {summary}"

/-- The `match` of `apply_agent_event`, for an event of the current
generation. -/
def applyAgentKind (claude : AgentState T) (generation turn : Nat) :
    AgentEventKind → AgentState T × AgentEventEffect
  | .channelOpened _ => (claude, .none)
  | .chunk text _ => ({ claude with status := none }.onScreen (Screen.chunk turn text), .none)
  | .toolCallStarted tc => (claude.onScreen (Screen.toolCallStarted turn tc), .none)
  | .toolCallUpdated upd => (claude.onScreen (Screen.toolCallUpdated turn upd), .none)
  | .planUpdated plan => ({ claude with currentPlan := some plan }, .none)
  | .modeChanged mode => ({ claude with agentMode := some mode }, .none)
  | .modelChanged model => ({ claude with agentModel := some model }, .none)
  | .modelsAvailable current options =>
      ({ claude with agentModel := some current, availableModels := options }, .none)
  | .availableCommands commands => ({ claude with availableCommands := commands }, .none)
  | .usageUpdated usage => ({ claude with usage := some usage }, .none)
  | .notice _ msg => ({ claude.onScreen (Screen.systemNotice msg) with status := some msg }, .none)
  | .userMessage text => (claude.insertUserTurn text .echo (!claude.serverManaged), .none)
  | .turnEnded outcome =>
      let claude :=
        { claude with
            agentStreamAuthoritative := true
            reconciler := claude.reconciler.noteTurnProgressed }
      match outcome with
      | .replayEnd => (claude.finishReplay, .replayEnded)
      | .failed msg =>
          ({ claude with
              status := some msg
              replayTurns := { claude.replayTurns with lastSeen := turn } },
            .turnEnded generation turn)
      | _ =>
          ({ claude with replayTurns := { claude.replayTurns with lastSeen := turn } },
            .turnEnded generation turn)
  | .compactedSummary throughTurn summary =>
      (claude.onScreen (Screen.systemNotice (compactedNote throughTurn summary)), .none)
  | .unknown _ _ => (claude, .none)

/-- `apply_agent_event`. A newer generation rebaselines, an older one is
dropped. -/
def applyAgentEvent (claude : AgentState T) (event : AgentEvent) :
    AgentState T × AgentEventEffect :=
  if claude.generation < event.generation then
    { claude.beginServerGeneration with generation := event.generation }.applyAgentKind
      event.generation event.turn event.kind
  else if event.generation < claude.generation then (claude, .none)
  else claude.applyAgentKind event.generation event.turn event.kind

/-! ### `apply_server_batch` -/

/-- `is_boundary`. -/
def isBoundary : AgentEventKind → Bool
  | .turnEnded _ => true
  | _ => false

/-- The `Agent` arm, for one event. -/
def observeAgentEvent (claude : AgentState T) (event : AgentEvent) : AgentState T :=
  if claude.agentStreamAuthoritative || isBoundary event.kind ||
      decide (claude.generation < event.generation) then
    let (claude, effect) := claude.applyAgentEvent event
    claude.settleAgentEffect effect
  else claude

/-- The `ReplyEvent` arm, for a run of replies. -/
def observeReplyRun (claude : AgentState T) (run : List ReplyEvent) : AgentState T :=
  if run.isEmpty || claude.agentStreamAuthoritative then claude
  else
    match claude.applyReplyEvents run with
    | (claude, true) => claude.settleTurn claude.generation claude.replayTurns.lastSeen false
    | (claude, false) => claude

/-- The `TurnEnded` arm. -/
def observeTurnEnded (claude : AgentState T) (turnCount generation : Nat) : AgentState T :=
  let claude :=
    { claude with
        reconciler := claude.reconciler.noteTurnProgressed
        replayTurns := { claude.replayTurns with lastSeen := turnCount } }
  claude.settleTurn (if 0 < generation then generation else claude.generation) (turnCount - 1) true

/-- A notice in the transcript and in the status line. -/
def noteStatus (claude : AgentState T) (msg : String) : AgentState T :=
  { claude.onScreen (Screen.systemNotice msg) with status := some msg }

/-- The arms for notifications that come alone. -/
def observe (claude : AgentState T) (sid : ServerSessionId) : Notification → AgentState T
  | .agent event => if event.sessionId = sid then claude.observeAgentEvent event else claude
  | .replyEvent _ _ => claude
  | .turnEnded sessionId turnCount generation =>
      if sessionId = sid then claude.observeTurnEnded turnCount generation else claude
  | .userPrompt sessionId text =>
      if sessionId = sid then claude.insertUserTurn text .echo false else claude
  | .sessionAttached sessionId acpSessionId =>
      let label := acpSessionId.getD "connected"
      if sessionId = sid then claude.noteStatus s!"attached: {label}" else claude
  | .sessionDetached sessionId reason =>
      if sessionId = sid then { claude.noteStatus s!"detached: {reason}" with turnPhase := .idle }
      else claude
  | .promptRejected sessionId reason _ =>
      if sessionId = sid then
        { claude.noteStatus s!"✗ message NOT delivered: {reason}" with turnPhase := .idle }
      else claude
  | .sessionCreated _ | .sessionClosed _ | .sessionBusy _ _ | .sessionConnected _ _
  | .sessionRenamed _ _ | .sessionArchived _ _ => claude

/-- The loop of `apply_server_batch`, as far as it concerns the session
`sid`. `run` holds the replies in a row that were drained so far. -/
def drain (claude : AgentState T) (sid : ServerSessionId) (run : List ReplyEvent) :
    List Notification → AgentState T
  | [] => claude.observeReplyRun run
  | note :: rest =>
      match note with
      | .replyEvent sessionId event =>
          if sessionId = sid then claude.drain sid (run ++ [event]) rest
          else (claude.observeReplyRun run).drain sid [] rest
      | note => ((claude.observeReplyRun run).observe sid note).drain sid [] rest

/-- `apply_server_batch`. -/
def applyServerBatch (claude : AgentState T) (sid : ServerSessionId)
    (batch : List Notification) : AgentState T := claude.drain sid [] batch

end AgentState

end Yaldabaoth
