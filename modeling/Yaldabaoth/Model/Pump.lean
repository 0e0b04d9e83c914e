import Yaldabaoth.Lib.Machine
import Yaldabaoth.Model.ReplayFence

/-!
# `Yaldabaoth.Model.Pump`: the thread that drains an agent

`spawn_pump_thread` and `take_settled_outcome` of the session server's
`main.rs`. A pump owns the client of one channel. Every cycle looks at
the liveness flag, drains replies up to a budget, reads the turn
counter, drains once more when a turn ended, and sends what is left of
the batch behind the replay fence to the session actor.

The worker is another thread: it can emit, count a turn or die between
any two reads of a cycle. `PumpRun` is the machine of both, one read
of the shared state a step, for a pump whose generation nothing
supersedes. What a pump sends is independent of what the actor does
with it, so a cycle's sends leave the machine together.
-/

set_option autoImplicit false

namespace Yaldabaoth

/-! ### Settled outcomes -/

/-- The `BTreeMap` from turn counts to outcomes, as its entries. -/
abbrev SettledOutcomes := List (Nat × TurnOutcome)

namespace SettledOutcomes

variable (outcomes : SettledOutcomes)

def insert (count : Nat) (outcome : TurnOutcome) : SettledOutcomes :=
  (count, outcome) :: outcomes.filter (·.1 ≠ count)

/-- Keep the outcomes of a batch's `TurnSettled` events. -/
def absorb (events : List ReplyEvent) : SettledOutcomes :=
  events.foldl
    (fun outcomes event => match event with
      | .turnSettled count outcome => outcomes.insert count outcome
      | _ => outcomes)
    outcomes

end SettledOutcomes

/-- `take_settled_outcome`: the stop reason of the boundary at
`currentTurns`, when exactly that one passed. -/
def takeSettledOutcome (outcomes : SettledOutcomes) (previousTurns currentTurns : Nat) :
    TurnOutcome × SettledOutcomes :=
  let outcome :=
    if currentTurns = previousTurns + 1 then
      (outcomes.lookup currentTurns).getD
        (.failed "provider turn boundary had no ACP stop reason")
    else .failed "provider turn counter skipped a correlatable boundary"
  (outcome, outcomes.filter fun entry => decide (currentTurns < entry.1))

/-! ### One cycle -/

/-- What a pump sends to the actor, short of the session and the
generation it is stamped with. -/
inductive PumpSend where
  | record (event : ReplyEvent)
  | turnCount (turns : Nat) (outcome : TurnOutcome)
  | replayDone
  | agentDisconnected
deriving Repr, DecidableEq

structure Pump where
  turnBase : Nat
  lastTurns : Nat
  settledOutcomes : SettledOutcomes
  fence : ReplayFence
deriving Repr, DecidableEq

/-- A pump as the thread starts it. -/
def Pump.new (initialReplayFence turnBase : Nat) : Pump :=
  { turnBase
    lastTurns := 0
    settledOutcomes := []
    fence := .new (decide (0 < initialReplayFence)) }

/-- What a batch comes to: what is sent for it, and what the fence kept
back. -/
structure CycleEnd where
  pump : Pump
  sends : List PumpSend
  discarded : List ReplyEvent
deriving Repr, DecidableEq

/-- Forward a batch past the fence, and the turn end behind it. -/
def Pump.forward (pump : Pump) (events tailEvents : List ReplyEvent) (turnEnded : Bool)
    (currentTurns : Nat) : Pump × List PumpSend :=
  if turnEnded then
    let (outcome, settledOutcomes) :=
      takeSettledOutcome pump.settledOutcomes pump.lastTurns currentTurns
    ({ pump with settledOutcomes, lastTurns := currentTurns },
      events.map .record ++ tailEvents.map .record ++
        [.turnCount (pump.turnBase + currentTurns) outcome])
  else (pump, events.map .record)

/-- The replay fence, and what gets past it. -/
def Pump.pastFence (pump : Pump) (events tailEvents : List ReplyEvent) (turnEnded : Bool)
    (currentTurns : Nat) : CycleEnd :=
  if pump.fence.isUp then
    -- the tail joins the batch first, so that a marker in it counts
    let events := events ++ tailEvents
    match pump.fence.onBatch events turnEnded with
    | (fence, none) | (fence, some .discard) =>
        { pump := { pump with fence }, sends := [], discarded := events }
    | (fence, some (.clearAtMarker markerIndex)) =>
        let (pump, sends) :=
          { pump with fence }.forward (events.drop markerIndex) [] turnEnded currentTurns
        { pump, sends := .replayDone :: sends, discarded := events.take markerIndex }
    | (fence, some .forceClear) =>
        let (pump, sends) := { pump with fence }.forward events [] turnEnded currentTurns
        { pump, sends := .replayDone :: sends, discarded := [] }
  else
    let (pump, sends) := pump.forward events tailEvents turnEnded currentTurns
    { pump, sends, discarded := [] }

/-- Whether a cycle that read the counter at `currentTurns` saw a turn
end. -/
def Pump.turnEnded (pump : Pump) (morePending : Bool) (currentTurns : Nat) : Bool :=
  !morePending && decide (pump.lastTurns < currentTurns)

/-- The part of a cycle behind its last read. `TurnSettled` is consumed
here and goes no further. -/
def Pump.finish (pump : Pump) (events tailEvents : List ReplyEvent) (morePending : Bool)
    (currentTurns : Nat) : CycleEnd :=
  { pump with
    settledOutcomes := (pump.settledOutcomes.absorb events).absorb tailEvents }.pastFence
    (events.filter (!·.isTurnSettled)) (tailEvents.filter (!·.isTurnSettled))
    (pump.turnEnded morePending currentTurns) currentTurns

/-! ### The pump and its worker -/

/-- What the worker and the pump share. -/
structure AgentLink where
  replies : List ReplyEvent
  turns : Nat
  connected : Bool
deriving Repr, DecidableEq

/-- Where a pump is in its cycle. -/
inductive PumpPhase where
  | top
  | draining (events : List ReplyEvent)
  | counting (events : List ReplyEvent) (morePending : Bool)
  | tailing (events : List ReplyEvent) (currentTurns : Nat) (tailEvents : List ReplyEvent)
  | done
deriving Repr, DecidableEq

/-- `PUMP_EVENT_BUDGET`. -/
def pumpEventBudget : Nat := 64

/-- A pump, its worker, and what has passed between them. `emitted` and
`discarded` are there for statements only. -/
structure PumpRun where
  link : AgentLink
  pump : Pump
  phase : PumpPhase
  sent : List PumpSend
  emitted : List ReplyEvent
  discarded : List ReplyEvent
deriving Repr, DecidableEq

inductive PumpAct where
  /-- The worker emits a reply. -/
  | emit (event : ReplyEvent)
  /-- The worker counts a turn. -/
  | countTurn
  /-- The worker goes away. -/
  | disconnect
  /-- The pump reads the shared state once. -/
  | cycle
deriving Repr, DecidableEq

namespace PumpRun

variable (s : PumpRun)

/-- Send the outcome of a batch, and start over. -/
def finish (events tailEvents : List ReplyEvent) (morePending : Bool) (currentTurns : Nat) :
    PumpRun :=
  let ending := s.pump.finish events tailEvents morePending currentTurns
  { s with
    pump := ending.pump
    phase := .top
    sent := s.sent ++ ending.sends
    discarded := s.discarded ++ ending.discarded }

/-- The next read of the pump. -/
def cycle : Option PumpRun :=
  match s.phase with
  | .top =>
      if !s.link.connected then
        some { s with sent := s.sent ++ [.agentDisconnected], phase := .done }
      else some { s with phase := .draining [] }
  | .draining events =>
      match s.link.replies with
      | [] => some { s with phase := .counting events false }
      | event :: replies =>
          let s := { s with link := { s.link with replies } }
          if events.length < pumpEventBudget then
            some { s with phase := .draining (events ++ [event]) }
          else some { s with phase := .counting (events ++ [event]) true }
  | .counting events morePending =>
      let currentTurns := s.link.turns
      if s.pump.turnEnded morePending currentTurns then
        some { s with phase := .tailing events currentTurns [] }
      else some (s.finish events [] morePending currentTurns)
  | .tailing events currentTurns tailEvents =>
      match s.link.replies with
      | [] => some (s.finish events tailEvents false currentTurns)
      | event :: replies =>
          some { s with
            link := { s.link with replies }
            phase := .tailing events currentTurns (tailEvents ++ [event]) }
  | .done => none

/-- One step of the worker or of the pump. A worker that went away does
nothing more. -/
def step (s : PumpRun) : PumpAct → Option PumpRun
  | .emit event =>
      if s.link.connected then
        some { s with
          link := { s.link with replies := s.link.replies ++ [event] }
          emitted := s.emitted ++ [event] }
      else none
  | .countTurn =>
      if s.link.connected then some { s with link := { s.link with turns := s.link.turns + 1 } }
      else none
  | .disconnect =>
      if s.link.connected then some { s with link := { s.link with connected := false } }
      else none
  | .cycle => s.cycle

/-- A pump that was just spawned on a live client. -/
def start (initialReplayFence turnBase : Nat) : PumpRun :=
  { link := { replies := [], turns := 0, connected := true }
    pump := .new initialReplayFence turnBase
    phase := .top
    sent := []
    emitted := []
    discarded := [] }

/-- The machine of a pump and its worker. -/
def machine : Machine PumpRun PumpAct where
  start s := ∃ initialReplayFence turnBase, s = start initialReplayFence turnBase
  step := step

end PumpRun

end Yaldabaoth
