import Yaldabaoth.Lib.Machine
import Yaldabaoth.Model.AgentState
import Yaldabaoth.Model.Pump

/-!
# `Yaldabaoth.Model.DirectTile`: a tile on its own channel

`pump_session` of `agent_ui.rs`, for a session whose agent is a child of
the GUI. The worker of the channel first replays the conversation that
was resumed, ends it with `ReplayComplete`, and then counts the live
turns. A pump call drains up to a budget of replies, reads the counter,
and takes a turn to have ended when the queue was empty and the counter
is ahead of `last_seen`.

The worker goes on while a pump call runs: what it does between the
drain and the read of the counter is part of the call.
-/

set_option autoImplicit false

namespace Yaldabaoth

/-- What a worker does. -/
inductive WorkerAct where
  | emit (event : ReplyEvent)
  | countTurn
deriving Repr, DecidableEq

/-- The channel of a tile. `replaying` holds until the worker has sent
`ReplayComplete`. -/
structure DirectChannel where
  link : AgentLink
  replaying : Bool
deriving Repr, DecidableEq

namespace DirectChannel

/-- One act of the worker. There is one `ReplayComplete`, and live turns
come behind it. -/
def work (c : DirectChannel) : WorkerAct → Option DirectChannel
  | .emit event =>
      if c.replaying || event != .replayComplete then
        some {
          link := { c.link with replies := c.link.replies ++ [event] }
          replaying := c.replaying && event != .replayComplete }
      else none
  | .countTurn =>
      if c.replaying then none else some { c with link := { c.link with turns := c.link.turns + 1 } }

/-- Acts in a row. -/
def works (c : DirectChannel) (acts : List WorkerAct) : Option DirectChannel :=
  acts.foldlM work c

/-- A channel whose worker was just spawned. -/
def spawned (resumed : Bool) : DirectChannel :=
  { link := { replies := [], turns := 0, connected := true }, replaying := resumed }

end DirectChannel

/-- A tile and its channel. `noticed` is the counter at the last pump
call that found the queue drained and the counter raised; `folded` is
where a call put `last_seen` that met the end of the replay and noticed
no turn. Both are there for statements only. -/
structure DirectTile (T : Type) where
  claude : AgentState T
  channel : Option DirectChannel
  noticed : Nat
  folded : Nat

inductive DirectAct where
  | work (act : WorkerAct)
  | disconnect
  | submit (text : String)
  | pump (budget : Nat) (meanwhile : List WorkerAct)
deriving Repr, DecidableEq

namespace DirectTile

variable {T : Type} [Screen T]

/-- What a pump call reads: the replies it drained, whether it left some
in the queue, the counter, and the replies of the second drain. -/
structure PumpRead where
  events : List ReplyEvent
  morePending : Bool
  currentTurns : Nat
  tail : List ReplyEvent

/-- The drain of a pump call, and the queue behind it. -/
def drainUpTo (budget : Nat) (replies : List ReplyEvent) : List ReplyEvent × List ReplyEvent × Bool :=
  if budget < replies.length then (replies.take (budget + 1), replies.drop (budget + 1), true)
  else (replies, [], false)

/-- The reads of a pump call on a live channel, and the channel behind
it. -/
def readChannel (claude : AgentState T) (c : DirectChannel) (budget : Nat)
    (meanwhile : List WorkerAct) : Option (PumpRead × DirectChannel) :=
  let (events, replies, morePending) := drainUpTo budget c.link.replies
  match { c with link := { c.link with replies } }.works meanwhile with
  | none => none
  | some c =>
      let currentTurns := c.link.turns
      if !morePending && decide (claude.replayTurns.lastSeen < currentTurns) then
        some (⟨events, morePending, currentTurns, c.link.replies⟩,
          { c with link := { c.link with replies := [] } })
      else some (⟨events, morePending, currentTurns, []⟩, c)

/-- The turn end that `pump_session` infers. -/
def PumpRead.turnEnded (read : PumpRead) (claude : AgentState T) : Bool :=
  !read.morePending && decide (claude.replayTurns.lastSeen < read.currentTurns)

/-- What `pump_session` does with its reads. -/
def applyRead (claude : AgentState T) (read : PumpRead) : AgentState T :=
  let turnEnded := read.turnEnded claude
  let (claude, complete) := claude.applyReplyEvents read.events
  let (claude, complete) :=
    if turnEnded then
      let (claude, tailComplete) := claude.applyReplyEvents read.tail
      ({ claude with replayTurns := { claude.replayTurns with lastSeen := read.currentTurns } },
        complete || tailComplete)
    else (claude, complete)
  if turnEnded || complete then
    claude.settleTurn claude.generation claude.replayTurns.lastSeen turnEnded
  else claude

/-- A call that finds the queue drained and the counter raised. -/
def finds (s : DirectTile T) (read : PumpRead) : Bool :=
  !read.morePending && decide (s.noticed < read.currentTurns)

/-- `pump_session`. -/
def pump (s : DirectTile T) (budget : Nat) (meanwhile : List WorkerAct) : Option (DirectTile T) :=
  match s.channel with
  | none => some s
  | some c =>
      if !c.link.connected then
        some { s with
          channel := none
          claude :=
            { s.claude.onScreen (Screen.systemNotice "agent disconnected") with
                turnPhase := .idle, status := some "agent disconnected" } }
      else
        match readChannel s.claude c budget meanwhile with
        | none => none
        | some (read, c) =>
            let claude := applyRead s.claude read
            let complete := .replayComplete ∈ read.events ++ read.tail
            some {
              claude
              channel := some c
              noticed := if s.finds read then read.currentTurns else s.noticed
              folded :=
                if complete ∧ s.finds read = false then claude.replayTurns.lastSeen else s.folded }

def step (s : DirectTile T) : DirectAct → Option (DirectTile T)
  | .work act =>
      match s.channel with
      | none => none
      | some c =>
          if c.link.connected then (c.work act).map fun c => { s with channel := some c } else none
  | .disconnect =>
      match s.channel with
      | none => none
      | some c => some { s with channel := some { c with link := { c.link with connected := false } } }
  | .submit text => some { s with claude := s.claude.submit text }
  | .pump budget meanwhile => s.pump budget meanwhile

/-- A tile that was just attached to its channel. -/
def attached (resumed : Bool) : DirectTile T where
  claude := .fresh false
  channel := some (.spawned resumed)
  noticed := 0
  folded := 0

/-- The machine of a tile, its user and its worker. -/
def machine : Machine (DirectTile T) DirectAct where
  start s := ∃ resumed, s = attached resumed
  step := step

end DirectTile

end Yaldabaoth
