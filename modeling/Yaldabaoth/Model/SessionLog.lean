import Yaldabaoth.Model.Wire

/-!
# `Yaldabaoth.Model.SessionLog`: what the log of a session looks like

The session actor records every fact of an agent in both vocabularies: a
reply as an `Agent` event and its older twin, the end of a live turn as
an `Agent` `TurnEnded` and the older `TurnEnded`, the end of a replay as
an `Agent` `ReplayEnd` and `ReplayComplete`. A `LogItem` is one such
fact, and `notes` are the notifications it is recorded as.
-/

set_option autoImplicit false

namespace Yaldabaoth

inductive LogFact where
  | opened (resumed : Bool)
  | attached (acpSessionId : Option String)
  | detached (reason : String)
  | prompt (text : String)
  | content (event : ReplyEvent)
  | turnEnd (outcome : TurnOutcome)
  | replayEnd
  | compacted (throughTurn : Nat) (summary : String)
deriving Repr, DecidableEq

/-- A fact under its envelope. The turn of a turn end is the index of the
turn that ended. -/
structure LogItem where
  generation : Nat
  turn : Nat
  seq : Nat
  fact : LogFact
deriving Repr, DecidableEq

namespace LogItem

/-- The `Agent` notification of a kind, under the item's envelope. -/
def agent (item : LogItem) (sid : ServerSessionId) (kind : AgentEventKind) : Notification :=
  .agent ⟨sid, item.generation, item.turn, item.seq, kind⟩

/-- What an item is recorded as. -/
def notes (item : LogItem) (sid : ServerSessionId) : List Notification :=
  match item.fact with
  | .opened resumed => [item.agent sid (channelOpenedKind resumed)]
  | .attached acpSessionId => [.sessionAttached sid acpSessionId]
  | .detached reason => [.sessionDetached sid reason]
  | .prompt text => [.userPrompt sid text, item.agent sid (.userMessage text)]
  | .content event =>
      ((agentKindFromReply event).map (item.agent sid)).toList ++ [.replyEvent sid event]
  | .turnEnd outcome =>
      [item.agent sid (turnEndedKind outcome), .turnEnded sid (item.turn + 1) item.generation]
  | .replayEnd => [item.agent sid replayEndKind, .replyEvent sid .replayComplete]
  | .compacted throughTurn summary => [item.agent sid (.compactedSummary throughTurn summary)]

def isTurnEnd (item : LogItem) : Bool :=
  match item.fact with
  | .turnEnd _ => true
  | _ => false

def isReplayEnd (item : LogItem) : Bool := item.fact == .replayEnd

/-- A reply has a twin, and a turn end is one of a live turn. -/
def Valid (item : LogItem) : Prop :=
  match item.fact with
  | .content event => (agentKindFromReply event).isSome
  | .turnEnd outcome => outcome ≠ .replayEnd
  | _ => True

instance (item : LogItem) : Decidable item.Valid := by
  unfold Valid
  split <;> infer_instance

end LogItem

/-- The live turns that a log has seen settle. -/
def settledTurns (log : List LogItem) : Nat :=
  ((log.filter LogItem.isTurnEnd).getLast?.map (·.turn + 1)).getD 0

/-- A log as the actor records it: generations never go back, and the
settled count goes up. -/
structure Recorded (log : List LogItem) : Prop where
  valid : ∀ item ∈ log, item.Valid
  generations : log.Pairwise fun a b => a.generation ≤ b.generation
  turns : (log.filter LogItem.isTurnEnd).Pairwise fun a b => a.turn < b.turn

end Yaldabaoth
