import Yaldabaoth.Model.Wire

/-!
# `Yaldabaoth.Model.ReplayFence`: suppressing a resume's replay

`replay_fence.rs`. A resumed channel re-emits the whole conversation
before any live event; a consumer that holds the history discards that
burst. The fence is up until the worker's end-of-replay marker, or
until a live turn ends with the marker still missing.
-/

set_option autoImplicit false

namespace Yaldabaoth

/-- What to do with one drained batch while the fence is up. -/
inductive FenceAction where
  | discard
  | clearAtMarker (markerIndex : Nat)
  | forceClear
deriving Repr, DecidableEq

structure ReplayFence where
  up : Bool
deriving Repr, DecidableEq

/-- The end-of-replay marker. -/
def ReplyEvent.isReplayComplete : ReplyEvent → Bool
  | .replayComplete => true
  | _ => false

namespace ReplayFence

def new (armed : Bool) : ReplayFence := { up := armed }

def isUp (fence : ReplayFence) : Bool := fence.up

/-- Classify one drained batch. `none` lets it through untouched. -/
def onBatch (fence : ReplayFence) (events : List ReplyEvent) (liveTurnEnded : Bool) :
    ReplayFence × Option FenceAction :=
  if !fence.up then (fence, none)
  else match events.findIdx? ReplyEvent.isReplayComplete with
    | some markerIndex => ({ up := false }, some (.clearAtMarker markerIndex))
    | none =>
        if liveTurnEnded then ({ up := false }, some .forceClear)
        else (fence, some .discard)

end ReplayFence

end Yaldabaoth
