import Yaldabaoth.Model.Wire

/-!
# `Yaldabaoth.Model.Transport`: the actor's half of a live agent channel

`TransportHandle` of `acp_channel.rs`: the sending ends and shared
flags the session actor holds of a channel whose owner, and whose
worker, run elsewhere. What the worker shares with the handle
(`connected`, `receiving`) are fields here, and what was handed to it
is `inbox`.

`sentFor` has no counterpart in the source. It labels an input with
the provider delivery it was sent for, so that a statement can say
which turn consumed it.
-/

set_option autoImplicit false

namespace Yaldabaoth

/-- One input for the worker. -/
inductive WorkerInput where
  | prompt (payload : PromptPayload) (sentFor : Option Nat)
  | steer (payload : PromptPayload) (sentFor : Option Nat)
  | cancel
deriving Repr, DecidableEq

structure TransportHandle where
  /-- The liveness flag, shared with the worker. -/
  connected : Bool
  /-- Whether the worker still holds the receiving ends. -/
  receiving : Bool
  steeringSupported : Bool
  sessionId : Option String
  permissionMode : PermissionMode
  /-- The model last asked for. -/
  model : Option String
  generation : Nat
  /-- What the worker was handed, in order. -/
  inbox : List WorkerInput
deriving Repr, DecidableEq

namespace TransportHandle

variable (handle : TransportHandle)

def isConnected : Bool := handle.connected

def supportsSteering : Bool := handle.steeringSupported

/-- The shared tail of the two sends: fail on a dead worker, and mark
the handle when its channel turns out closed. -/
def enqueue (input : WorkerInput) (closed : String) : TransportHandle × Except String Unit :=
  if !handle.connected then
    (handle, .error "ACP agent gone (worker exited) — re-attach to recover")
  else if !handle.receiving then ({ handle with connected := false }, .error closed)
  else ({ handle with inbox := handle.inbox ++ [input] }, .ok ())

/-- `send_payload`. -/
def sendPayload (payload : PromptPayload) (sentFor : Option Nat) :
    TransportHandle × Except String Unit :=
  handle.enqueue (.prompt payload sentFor) "ACP worker channel closed"

/-- `steer_payload`. -/
def steerPayload (payload : PromptPayload) (sentFor : Option Nat) :
    TransportHandle × Except String Unit :=
  if !handle.steeringSupported then
    (handle, .error "ACP agent does not advertise native steering")
  else handle.enqueue (.steer payload sentFor) "ACP steering channel closed"

/-- `cancel`: best effort, so a closed channel is no error. -/
def cancel : TransportHandle :=
  if handle.receiving then { handle with inbox := handle.inbox ++ [.cancel] } else handle

/-- `steer_or_replace_payload`. -/
def steerOrReplacePayload (payload : PromptPayload) (sentFor : Option Nat) :
    TransportHandle × Except String Unit :=
  if handle.steeringSupported then handle.steerPayload payload sentFor
  else handle.cancel.sendPayload payload sentFor

def setPermissionMode (mode : PermissionMode) : TransportHandle :=
  { handle with permissionMode := mode }

def setModel (modelId : String) : TransportHandle := { handle with model := some modelId }

end TransportHandle

end Yaldabaoth
