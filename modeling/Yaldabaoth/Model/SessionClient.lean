import Yaldabaoth.Lib.Machine
import Yaldabaoth.Lib.Maps

/-!
# `Yaldabaoth.Model.SessionClient`: requests over one connection

`session_client.rs`: any number of callers in threads of their own, a
thread that writes requests to the socket, and one that reads what the
server sends. A caller numbers its request, leaves the sender of a channel
under the number in `pending`, and waits at the other end. The steps of the
machine are what the source does in one go: an atomic access, a critical
section, an operation on a channel. Between any two of them, all other
threads may move.

What the server sends is not restricted. The calls of the machine are kept
after they have returned, and so is all that was enqueued and read, for
statements about runs.
-/

set_option autoImplicit false

namespace Yaldabaoth

/-- The errors of `request_response` and `request_fire`. -/
inductive RequestError where
  | disconnected
  | writerGone
  | timedOut
deriving Repr, DecidableEq

/-- What the receiving end of a call's channel finds: its sender alive, a
response, or neither. -/
inductive Inbox (ρ : Type) where
  | waiting
  | holds (r : ρ)
  | closed
deriving Repr, DecidableEq

/-- How far a call has come, with its number from `fetch_add` on. -/
inductive CallPhase (ρ : Type) where
  | connected
  | numbered (id : Nat)
  | registered (id : Nat)
  | sent (id : Nat)
  /-- The writer is gone, and the entry is still to be removed. -/
  | refused (id : Nat)
  /-- `recv_timeout` gave up, and the entry is still to be removed. -/
  | late (id : Nat)
  /-- `recv_timeout` found no sender, and the entry is still to be removed. -/
  | cutOff (id : Nat)
  /-- The same, with `connected` still to be cleared. -/
  | reporting (id : Nat)
  /-- `request_fire` returns without a response. -/
  | returned (id : Option Nat) (result : Except RequestError (Option ρ))

def CallPhase.isReturned {ρ : Type} : CallPhase ρ → Bool
  | .returned _ _ => true
  | _ => false

/-- One call of `request_response`, or of `request_fire` if it does not
wait. -/
structure ClientCall (α ρ : Type) where
  req : α
  blocking : Bool
  phase : CallPhase ρ
  inbox : Inbox ρ := .waiting

/-- A frame that the server sends. -/
inductive ServerFrame (ρ ν : Type) where
  | response (id : Nat) (result : ρ)
  | notification (note : ν)
  | request

/-- How far a background thread has come that leaves. The writer still holds its end of
the request channel after it has failed all that was pending. -/
inductive ThreadPhase where
  | running
  | leaving
  | swept
  | gone
deriving Repr, DecidableEq

/-- The client, its handles and its threads. -/
structure SessionClient (α ρ ν : Type) where
  connected : Bool := true
  nextId : Nat := 1
  pending : Map Nat Nat := ∅
  /-- The request channel, and its senders all dropped. -/
  queue : List (Nat × α) := []
  dropped : Bool := false
  calls : List (ClientCall α ρ) := []
  /-- How far the `Drop` of the client itself has come. -/
  client : ThreadPhase := .running
  reader : ThreadPhase := .running
  writer : ThreadPhase := .running
  /-- The frames that the socket took. -/
  sent : List (Nat × α) := []
  notifications : List ν := []
  wakes : Nat := 0
  /-- All that was ever enqueued, and all responses ever read. -/
  enqueued : List (Nat × α) := []
  responses : List (Nat × ρ) := []

namespace SessionClient

variable {α ρ ν : Type}

/-- What a caller does next. -/
inductive CallStep where
  | number
  | register
  | enqueue
  /-- `recv_timeout` returns what it found. -/
  | receive
  /-- `recv_timeout` has waited for long enough. -/
  | expire
  /-- The entry is taken out of `pending`. -/
  | retire
  | report
deriving Repr, DecidableEq

inductive Action (α ρ ν : Type) where
  /-- A call begins: it reads `connected`. -/
  | call (req : α) (blocking : Bool)
  | caller (k : Nat) (next : CallStep)
  /-- The client is dropped, and with the last handle all senders are gone. -/
  | clientLeaves
  | clientSweeps
  | drop
  | write
  | writeFails
  | writerLeaves
  | writerSweeps
  | writerEnds
  | read (frame : ServerFrame ρ ν)
  | readerLeaves
  | readerSweeps

/-- Move a call on. -/
def setCall (s : SessionClient α ρ ν) (k : Nat) (c : ClientCall α ρ) : SessionClient α ρ ν :=
  { s with calls := s.calls.set k c }

/-- A sender that is dropped closes the channel of its call. -/
def dropSender (c : ClientCall α ρ) : ClientCall α ρ :=
  match c.inbox with
  | .waiting => { c with inbox := .closed }
  | _ => c

/-- A response goes into the channel. -/
def sendResponse (r : ρ) (c : ClientCall α ρ) : ClientCall α ρ := { c with inbox := .holds r }

/-- Whether `pending` holds the sender of a call. -/
def holdsSender (s : SessionClient α ρ ν) (k : Nat) : Bool :=
  s.pending.entries.any fun entry => entry.2 == k

/-- `fail_all_pending`: every sender in the map is dropped. -/
def failAllPending (s : SessionClient α ρ ν) : SessionClient α ρ ν :=
  { s with
    pending := ∅
    calls := s.calls.mapIdx fun k c => if s.holdsSender k then dropSender c else c }

/-- `map.insert(id, resp_tx)` of the call `k`. -/
def register (s : SessionClient α ρ ν) (id k : Nat) : SessionClient α ρ ν :=
  { s with pending := s.pending.insert id k }

/-- `map.remove(&id)`, with the sender dropped. -/
def removePending (s : SessionClient α ρ ν) (id : Nat) : SessionClient α ρ ν :=
  match s.pending.lookup id with
  | none => s
  | some k => { s with pending := s.pending.erase id, calls := s.calls.modify k dropSender }

/-- What the reader does with one frame. -/
def readFrame (s : SessionClient α ρ ν) : ServerFrame ρ ν → SessionClient α ρ ν
  | .response id r =>
      let s := { s with responses := s.responses ++ [(id, r)] }
      match s.pending.lookup id with
      | none => s
      | some k => { s with
          pending := s.pending.erase id
          calls := s.calls.modify k (sendResponse r) }
  | .notification note =>
      { s with notifications := s.notifications ++ [note], wakes := s.wakes + 1 }
  | .request => s

def stepCall (s : SessionClient α ρ ν) (k : Nat) (c : ClientCall α ρ) :
    CallStep → Option (SessionClient α ρ ν)
  | .number =>
      match c.phase with
      | .connected =>
          some { s.setCall k { c with phase := .numbered s.nextId } with nextId := s.nextId + 1 }
      | _ => none
  | .register =>
      match c.phase, c.blocking with
      | .numbered id, true => some ((s.setCall k { c with phase := .registered id }).register id k)
      | _, _ => none
  | .enqueue =>
      match c.phase, c.blocking with
      | .registered id, true =>
          if s.writer = .gone then some (s.setCall k { c with phase := .refused id })
          else some { s.setCall k { c with phase := .sent id } with
            queue := s.queue ++ [(id, c.req)], enqueued := s.enqueued ++ [(id, c.req)] }
      | .numbered id, false =>
          if s.writer = .gone then
            some (s.setCall k { c with phase := .returned (some id) (.error .writerGone) })
          else some { s.setCall k { c with phase := .returned (some id) (.ok none) } with
            queue := s.queue ++ [(id, c.req)], enqueued := s.enqueued ++ [(id, c.req)] }
      | _, _ => none
  | .receive =>
      match c.phase, c.inbox with
      | .sent id, .holds r =>
          some (s.setCall k { c with phase := .returned (some id) (.ok (some r)) })
      | .sent id, .closed => some (s.setCall k { c with phase := .cutOff id })
      | _, _ => none
  | .expire =>
      match c.phase, c.inbox with
      | .sent id, .waiting => some (s.setCall k { c with phase := .late id })
      | _, _ => none
  | .retire =>
      match c.phase with
      | .refused id =>
          some ((s.setCall k { c with phase := .returned (some id) (.error .writerGone) }).removePending id)
      | .late id =>
          some ((s.setCall k { c with phase := .returned (some id) (.error .timedOut) }).removePending id)
      | .cutOff id => some ((s.setCall k { c with phase := .reporting id }).removePending id)
      | _ => none
  | .report =>
      match c.phase with
      | .reporting id =>
          some { s.setCall k { c with phase := .returned (some id) (.error .disconnected) } with
            connected := false }
      | _ => none

def step (s : SessionClient α ρ ν) : Action α ρ ν → Option (SessionClient α ρ ν)
  | .call req blocking =>
      if s.dropped then none
      else
        let phase := if s.connected then .connected else .returned none (.error .disconnected)
        some { s with calls := s.calls ++ [{ req, blocking, phase }] }
  | .clientLeaves =>
      if s.client = .running then some { s with client := .leaving, connected := false } else none
  | .clientSweeps =>
      if s.client = .leaving then some { s.failAllPending with client := .gone } else none
  | .drop =>
      if s.client = .gone ∧ s.calls.all (fun c => c.phase.isReturned) = true then
        some { s with dropped := true }
      else none
  | .write =>
      match s.writer, s.queue with
      | .running, frame :: queue => some { s with queue, sent := s.sent ++ [frame] }
      | _, _ => none
  | .writeFails =>
      match s.writer, s.queue with
      | .running, _ :: queue => some { s with queue, connected := false, writer := .leaving }
      | _, _ => none
  | .writerLeaves =>
      match s.writer, s.queue, s.dropped with
      | .running, [], true => some { s with writer := .leaving }
      | _, _, _ => none
  | .writerSweeps =>
      if s.writer = .leaving then some { s.failAllPending with writer := .swept } else none
  | .writerEnds =>
      if s.writer = .swept then some { s with writer := .gone, queue := [] } else none
  | .read frame => if s.reader = .running then some (s.readFrame frame) else none
  | .readerLeaves =>
      if s.reader = .running then some { s with reader := .leaving, connected := false } else none
  | .readerSweeps =>
      if s.reader = .leaving then some { s.failAllPending with reader := .gone } else none
  | .caller k next => s.calls[k]?.bind fun c => s.stepCall k c next

end SessionClient

/-- The client from `from_stream` on. -/
def sessionClient (α ρ ν : Type) : Machine (SessionClient α ρ ν) (SessionClient.Action α ρ ν) where
  start s := s = {}
  step := SessionClient.step

end Yaldabaoth
