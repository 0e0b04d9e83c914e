import Yaldabaoth.Lib.Machine
import Yaldabaoth.Lib.Maps

/-!
# `Yaldabaoth.Model.SessionStore`: the agent sessions of the window

`SessionStore` of `agent_sessions.rs`: the sessions by their own ids, and an
index from the ids of the session server. The payloads are a type variable,
as they are in the source, and so are the server's ids.
-/

set_option autoImplicit false

namespace Yaldabaoth

structure SessionEntry (ς π : Type) where
  payload : π
  sid : Option ς
deriving DecidableEq

structure SessionStore (ς π : Type) where
  entries : Map Nat (SessionEntry ς π) := ∅
  bySid : Map ς Nat := ∅
  next : Nat := 0

/-- Whether a session was made, or was there. -/
inductive Bind where
  | created (id : Nat)
  | alreadyOpen (id : Nat)
deriving Repr, DecidableEq

namespace SessionStore

variable {ς π : Type} [DecidableEq ς]

def locate (s : SessionStore ς π) (sid : ς) : Option Nat := s.bySid.lookup sid

def sidOf (s : SessionStore ς π) (id : Nat) : Option ς := (s.entries.lookup id).bind SessionEntry.sid

def get (s : SessionStore ς π) (id : Nat) : Option π := (s.entries.lookup id).map SessionEntry.payload

def openOrFocus (s : SessionStore ς π) (sid : ς) (make : Nat → π) : Bind × SessionStore ς π :=
  match s.bySid.lookup sid with
  | some id => (.alreadyOpen id, s)
  | none =>
      (.created s.next,
        { entries := s.entries.insert s.next { payload := make s.next, sid := some sid }
          bySid := s.bySid.insert sid s.next
          next := s.next + 1 })

def createLocal (s : SessionStore ς π) (make : Nat → π) : Nat × SessionStore ς π :=
  (s.next, { s with
    entries := s.entries.insert s.next { payload := make s.next, sid := none }
    next := s.next + 1 })

/-- The error is `AlreadyBound`, with the owner. -/
def bindSid (s : SessionStore ς π) (id : Nat) (sid : ς) : Except Nat Unit × SessionStore ς π :=
  match s.bySid.lookup sid with
  | some owner => if owner = id then (.ok (), s) else (.error owner, s)
  | none =>
      match s.entries.lookup id with
      | none => (.ok (), s)
      | some entry =>
          let bySid := match entry.sid with
            | none => s.bySid
            | some old => s.bySid.erase old
          (.ok (), { s with
            entries := s.entries.insert id { entry with sid := some sid }
            bySid := bySid.insert sid id })

def clearSid (s : SessionStore ς π) (id : Nat) : Option ς × SessionStore ς π :=
  match s.entries.lookup id with
  | none => (none, s)
  | some entry =>
      match entry.sid with
      | none => (none, s)
      | some old =>
          (some old, { s with
            entries := s.entries.insert id { entry with sid := none }
            bySid := s.bySid.erase old })

/-- What is written through `get_mut`. -/
def setPayload (s : SessionStore ς π) (id : Nat) (payload : π) : SessionStore ς π :=
  match s.entries.lookup id with
  | none => s
  | some entry => { s with entries := s.entries.insert id { entry with payload } }

/-- What is written through `get_by_sid_mut`. -/
def setPayloadBySid (s : SessionStore ς π) (sid : ς) (payload : π) : SessionStore ς π :=
  match s.bySid.lookup sid with
  | none => s
  | some id => s.setPayload id payload

def close (s : SessionStore ς π) (id : Nat) : Option π × SessionStore ς π :=
  match s.entries.lookup id with
  | none => (none, s)
  | some entry =>
      (some entry.payload, { s with
        entries := s.entries.erase id
        bySid := match entry.sid with
          | none => s.bySid
          | some sid => s.bySid.erase sid })

inductive Call (ς π : Type) where
  | openOrFocus (sid : ς) (payload : π)
  | createLocal (payload : π)
  | bindSid (id : Nat) (sid : ς)
  | clearSid (id : Nat)
  | setPayload (id : Nat) (payload : π)
  | setPayloadBySid (sid : ς) (payload : π)
  | close (id : Nat)
deriving Repr, DecidableEq

def perform (s : SessionStore ς π) : Call ς π → SessionStore ς π
  | .openOrFocus sid payload => (s.openOrFocus sid fun _ => payload).2
  | .createLocal payload => (s.createLocal fun _ => payload).2
  | .bindSid id sid => (s.bindSid id sid).2
  | .clearSid id => (s.clearSid id).2
  | .setPayload id payload => s.setPayload id payload
  | .setPayloadBySid sid payload => s.setPayloadBySid sid payload
  | .close id => (s.close id).2

end SessionStore

/-- The store from `new` on. -/
def sessionStore (ς π : Type) [DecidableEq ς] :
    Machine (SessionStore ς π) (SessionStore.Call ς π) where
  start s := s = {}
  step s call := some (s.perform call)

end Yaldabaoth
