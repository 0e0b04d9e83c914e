import Yaldabaoth.Model.Wire

/-!
# `Yaldabaoth.Model.EventLog`: the bounded in-memory log

`event_log.rs`, and the one caller that trims it (`compact_event_log`
of the session server). The log keeps a window of the transcript: the
entry at index `i` has the logical seq `logBase + i`, trims advance
the base, and a `CompactedSummary` marker takes the slot of the last
entry a trim dropped.
-/

set_option autoImplicit false

namespace Yaldabaoth

/-- A window of the transcript and the logical seq of its first entry. -/
structure EventLog where
  entries : List Notification
  logBase : Nat
deriving Repr, DecidableEq

/-- How a reconnect cursor resolves against a log. -/
inductive CursorResolution where
  | fromBase
  | tail (vecIndex : Nat)
deriving Repr, DecidableEq

/-- The index a forwarder starts at. -/
def CursorResolution.initialVecIndex : CursorResolution → Nat
  | .fromBase => 0
  | .tail vecIndex => vecIndex

/-- What a front trim did. -/
structure TrimResult where
  dropped : Nat
  newBase : Nat
  throughTurn : Option Nat
deriving Repr, DecidableEq

/-- The turn a notification carries, if any. -/
def noteTurn : Notification → Option Nat
  | .agent event => some event.turn
  | .turnEnded _ turnCount _ => some (turnCount - 1)
  | _ => none

namespace EventLog

/-- A fresh log. -/
def new : EventLog := { entries := [], logBase := 0 }

/-- A log whose first entry has the seq `logBase`. -/
def fromRecovered (entries : List Notification) (logBase : Nat) : EventLog :=
  { entries, logBase }

variable (log : EventLog)

/-- The entries from an index on. -/
def tailFrom (vecIndex : Nat) : List Notification := log.entries.drop vecIndex

def len : Nat := log.entries.length

/-- One past the last logical seq. -/
def tipSeq : Nat := log.logBase + log.entries.length

def seqOf (vecIndex : Nat) : Nat := log.logBase + vecIndex

/-- Append one entry; its seq comes back. -/
def push (note : Notification) : EventLog × Nat :=
  ({ log with entries := log.entries ++ [note] }, log.tipSeq)

/-- Put a marker in front, in the slot of the last dropped entry. -/
def prepend (note : Notification) : EventLog :=
  { entries := note :: log.entries, logBase := log.logBase - 1 }

/-- Trim the front down to `target` once the log exceeds `cap`, never
past `floorSeq`. -/
def trim (cap target floorSeq : Nat) : EventLog × Option TrimResult :=
  let len := log.entries.length
  if len ≤ cap then (log, none)
  else
    let wantDrop := len - target
    let maxDroppable := min (floorSeq - log.logBase) len
    let dropped := min wantDrop maxDroppable
    if dropped = 0 then (log, none)
    else
      let throughTurn := ((log.entries.take dropped).filterMap noteTurn).max?
      let newBase := log.logBase + dropped
      ({ entries := log.entries.drop dropped, logBase := newBase },
        some { dropped, newBase, throughTurn })

/-- Resolve a cursor `(generation, acked seq)`: a tail when the
generation is current and the seq is in the window, else the base. -/
def resolveCursor (cursor : Option (Nat × Nat)) (currentGen : Nat) : CursorResolution :=
  match cursor with
  | none => .fromBase
  | some (cursorGen, ackedSeq) =>
      if cursorGen ≠ currentGen then .fromBase
      else if ackedSeq < log.logBase ∨ log.tipSeq < ackedSeq then .fromBase
      else .tail (ackedSeq - log.logBase)

/-- The same for a live forwarder's position. -/
def resolveSent (sentSeq currentGen : Nat) : CursorResolution :=
  log.resolveCursor (some (currentGen, sentSeq)) currentGen

end EventLog

/-- The low-water mark of a trim: three quarters of the cap, with a
slot left for the marker. -/
def trimTarget (cap : Nat) : Nat := min (max (cap * 3 / 4) 1) (cap - 1)

/-- The marker a trim leaves in its place. -/
def compactedSummary (sessionId : ServerSessionId) (generation : Nat) (trim : TrimResult) :
    Notification :=
  let throughTurn := trim.throughTurn.getD 0
  .agent {
    sessionId
    generation
    turn := throughTurn
    seq := trim.newBase - 1
    kind := .compactedSummary throughTurn
      (s!"history compacted: {trim.dropped} earlier event(s) trimmed " ++
        s!"(through turn {throughTurn})") }

/-- `compact_event_log`: trim a log past its cap and put the marker in
front. -/
def compactEventLog (log : EventLog) (sessionId : ServerSessionId) (generation cap floor : Nat) :
    EventLog × Option Nat :=
  match log.trim cap (trimTarget cap) floor with
  | (log', none) => (log', none)
  | (log', some trim) =>
      (log'.prepend (compactedSummary sessionId generation trim), some trim.dropped)

end Yaldabaoth
