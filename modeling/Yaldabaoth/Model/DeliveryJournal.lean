import Yaldabaoth.Lib.LineLog
import Yaldabaoth.Model.CogWire
import Yaldabaoth.Model.SessionWal

/-!
# `Yaldabaoth.Model.DeliveryJournal`: the recovery journal of Cog deliveries

`cog_runtime/journal.rs`, function by function: one line a record, each
record a state transition of one delivery attempt. `append` validates,
writes, syncs and only then changes the memory; `openJournal` replays
the file, drops an unterminated last line and refuses anything else
that is out of order.

JSON text is a parameter (`JournalJson`), as it is for the session log,
and what the operating system does to a write is an `Io`.
-/

set_option autoImplicit false

namespace Yaldabaoth

open LineLog

/-! ### Records -/

inductive JournalState where
  | claimed
  | dispatchStarted (idempotencyKey : ProtocolUuid)
  | providerSucceeded (idempotencyKey : ProtocolUuid) (provider : ProviderReceipt)
  | providerFailed (idempotencyKey : ProtocolUuid) (failureClass : FailureClass)
      (retryable : Bool) (message : String)
  | cogCompleted
  | cogFailed
  | released (reason : String)
  | terminalObserved (reason : String)
deriving DecidableEq

namespace JournalState

/-- `is_locally_terminal`. -/
def isLocallyTerminal : JournalState → Bool
  | .cogCompleted | .cogFailed | .terminalObserved _ => true
  | _ => false

/-- The table of `validate_transition`. -/
def allows : JournalState → JournalState → Bool
  | .claimed, .dispatchStarted _
  | .claimed, .claimed
  | .claimed, .released _
  | .claimed, .terminalObserved _
  | .dispatchStarted _, .claimed
  | .released _, .claimed
  | .dispatchStarted _, .providerSucceeded _ _
  | .dispatchStarted _, .providerFailed _ _ _ _
  | .dispatchStarted _, .released _
  | .dispatchStarted _, .terminalObserved _
  | .released _, .terminalObserved _
  | .providerSucceeded _ _, .cogCompleted
  | .providerSucceeded _ _, .terminalObserved _
  | .providerFailed _ _ _ _, .cogFailed
  | .providerFailed _ _ _ _, .terminalObserved _ => true
  | _, _ => false

end JournalState

/-- What `append` is called with: a record without its number. -/
structure JournalEntry where
  at_ : Timestamp
  attemptId : OpaqueId
  deliveryKey : OpaqueId
  payloadDigest : Sha256Digest
  addressId : OpaqueId
  hostFence : Nat
  ownerGeneration : Nat
  attemptFence : Nat
  state : JournalState
deriving DecidableEq

structure JournalRecord extends JournalEntry where
  seq : Nat
deriving DecidableEq

inductive JournalError where
  | io
  | invalidData (message : String)
  /-- `invalid Cog journal transition {previous:?} -> {next:?}`. -/
  | invalidTransition (previous next : JournalState)
  | other (message : String)
deriving DecidableEq

/-- `validate_transition`. -/
def validateTransition (previous : Option JournalRecord) (next : JournalRecord) :
    Except JournalError Unit :=
  match previous with
  | none =>
      if next.state = .claimed then .ok ()
      else .error (.invalidData "first Cog journal state for an attempt must be claimed")
  | some previous =>
      if previous.deliveryKey ≠ next.deliveryKey ∨ previous.payloadDigest ≠ next.payloadDigest ∨
          previous.addressId ≠ next.addressId then
        .error (.invalidData "Cog journal attempt identity changed across transitions")
      else if previous.state.isLocallyTerminal then
        .error (.invalidData "Cog journal transition follows a terminal state")
      else if previous.state.allows next.state then .ok ()
      else .error (.invalidTransition previous.state next.state)

/-! ### JSON -/

/-- `serde_json` on journal records: the text of each, the parser, and
the message `to_vec` refuses a record with, if it does. -/
structure JournalJson extends Codec JournalRecord where
  refusal : JournalRecord → Option String

/-- What is relied upon: a record that is serialized is one line of text
that reads back, and glued text never does. -/
structure JournalJson.Lawful (json : JournalJson) : Prop where
  faithful : ∀ r, json.refusal r = none → json.Faithful r
  glueFree : json.GlueFree fun r => json.refusal r = none

/-! ### The live journal -/

structure JournalSnapshot where
  nextSeq : Nat
  attempts : IdMap JournalRecord

/-- An open journal: what its file holds, and what it remembers. -/
structure DeliveryJournal where
  contents : Bytes
  nextSeq : Nat
  attempts : IdMap JournalRecord

namespace DeliveryJournal

variable (json : JournalJson)

def snapshot (j : DeliveryJournal) : JournalSnapshot :=
  { nextSeq := j.nextSeq, attempts := j.attempts }

def latest (j : DeliveryJournal) (attemptId : OpaqueId) : Option JournalRecord :=
  j.attempts[attemptId]?

/-- The write of `append` and what follows it: `write_all`, `sync_data`,
the next number, the map. -/
def writeRecord (j : DeliveryJournal) (r : JournalRecord) :
    Io → DeliveryJournal × Except JournalError JournalRecord
  | .writeFails written =>
      ({ j with contents := j.contents ++ (json.line r).take written }, .error .io)
  | .syncFails => ({ j with contents := j.contents ++ json.line r }, .error .io)
  | .done =>
      let j := { j with contents := j.contents ++ json.line r }
      match checkedAdd j.nextSeq 1 with
      | none => (j, .error (.other "Cog journal sequence exhausted"))
      | some nextSeq => ({ j with nextSeq, attempts := j.attempts.insert r.attemptId r }, .ok r)

/-- `DeliveryJournal::append`. -/
def append (j : DeliveryJournal) (entry : JournalEntry) (io : Io) :
    DeliveryJournal × Except JournalError JournalRecord :=
  let r : JournalRecord := { entry with seq := j.nextSeq }
  match validateTransition (j.latest r.attemptId) r with
  | .error e => (j, .error e)
  | .ok ()   =>
      match json.refusal r with
      | some message => (j, .error (.invalidData message))
      | none => j.writeRecord json r io

end DeliveryJournal

/-! ### Replay -/

/-- The state of the reading loop. -/
structure Replay where
  attempts : IdMap JournalRecord
  expectedSeq : Nat
  validLen : Nat

namespace Replay

variable (json : JournalJson)

/-- Before the first line. -/
def initial : Replay := { attempts := ∅, expectedSeq := 1, validLen := 0 }

/-- One pass of the loop over a line that has its newline, `text` being
the line without it. -/
def readRecord (w : Replay) (text : Bytes) : Except JournalError Replay :=
  if text = [] then .error (.invalidData "Cog delivery journal contains an empty record")
  else match json.decode text with
    | .error e => .error (.invalidData e)
    | .ok r =>
      if r.seq ≠ w.expectedSeq then
        .error (.invalidData
          s!"Cog delivery journal expected seq {w.expectedSeq}, got {r.seq}")
      else match validateTransition w.attempts[r.attemptId]? r with
        | .error e => .error e
        | .ok () =>
          match checkedAdd w.expectedSeq 1 with
          | none => .error (.other "Cog journal sequence exhausted")
          | some expectedSeq =>
              .ok { attempts := w.attempts.insert r.attemptId r, expectedSeq,
                    validLen := w.validLen + (text.length + 1) }

/-- The loop of `replay`. A line without its newline ends it. -/
def readLines : Replay → List Bytes → Except JournalError Replay
  | w, [] => .ok w
  | w, l :: ls =>
      if isTerminated l then
        match w.readRecord json l.dropLast with
        | .error e => .error e
        | .ok w'   => readLines w' ls
      else .ok w

end Replay

/-- `replay`. -/
def replay (json : JournalJson) (contents : Bytes) : Except JournalError Replay :=
  Replay.initial.readLines json (lines contents)

/-- `DeliveryJournal::open` on a file that can be read: replay it, and
cut away what stands behind the last record. -/
def openJournal (json : JournalJson) (contents : Bytes) :
    Except JournalError DeliveryJournal :=
  match replay json contents with
  | .error e => .error e
  | .ok w    =>
      .ok { contents := contents.take w.validLen, nextSeq := w.expectedSeq, attempts := w.attempts }

end Yaldabaoth
