import Yaldabaoth.Lib.LineLog
import Yaldabaoth.Model.Wire

/-!
# `Yaldabaoth.Model.SessionWal`: the per-session write-ahead log

`session_wal.rs`, function by function: the record type, the append
operations of a live handle (`SessionWal`), the repair a reopened file
gets (`repairTornTail`), the one reader (`walkWal`) and the summary a
restart is built from (`recoverOne`).

A file is its bytes, and JSON text is a parameter: `LineLog.Codec
WalRecord` stands for `serde_json`. What the operating system does to
one write is an `Io` value, so that a failed or cut write is an input
of the model like any other.
-/

set_option autoImplicit false

namespace Yaldabaoth

open LineLog

/-! ### Records -/

inductive PromptOutcome where
  | delivered
  | rejected
  | cancelled
deriving Repr, DecidableEq, Inhabited

/-- One line of a session log. -/
inductive WalRecord where
  | header (version : Nat) (serverSessionId : ServerSessionId) (label : String)
      (cwd : PathBuf) (permissionMode : PermissionMode) (provider : AgentProvider)
  | event (note : Notification)
  | rename (label : String)
  | archive (archived : Bool)
  | permission (mode : PermissionMode)
  | model (modelId : String)
  | promptIntent (id : Nat) (text : String) (textBlocks : List String)
      (images : List ImageAttachment)
  | promptTerminal (id : Nat) (outcome : PromptOutcome)
deriving Repr, DecidableEq

def walVersion : Nat := 3

def minReadableWalVersion : Nat := 1

/-- What an operation on a log can fail with. `panicked` is an
`expect` that did not hold. -/
inductive WalError where
  | io
  | invalidData (message : String)
  | panicked (message : String)
deriving Repr, DecidableEq

/-! ### Writing -/

/-- What the operating system does to one `write_all` and the
`sync_data` behind it: both succeed, the write fails with the first
`written` bytes of its line in the file, or only the sync fails. -/
inductive Io where
  | done
  | writeFails (written : Nat)
  | syncFails
deriving Repr, DecidableEq

/-- A live write handle: the file's path and what the file holds. -/
structure SessionWal where
  path : PathBuf
  contents : Bytes

namespace SessionWal

variable (codec : Codec WalRecord)

/-- `write_record`: one `write_all` of the record's line. -/
def writeRecord (wal : SessionWal) (rec : WalRecord) : Io → SessionWal × Except WalError Unit
  | .writeFails written =>
      ({ wal with contents := wal.contents ++ (codec.line rec).take written }, .error .io)
  | _ => ({ wal with contents := wal.contents ++ codec.line rec }, .ok ())

/-- `sync_data` after a write that succeeded. -/
def syncData : Io → Except WalError Unit
  | .syncFails => .error .io
  | _ => .ok ()

/-- Write a record, then sync when asked. Every append operation of the
handle is this one. -/
def appendRecord (wal : SessionWal) (rec : WalRecord) (fsync : Bool) (io : Io) :
    SessionWal × Except WalError Unit :=
  match wal.writeRecord codec rec io with
  | (wal', .error e) => (wal', .error e)
  | (wal', .ok ())   => (wal', if fsync then syncData io else .ok ())

def append (wal : SessionWal) (note : Notification) (fsync : Bool) (io : Io) :=
  wal.appendRecord codec (.event note) fsync io

def appendRename (wal : SessionWal) (label : String) (io : Io) :=
  wal.appendRecord codec (.rename label) true io

def appendArchived (wal : SessionWal) (archived : Bool) (io : Io) :=
  wal.appendRecord codec (.archive archived) true io

def appendPermissionMode (wal : SessionWal) (mode : PermissionMode) (io : Io) :=
  wal.appendRecord codec (.permission mode) true io

def appendModel (wal : SessionWal) (modelId : String) (io : Io) :=
  wal.appendRecord codec (.model modelId) true io

def appendPromptIntent (wal : SessionWal) (id : Nat) (payload : PromptPayload) (io : Io) :=
  wal.appendRecord codec
    (.promptIntent id payload.text payload.textBlocks payload.images) true io

def appendPromptTerminal (wal : SessionWal) (id : Nat) (outcome : PromptOutcome) (io : Io) :=
  wal.appendRecord codec (.promptTerminal id outcome) true io

end SessionWal

/-- The metadata a header line carries. -/
structure WalHeader where
  serverSessionId : ServerSessionId
  label : String
  cwd : PathBuf
  permissionMode : PermissionMode
  provider : AgentProvider
deriving Repr, DecidableEq

/-- The header record of a new log. -/
def WalHeader.record (h : WalHeader) : WalRecord :=
  .header walVersion h.serverSessionId h.label h.cwd h.permissionMode h.provider

/-- `create_for_provider` on a path that does not exist yet: an empty
file, then the header, synced. -/
def SessionWal.createForProvider (codec : Codec WalRecord) (path : PathBuf) (header : WalHeader)
    (io : Io) : SessionWal × Except WalError Unit :=
  SessionWal.appendRecord codec { path, contents := [] } header.record true io

/-- `repair_torn_tail`: a last line without its newline is terminated
when it decodes and cut away when it does not. -/
def repairTornTail (codec : Codec WalRecord) (contents : Bytes) : Bytes :=
  if contents = [] ∨ isTerminated contents then contents
  else match codec.decode (tail contents) with
    | .ok _    => contents ++ [newline]
    | .error _ => body contents

/-- `reopen`: the repaired file, ready for appends. -/
def SessionWal.reopen (codec : Codec WalRecord) (path : PathBuf) (contents : Bytes) : SessionWal :=
  { path, contents := repairTornTail codec contents }

/-! ### The seven append operations as data -/

/-- One append operation with its arguments. -/
inductive WalOp where
  | append (note : Notification) (fsync : Bool)
  | rename (label : String)
  | archived (value : Bool)
  | permissionMode (mode : PermissionMode)
  | model (modelId : String)
  | promptIntent (id : Nat) (payload : PromptPayload)
  | promptTerminal (id : Nat) (outcome : PromptOutcome)
deriving Repr, DecidableEq

/-- The record an operation writes. -/
def WalOp.record : WalOp → WalRecord
  | .append note _              => .event note
  | .rename label               => .rename label
  | .archived value             => .archive value
  | .permissionMode mode        => .permission mode
  | .model modelId              => .model modelId
  | .promptIntent id payload    => .promptIntent id payload.text payload.textBlocks payload.images
  | .promptTerminal id outcome  => .promptTerminal id outcome

/-- Run an operation on a handle. -/
def WalOp.run (codec : Codec WalRecord) (wal : SessionWal) (io : Io) :
    WalOp → SessionWal × Except WalError Unit
  | .append note fsync          => wal.append codec note fsync io
  | .rename label               => wal.appendRename codec label io
  | .archived value             => wal.appendArchived codec value io
  | .permissionMode mode        => wal.appendPermissionMode codec mode io
  | .model modelId              => wal.appendModel codec modelId io
  | .promptIntent id payload    => wal.appendPromptIntent codec id payload io
  | .promptTerminal id outcome  => wal.appendPromptTerminal codec id outcome io

/-- Whether an operation syncs after its write. -/
def WalOp.fsyncs : WalOp → Bool
  | .append _ fsync => fsync
  | _ => true

/-- Every operation is one `appendRecord` of its record. -/
theorem WalOp.run_eq (codec : Codec WalRecord) (wal : SessionWal) (io : Io) (op : WalOp) :
    op.run codec wal io = wal.appendRecord codec op.record op.fsyncs io := by
  cases op <;> rfl

/-! ### Reading -/

structure RecoveredPrompt where
  id : Nat
  payload : PromptPayload
deriving Repr, DecidableEq

/-- The settings and prompt records folded by the reader. -/
structure WalSettings where
  renamedLabel : Option String
  archived : Bool
  permissionOverride : Option PermissionMode
  modelId : Option String
  promptIntents : List RecoveredPrompt
  /-- The ids of a hash set; only membership is read. -/
  promptTerminal : List Nat
  maxPromptId : Option Nat
deriving Repr, DecidableEq

/-- The settings before any record. -/
def WalSettings.initial : WalSettings :=
  { renamedLabel := none, archived := false, permissionOverride := none, modelId := none,
    promptIntents := [], promptTerminal := [], maxPromptId := none }

/-- The non-transcript state of a log with a header. -/
structure WalMeta extends WalSettings where
  header : WalHeader

/-- The reader's state between two lines: the header seen last, the
settings, and the caller's own fold over the transcript. -/
structure Walk (σ : Type) where
  header : Option WalHeader
  settings : WalSettings
  acc : σ

/-- Go on to the next line, or stop the walk. -/
inductive Flow (σ : Type) where
  | next (state : σ)
  | stop (state : σ)

/-- `max_prompt_id.map_or(id, |seen| seen.max(id))`. -/
def raise (seen : Option Nat) (id : Nat) : Option Nat :=
  some (match seen with
    | none => id
    | some s => max s id)

section walk

variable {σ : Type}

/-- The `match rec` of `walk_wal`. `onEvent` answers `false` to stop. -/
def walkRecord (onEvent : Notification → σ → Except WalError (σ × Bool)) (lineNumber : Nat)
    (w : Walk σ) : WalRecord → Except WalError (Flow (Walk σ))
  | .header version serverSessionId label cwd permissionMode provider =>
      if minReadableWalVersion ≤ version ∧ version ≤ walVersion then
        .ok (.next { w with
          header := some { serverSessionId, label, cwd, permissionMode, provider } })
      else
        .error (.invalidData
          (s!"unsupported WAL version {version} at line {lineNumber}; " ++
            s!"supported versions are {minReadableWalVersion}..={walVersion}"))
  | .event note =>
      match onEvent note w.acc with
      | .error e            => .error e
      | .ok (acc, true)     => .ok (.next { w with acc })
      | .ok (acc, false)    => .ok (.stop { w with acc })
  | .rename label =>
      .ok (.next { w with settings := { w.settings with renamedLabel := some label } })
  | .archive archived =>
      .ok (.next { w with settings := { w.settings with archived } })
  | .permission mode =>
      .ok (.next { w with settings := { w.settings with permissionOverride := some mode } })
  | .model modelId =>
      .ok (.next { w with settings := { w.settings with modelId := some modelId } })
  | .promptIntent id text textBlocks images =>
      .ok (.next { w with settings := { w.settings with
        maxPromptId := raise w.settings.maxPromptId id
        promptIntents := w.settings.promptIntents ++ [{ id, payload := { text, textBlocks, images } }] } })
  | .promptTerminal id _ =>
      .ok (.next { w with settings := { w.settings with
        maxPromptId := raise w.settings.maxPromptId id
        promptTerminal := id :: w.settings.promptTerminal } })

/-- The loop of `walk_wal` over the lines still to read. -/
def walkLines (codec : Codec WalRecord)
    (onEvent : Notification → σ → Except WalError (σ × Bool)) :
    Nat → List Bytes → Walk σ → Except WalError (Walk σ)
  | _, [], w => .ok w
  | lineNumber, bytes :: rest, w =>
      if isBlank bytes then walkLines codec onEvent (lineNumber + 1) rest w
      else match codec.decode bytes with
        | .error error =>
            if !isTerminated bytes then .ok w
            else .error (.invalidData s!"malformed WAL record at line {lineNumber + 1}: {error}")
        | .ok rec =>
            match walkRecord onEvent (lineNumber + 1) w rec with
            | .error e        => .error e
            | .ok (.stop w')  => .ok w'
            | .ok (.next w')  => walkLines codec onEvent (lineNumber + 1) rest w'

/-- `walk_wal`. A file without a header has no metadata. -/
def walkWal (codec : Codec WalRecord) (contents : Bytes)
    (onEvent : Notification → σ → Except WalError (σ × Bool)) (acc : σ) :
    Except WalError (Option WalMeta × σ) :=
  match walkLines codec onEvent 0 (lines contents) { header := none, settings := .initial, acc } with
  | .error e => .error e
  | .ok w => .ok (w.header.map fun header => { w.settings with header }, w.acc)

end walk

/-! ### Recovery -/

/-- What `recover_one` folds over the transcript. -/
structure Tally where
  durableEvents : Nat
  acpSessionId : Option String
  legacyTurns : Nat
  agentMaxTurn : Option Nat
  maxGeneration : Option Nat
deriving Repr, DecidableEq

def Tally.initial : Tally :=
  { durableEvents := 0, acpSessionId := none, legacyTurns := 0, agentMaxTurn := none,
    maxGeneration := none }

/-- The closure `recover_one` walks the log with. -/
def Tally.note (tally : Tally) (note : Notification) : Tally :=
  let tally := { tally with durableEvents := tally.durableEvents + 1 }
  match note with
  | .sessionAttached _ (some id) => { tally with acpSessionId := some id }
  | .turnEnded _ _ _ => { tally with legacyTurns := tally.legacyTurns + 1 }
  | .agent event =>
      { tally with
        maxGeneration := raise tally.maxGeneration event.generation
        agentMaxTurn := match event.settledTurn? with
          | none => tally.agentMaxTurn
          | some turn => raise tally.agentMaxTurn turn }
  | _ => tally

/-- That closure never stops the walk and never fails. -/
def tallying (note : Notification) (tally : Tally) : Except WalError (Tally × Bool) :=
  .ok (tally.note note, true)

structure RecoveredSession where
  path : PathBuf
  serverSessionId : ServerSessionId
  label : String
  cwd : PathBuf
  permissionMode : PermissionMode
  modelId : Option String
  provider : AgentProvider
  durableEvents : Nat
  nextGeneration : Nat
  acpSessionId : Option String
  turns : Nat
  archived : Bool
  pendingPrompts : List RecoveredPrompt
  nextPromptId : Nat
deriving Repr, DecidableEq

/-- `next_generation`: one above every durable generation, and a panic
when there is none. -/
def nextGeneration (maxGeneration : Option Nat) : Except WalError Nat :=
  match maxGeneration with
  | none => .ok 0
  | some g =>
      match checkedAdd g 1 with
      | some next => .ok next
      | none => .error (.panicked "durable channel generation exhausted")

/-- The two counts of completed turns a log may carry, reconciled. -/
def Tally.turns (tally : Tally) : Nat :=
  max tally.legacyTurns (match tally.agentMaxTurn with
    | none => 0
    | some maxTurn => maxTurn + 1)

/-- What `recover_one` builds from the metadata and the tally. -/
def summarise (path : PathBuf) (m : WalMeta) (tally : Tally) : Except WalError RecoveredSession :=
  match nextGeneration tally.maxGeneration with
  | .error e => .error e
  | .ok nextGeneration => .ok {
      path
      serverSessionId := m.header.serverSessionId
      label := m.renamedLabel.getD m.header.label
      cwd := m.header.cwd
      permissionMode := m.permissionOverride.getD m.header.permissionMode
      modelId := m.modelId
      provider := m.header.provider
      durableEvents := tally.durableEvents
      nextGeneration
      acpSessionId := tally.acpSessionId
      turns := tally.turns
      archived := m.archived
      pendingPrompts := m.promptIntents.filter fun intent => !m.promptTerminal.contains intent.id
      nextPromptId := match m.maxPromptId with
        | none => 1
        | some id => saturatingAdd id 1 }

/-- `recover_one`. -/
def recoverOne (codec : Codec WalRecord) (path : PathBuf) (contents : Bytes) :
    Except WalError (Option RecoveredSession) :=
  match walkWal codec contents tallying Tally.initial with
  | .error e => .error e
  | .ok (none, _) => .ok none
  | .ok (some m, tally) => (summarise path m tally).map some

/-! ### Streaming the transcript -/

/-- The closure `stream_durable_prefix` walks the log with: the sink gets
the event, and the walk ends with the last one asked for. -/
def streaming (len : Nat) (note : Notification) (streamed : List Notification) :
    Except WalError (List Notification × Bool) :=
  .ok (streamed ++ [note], decide (streamed.length + 1 < len))

/-- The end of `stream_durable_prefix`: a file with fewer events is an
error. -/
def streamed (path : PathBuf) (len : Nat) (notes : List Notification) :
    Except WalError (List Notification) :=
  if notes.length < len then
    .error (.invalidData (s!"WAL {path} holds {notes.length} transcript event(s) but its " ++
      s!"durable prefix expects {len}"))
  else .ok notes

/-- `stream_durable_prefix`, with what the sink got. -/
def streamDurablePrefix (codec : Codec WalRecord) (path : PathBuf) (contents : Bytes) (len : Nat) :
    Except WalError (List Notification) :=
  if len = 0 then .ok []
  else match walkWal codec contents (streaming len) [] with
    | .error e => .error e
    | .ok (_, notes) => streamed path len notes

end Yaldabaoth
