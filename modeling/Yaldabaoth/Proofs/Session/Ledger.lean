import Yaldabaoth.Model.Manager
import Yaldabaoth.Proofs.Wal.Records

/-!
# `Yaldabaoth.Proofs.Session.Ledger`: what a command does to the record

A session's transcript, its generation, envelope counter, turn count,
lifecycle and log file are its *ledger*; the rest of the state decides
which commands do what to it. This file states once, for every
operation of the session, what it does to the ledger.

`Writes` is the effect of the writing operations: notifications are
appended to the transcript and, as far as they land, to the file.
`Passive` is the effect of most commands: what they append are no agent
facts and no turn ends, and they may take the session out of service.
An agent fact is added by `Speaks`, a turn end by `Settles`. The
commands follow in `Proofs.Session.Commands`.
-/

set_option autoImplicit false

namespace Yaldabaoth

namespace Notification

/-- A `CompactedSummary`, the marker a trim leaves behind. -/
def isMarker : Notification → Bool
  | .agent event =>
      match event.kind with
      | .compactedSummary _ _ => true
      | _ => false
  | _ => false

/-- Neither an agent fact nor the end of a turn. -/
def Plain (note : Notification) : Prop := note.agent? = none ∧ note.turnCount? = none

theorem Plain.not_marker {note : Notification} (h : note.Plain) : note.isMarker = false := by
  cases note with
  | agent event => cases h.1
  | _ => rfl

end Notification

/-- Whether a write leaves its record in the file. -/
def WalWrite.lands : WalWrite → Bool
  | .lost _ => false
  | _ => true

structure Ledger where
  id : ServerSessionId
  generation : Nat
  agentSeq : Nat
  turns : Nat
  lifecycle : SessionLifecycle
  archived : Bool
  walOpen : Bool
  walPath : Option PathBuf
  walIo : List WalWrite
  disk : List WalRecord
  history : List Notification
  eventLog : EventLog

def ManagedSession.ledger (s : ManagedSession) : Ledger :=
  { id := s.id
    generation := s.channelGeneration
    agentSeq := s.agentSeq
    turns := s.turns
    lifecycle := s.lifecycle
    archived := s.archived
    walOpen := s.walOpen
    walPath := s.walPath
    walIo := s.walIo
    disk := s.disk
    history := s.history
    eventLog := s.eventLog }

namespace Ledger

/-- The notifications in the log file. -/
def notes (L : Ledger) : List Notification := L.disk.filterMap WalRecord.note?

/-- The entries in memory, trim markers excluded. -/
def resident (L : Ledger) : List Notification := L.eventLog.entries.filter (!·.isMarker)

/-- The envelope of the session's next agent fact. -/
def event (L : Ledger) (turn : Nat) (kind : AgentEventKind) : AgentEvent :=
  { sessionId := L.id, generation := L.generation, turn, seq := L.agentSeq, kind }

/-! ### Writing -/

/-- No record is lost on its way to the file. -/
def Lossless (walIo : List WalWrite) : Prop := ∀ io ∈ walIo, io.lands = true

instance : DecidablePred Lossless := fun walIo =>
  inferInstanceAs (Decidable (∀ io ∈ walIo, io.lands = true))

/-- What reaches the file of the notifications an operation appends:
some of them, none while the file is closed, and all of them while it
is open and no record is lost. -/
structure Lands (walOpen : Bool) (walIo : List WalWrite) (ns landed : List Notification) :
    Prop where
  sublist : landed.Sublist ns
  closed : walOpen = false → landed = []
  whole : walOpen = true → Lossless walIo → landed = ns

/-- `ns` are appended to the transcript, and what `Lands` of them to
the file. What is in memory stays the end of the transcript. -/
structure Writes (L : Ledger) (ns : List Notification) (L' : Ledger) : Prop where
  shape : ∃ walIo disk history eventLog, L' = { L with walIo, disk, history, eventLog }
  history : L'.history = L.history ++ ns
  lossless : Lossless L.walIo → Lossless L'.walIo
  notes : ∃ landed, L'.notes = L.notes ++ landed ∧ Lands L.walOpen L.walIo ns landed
  resident : (∀ n ∈ ns, n.isMarker = false) → L.resident <:+ L.history →
    L'.resident <:+ L'.history

theorem Lands.nil (walOpen : Bool) (walIo : List WalWrite) : Lands walOpen walIo [] [] :=
  ⟨List.Sublist.refl _, fun _ => rfl, fun _ _ => rfl⟩

theorem Writes.refl (L : Ledger) : Writes L [] L where
  shape := ⟨_, _, _, _, rfl⟩
  history := (List.append_nil _).symm
  lossless h := h
  notes := ⟨[], (List.append_nil _).symm, .nil _ _⟩
  resident _ h := h

theorem Writes.trans {L L' L'' : Ledger} {ns ns' : List Notification} (h : Writes L ns L')
    (h' : Writes L' ns' L'') : Writes L (ns ++ ns') L'' := by
  obtain ⟨walIo, disk, history, eventLog, rfl⟩ := h.shape
  obtain ⟨walIo', disk', history', eventLog', rfl⟩ := h'.shape
  refine ⟨⟨_, _, _, _, rfl⟩, ?_, fun hlossless => h'.lossless (h.lossless hlossless), ?_, ?_⟩
  · rw [h'.history, h.history, List.append_assoc]
  · obtain ⟨landed, hnotes, hlands⟩ := h.notes
    obtain ⟨landed', hnotes', hlands'⟩ := h'.notes
    refine ⟨landed ++ landed', ?_, hlands.sublist.append hlands'.sublist, ?_, ?_⟩
    · rw [hnotes', hnotes, List.append_assoc]
    · intro hclosed
      rw [hlands.closed hclosed, hlands'.closed hclosed]
      rfl
    · intro hopen hlossless
      rw [hlands.whole hopen hlossless, hlands'.whole hopen (h.lossless hlossless)]
  · intro hns hresident
    refine h'.resident (fun n hn => hns n (List.mem_append_right ns hn)) ?_
    exact h.resident (fun n hn => hns n (List.mem_append_left ns' hn)) hresident

theorem Writes.id {L L' : Ledger} {ns : List Notification} (h : Writes L ns L') :
    L'.id = L.id := by
  obtain ⟨walIo, disk, history, eventLog, rfl⟩ := h.shape
  rfl

/-- Writing is blind to the lifecycle. -/
theorem Writes.withPhase {L L' : Ledger} {ns : List Notification} (h : Writes L ns L')
    (lifecycle : SessionLifecycle) (archived : Bool) :
    Writes { L with lifecycle, archived } ns { L' with lifecycle, archived } := by
  obtain ⟨walIo, disk, history, eventLog, rfl⟩ := h.shape
  exact ⟨⟨_, _, _, _, rfl⟩, h.history, h.lossless, h.notes, h.resident⟩

/-! ### Agent facts and turn ends -/

/-- One agent fact under the session's envelope. -/
def Speaks (L : Ledger) (kind : AgentEventKind) (L' : Ledger) : Prop :=
  Writes { L with agentSeq := L.agentSeq + 1 } [.agent (L.event L.turns kind)] L'

/-- The two records of a settled turn. -/
def Settles (L : Ledger) (turns : Nat) (outcome : TurnOutcome) (L' : Ledger) : Prop :=
  Writes { L with turns, agentSeq := L.agentSeq + 1 }
    [.agent (L.event (turns - 1) (turnEndedKind outcome)), .turnEnded L.id turns L.generation] L'

/-- Speaking touches the transcript and the envelope counter only. -/
theorem Speaks.frame {L L' : Ledger} {kind : AgentEventKind} (h : Speaks L kind L') :
    L'.id = L.id ∧ L'.generation = L.generation ∧ L'.agentSeq = L.agentSeq + 1 ∧
      L'.turns = L.turns ∧ L'.archived = L.archived ∧ L'.walOpen = L.walOpen ∧
      L'.walPath = L.walPath ∧ L'.lifecycle = L.lifecycle := by
  obtain ⟨walIo, disk, history, eventLog, hshape⟩ := h.shape
  rw [hshape]
  exact ⟨rfl, rfl, rfl, rfl, rfl, rfl, rfl, rfl⟩

/-- Settling touches the turn count as well. -/
theorem Settles.frame {L L' : Ledger} {turns : Nat} {outcome : TurnOutcome}
    (h : Settles L turns outcome L') :
    L'.id = L.id ∧ L'.generation = L.generation ∧ L'.agentSeq = L.agentSeq + 1 ∧
      L'.turns = turns ∧ L'.archived = L.archived ∧ L'.walOpen = L.walOpen ∧
      L'.walPath = L.walPath ∧ L'.lifecycle = L.lifecycle := by
  obtain ⟨walIo, disk, history, eventLog, hshape⟩ := h.shape
  rw [hshape]
  exact ⟨rfl, rfl, rfl, rfl, rfl, rfl, rfl, rfl⟩

/-! ### Commands that add neither -/

/-- Only plain notifications are appended, none at all while archived,
and the session may go out of service. -/
structure Passive (L L' : Ledger) : Prop where
  writes : ∃ ns, (∀ n ∈ ns, n.Plain) ∧ (L.archived = true → ns = []) ∧
    Writes { L with lifecycle := L'.lifecycle } ns L'
  lifecycle : L'.lifecycle = L.lifecycle ∨
    L.archived = false ∧ L'.lifecycle ≠ .live ∧ L'.lifecycle ≠ .archived

theorem Passive.of_writes {L L' : Ledger} {ns : List Notification} (h : Writes L ns L')
    (hplain : ∀ n ∈ ns, n.Plain) (hquiet : L.archived = true → ns = []) : Passive L L' := by
  obtain ⟨walIo, disk, history, eventLog, hshape⟩ := h.shape
  have hlifecycle : L'.lifecycle = L.lifecycle := by rw [hshape]
  refine ⟨⟨ns, hplain, hquiet, ?_⟩, .inl hlifecycle⟩
  rw [hlifecycle]
  exact h

theorem Passive.of_writes_nil {L L' : Ledger} (h : Writes L [] L') : Passive L L' :=
  .of_writes h (by simp) fun _ => rfl

theorem Passive.refl (L : Ledger) : Passive L L := .of_writes_nil (.refl L)

/-- A session goes out of service. -/
theorem Passive.retire {L : Ledger} (lifecycle : SessionLifecycle) (hopen : L.archived = false)
    (hlive : lifecycle ≠ .live) (harchived : lifecycle ≠ .archived) :
    Passive L { L with lifecycle } where
  writes := ⟨[], by simp, fun _ => rfl, .refl _⟩
  lifecycle := .inr ⟨hopen, hlive, harchived⟩

/-- All that a passive command leaves as it was. -/
theorem Passive.frame {L L' : Ledger} (h : Passive L L') :
    L'.id = L.id ∧ L'.generation = L.generation ∧ L'.agentSeq = L.agentSeq ∧
      L'.turns = L.turns ∧ L'.archived = L.archived ∧ L'.walOpen = L.walOpen ∧
      L'.walPath = L.walPath := by
  obtain ⟨⟨ns, -, -, hwrites⟩, -⟩ := h
  obtain ⟨walIo, disk, history, eventLog, hshape⟩ := hwrites.shape
  rw [hshape]
  exact ⟨rfl, rfl, rfl, rfl, rfl, rfl, rfl⟩

theorem Passive.trans {L L' L'' : Ledger} (h : Passive L L') (h' : Passive L' L'') :
    Passive L L'' := by
  have hframe := h.frame
  have harchived : L'.archived = L.archived := hframe.2.2.2.2.1
  obtain ⟨⟨ns, hplain, hquiet, hwrites⟩, hlifecycle⟩ := h
  obtain ⟨⟨ns', hplain', hquiet', hwrites'⟩, hlifecycle'⟩ := h'
  refine ⟨⟨ns ++ ns', ?_, ?_, ?_⟩, ?_⟩
  · intro n hn
    exact (List.mem_append.1 hn).elim (hplain n) (hplain' n)
  · intro hshelved
    rw [hquiet hshelved, hquiet' (harchived.trans hshelved)]
    rfl
  · have hshift := hwrites.withPhase L''.lifecycle L.archived
    have hsame : { L' with lifecycle := L''.lifecycle, archived := L.archived } =
        { L' with lifecycle := L''.lifecycle } := by rw [← harchived]
    rw [hsame] at hshift
    exact hshift.trans hwrites'
  · rcases hlifecycle' with hsame | ⟨hopen, hout⟩
    · rw [hsame]
      exact hlifecycle
    · exact .inr ⟨harchived ▸ hopen, hout⟩

end Ledger

namespace ManagedSession

open Ledger (Writes Lossless Lands)

variable (s : ManagedSession)

/-- One write touches the file and the fates to come, and lands unless
it is lost. -/
theorem walWrite_spec (rec : WalRecord) (fsync : Bool) :
    ∃ walIo landed result,
      s.walWrite rec fsync = ({ s with walIo, disk := s.disk ++ landed }, result) ∧
      landed.Sublist [rec] ∧
      (Lossless s.walIo → Lossless walIo ∧ landed = [rec]) := by
  unfold walWrite
  cases hio : s.walIo with
  | nil => exact ⟨[], [rec], _, rfl, List.Sublist.refl _, fun h => ⟨h, rfl⟩⟩
  | cons io rest =>
      have hrest : Lossless (io :: rest) → Lossless rest :=
        fun h io' hmem => h io' (List.mem_cons_of_mem io hmem)
      cases io with
      | lost error =>
          refine ⟨rest, [], _, by rw [List.append_nil], List.nil_sublist _, fun h => ?_⟩
          cases h _ List.mem_cons_self
      | _ => exact ⟨rest, [rec], _, rfl, List.Sublist.refl _, fun h => ⟨hrest h, rfl⟩⟩

/-- A trim keeps the end of the log, and puts a marker in front. -/
theorem compactEventLog_resident (log : EventLog) (id : ServerSessionId)
    (generation cap floor : Nat) :
    (compactEventLog log id generation cap floor).1.entries.filter (!·.isMarker) <:+
      log.entries.filter (!·.isMarker) := by
  unfold compactEventLog EventLog.trim
  simp only
  split
  · rename_i htrim
    split at htrim
    · cases htrim
      exact List.suffix_refl _
    · split at htrim
      · cases htrim
        exact List.suffix_refl _
      · cases htrim
  · rename_i htrim
    split at htrim
    · cases htrim
    · split at htrim
      · cases htrim
      · cases htrim
        simp only [EventLog.prepend, compactedSummary, List.filter_cons, Notification.isMarker,
          Bool.not_true, Bool.false_eq_true, if_false]
        exact (List.drop_suffix _ _).filter _

theorem pruneDeadForwarder_spec : ∃ forwarder, s.pruneDeadForwarder = { s with forwarder } := by
  unfold pruneDeadForwarder
  split <;> exact ⟨_, rfl⟩

/-- Keeping the forwarder in bounds touches nothing else. -/
theorem enforceHighWater_spec :
    ∃ forwarder stopped,
      s.enforceHighWater = { s with forwarder, out := { s.out with stopped } } := by
  obtain ⟨forwarder, hprune⟩ := s.pruneDeadForwarder_spec
  unfold enforceHighWater
  simp only [hprune]
  cases forwarder with
  | none => exact ⟨_, _, rfl⟩
  | some handle =>
      simp only
      split <;> exact ⟨_, _, rfl⟩

theorem compactionFloor_spec :
    ∃ forwarder floor, s.compactionFloor = ({ s with forwarder }, floor) := by
  obtain ⟨forwarder, hprune⟩ := s.pruneDeadForwarder_spec
  unfold compactionFloor
  rw [hprune]
  exact ⟨_, _, rfl⟩

/-- The write of a notification, while the file is open. -/
theorem walAppend_spec (note : Notification) :
    ∃ walIo disk, s.walAppend note = { s with walIo, disk } ∧
      (Lossless s.walIo → Lossless walIo) ∧
      ∃ landed, disk.filterMap WalRecord.note? = s.disk.filterMap WalRecord.note? ++ landed ∧
        Lands s.walOpen s.walIo [note] landed := by
  unfold walAppend
  by_cases hopen : s.walOpen = true
  · obtain ⟨walIo, landed, result, hwrite, hsublist, hlossless⟩ :=
      s.walWrite_spec (.event note) (isBoundary note)
    rw [if_pos hopen, hwrite]
    refine ⟨walIo, _, rfl, fun h => (hlossless h).1, landed.filterMap WalRecord.note?,
      List.filterMap_append, hsublist.filterMap _, fun hclosed => ?_, fun _ h => ?_⟩
    · rw [hopen] at hclosed
      cases hclosed
    · rw [(hlossless h).2]
      rfl
  · rw [if_neg hopen]
    refine ⟨_, _, rfl, fun h => h, [], (List.append_nil _).symm, List.nil_sublist _,
      fun _ => rfl, fun hopen' => absurd hopen' hopen⟩

/-- The chokepoint: one notification goes to the transcript and, while
it is open, to the file; what is in memory is trimmed behind it. -/
theorem pushEvent_spec (note : Notification) :
    ∃ walIo disk eventLog forwarder stopped logTx,
      s.pushEvent note =
        { s with walIo, disk, eventLog, history := s.history ++ [note], forwarder,
                 out := { s.out with stopped }, logTx } ∧
      (Lossless s.walIo → Lossless walIo) ∧
      (∃ landed, disk.filterMap WalRecord.note? = s.disk.filterMap WalRecord.note? ++ landed ∧
        Lands s.walOpen s.walIo [note] landed) ∧
      eventLog.entries.filter (!·.isMarker) <:+
        (s.eventLog.entries ++ [note]).filter (!·.isMarker) := by
  obtain ⟨walIo, disk, happend, hlossless, hlands⟩ := s.walAppend_spec note
  unfold pushEvent
  rw [happend]
  obtain ⟨forwarder, stopped, hwater⟩ := enforceHighWater_spec
    { s with walIo, disk, eventLog := (s.eventLog.push note).1, history := s.history ++ [note] }
  simp only [hwater]
  obtain ⟨forwarder', floor, hfloor⟩ := compactionFloor_spec
    { s with walIo, disk, eventLog := (s.eventLog.push note).1, history := s.history ++ [note],
             forwarder, out := { s.out with stopped } }
  simp only [hfloor, publishSnapshot]
  refine ⟨walIo, disk, _, forwarder', stopped, _, rfl, hlossless, hlands, ?_⟩
  exact compactEventLog_resident (s.eventLog.push note).1 s.id s.channelGeneration s.eventLogCap floor

theorem pushEvent_replayFence (note : Notification) :
    (s.pushEvent note).replayFence = s.replayFence := by
  obtain ⟨_, _, _, _, _, _, hpush, -⟩ := s.pushEvent_spec note
  rw [hpush]

/-! ### The operations that only write -/

/-- A record that is no notification leaves the transcript as it is. -/
theorem writes_walWrite {rec : WalRecord} (hrec : rec.note? = none) (fsync : Bool) :
    Writes s.ledger [] (s.walWrite rec fsync).1.ledger := by
  obtain ⟨walIo, landed, result, hwrite, hsublist, hlossless⟩ := s.walWrite_spec rec fsync
  rw [hwrite]
  refine ⟨⟨_, _, _, _, rfl⟩, (List.append_nil _).symm, fun h => (hlossless h).1,
    ⟨[], ?_, .nil _ _⟩, fun _ h => h⟩
  -- whether it landed or not, it is not in the transcript
  have hlanded : landed.filterMap WalRecord.note? = [] := by
    have hnone : [rec].filterMap WalRecord.note? = [] := List.filterMap_cons_none hrec
    exact List.sublist_nil.1 (hnone ▸ hsublist.filterMap WalRecord.note?)
  show (s.disk ++ landed).filterMap WalRecord.note? = s.disk.filterMap WalRecord.note? ++ []
  rw [List.filterMap_append, hlanded]

theorem writes_finishPromptIntent (id : Nat) (outcome : PromptOutcome) :
    Writes s.ledger [] (s.finishPromptIntent id outcome).ledger := by
  unfold finishPromptIntent
  split
  · exact s.writes_walWrite rfl true
  · exact .refl _

theorem writes_beginPromptIntent (payload : PromptPayload) :
    Writes s.ledger [] (s.beginPromptIntent payload).1.ledger := by
  have hwrites : Writes s.ledger [] (if s.walOpen then
      s.walWrite (.promptIntent s.nextPromptId payload.text payload.textBlocks payload.images) true
      else (s, .ok ())).1.ledger := by
    split
    · exact s.writes_walWrite rfl true
    · exact .refl _
  unfold beginPromptIntent
  simp only
  split
  all_goals
    rename_i hwritten
    rw [hwritten] at hwrites
    exact hwrites

theorem writes_appendMetadata {rec : WalRecord} (hrec : rec.note? = none)
    (reopenError : Option String) :
    Writes s.ledger [] (s.appendMetadata rec reopenError).1.ledger := by
  unfold appendMetadata
  split
  · exact s.writes_walWrite hrec true
  · split
    · split
      · exact .refl _
      · exact s.writes_walWrite hrec true
    · exact .refl _

theorem writes_pushEvent (note : Notification) :
    Writes s.ledger [note] (s.pushEvent note).ledger := by
  obtain ⟨walIo, disk, eventLog, forwarder, stopped, logTx, hpush, hlossless, hlands, hresident⟩ :=
    s.pushEvent_spec note
  rw [hpush]
  refine ⟨⟨_, _, _, _, rfl⟩, rfl, hlossless, hlands, fun hplain hsuffix => ?_⟩
  refine List.IsSuffix.trans hresident ?_
  have hnote : note.isMarker = false := hplain note List.mem_cons_self
  rw [List.filter_append, List.filter_singleton, hnote]
  obtain ⟨before, hbefore⟩ := hsuffix
  refine ⟨before, ?_⟩
  rw [← List.append_assoc]
  exact congrArg (· ++ [note]) hbefore

/-- The prompts queued at a failure or a cancel, as the transcript
reports them. -/
def rejections (id : ServerSessionId) (reason : String) (pending : List PendingPrompt) :
    List Notification :=
  pending.map fun prompt => .promptRejected id reason prompt.payload.text

theorem writes_rejectPending (outcome : PromptOutcome) (reason : String)
    (pending : List PendingPrompt) :
    Writes s.ledger (rejections s.id reason pending)
      (rejectPending outcome reason s pending).ledger := by
  induction pending generalizing s with
  | nil => exact .refl _
  | cons first rest ih =>
      let closed := s.finishPromptIntent first.id outcome
      let told := closed.record (.promptRejected closed.id reason first.payload.text)
      have hclose : Writes s.ledger [] closed.ledger := s.writes_finishPromptIntent first.id outcome
      have htell : Writes closed.ledger [.promptRejected closed.id reason first.payload.text]
          told.ledger := closed.writes_pushEvent _
      have hrest : Writes told.ledger (rejections told.id reason rest)
          (rejectPending outcome reason told rest).ledger := ih told
      have hid : closed.id = s.id := hclose.id
      have hid' : told.id = s.id := htell.id.trans hid
      have hall := (hclose.trans htell).trans hrest
      rw [hid, hid'] at hall
      exact hall

theorem writes_cancelPending (pending : List PendingPrompt) :
    Writes s.ledger [] (cancelPending s pending).ledger := by
  induction pending generalizing s with
  | nil => exact .refl _
  | cons first rest ih =>
      exact (s.writes_finishPromptIntent first.id .cancelled).trans (ih _)

theorem writes_flushPending (handle : TransportHandle) (pending : List PendingPrompt) :
    Writes s.ledger [] (flushPending s handle pending).1.ledger := by
  induction pending generalizing s handle with
  | nil => exact .refl _
  | cons first rest ih =>
      unfold flushPending
      split
      · rename_i handle' _
        exact (s.writes_finishPromptIntent first.id .delivered).trans
          (ih { s.finishPromptIntent first.id .delivered with busy := true } handle')
      · rename_i handle' _ _
        exact (s.writes_finishPromptIntent first.id .rejected).trans (ih _ handle')

open Ledger (Speaks) in
theorem speaks_recordAgent (kind : AgentEventKind) :
    Speaks s.ledger kind (s.recordAgent kind).ledger :=
  writes_pushEvent { s with agentSeq := s.agentSeq + 1 } _

end ManagedSession

end Yaldabaoth
