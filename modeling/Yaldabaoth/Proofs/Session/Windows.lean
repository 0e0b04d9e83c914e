import Yaldabaoth.Lib.LogWindow
import Yaldabaoth.Proofs.Session.View

/-!
# `Yaldabaoth.Proofs.Session.Windows`: the log in memory as a window

The event log of a session is a window of its transcript: what lies
below the durable prefix is on disk only, and what a trim dropped since
is stood for by its marker (`Framed`). Every command but an archive
does to the log only what pushes do (`Grows`), and an archive folds all
of it into the durable prefix.
-/

set_option autoImplicit false

namespace Yaldabaoth

open LogWindow (Shows Trimmed)

/-- An entry of the log that stands for others. -/
def Notification.Marks (note : Notification) : Prop := note.isMarker = true

/-- `log'` is the log some pushes later. -/
structure EventLog.Follows (log log' : EventLog) : Prop where
  base : log.logBase ≤ log'.logBase
  tip : log.tipSeq ≤ log'.tipSeq
  trimmed : Trimmed Notification.Marks log.entries ∨ log.logBase < log'.logBase →
    Trimmed Notification.Marks log'.entries

namespace EventLog.Follows

theorem refl (log : EventLog) : log.Follows log :=
  ⟨Nat.le_refl _, Nat.le_refl _, fun h => h.resolve_right (Nat.lt_irrefl _)⟩

theorem trans {log log' log'' : EventLog} (h : log.Follows log') (h' : log'.Follows log'') :
    log.Follows log'' := by
  refine ⟨Nat.le_trans h.base h'.base, Nat.le_trans h.tip h'.tip, fun htrimmed => h'.trimmed ?_⟩
  rcases htrimmed with htrimmed | hlt
  · exact .inl (h.trimmed (.inl htrimmed))
  · by_cases hfirst : log.logBase < log'.logBase
    · exact .inl (h.trimmed (.inr hfirst))
    · right
      have hbase := h.base
      omega

theorem push (log : EventLog) (note : Notification) : log.Follows (log.push note).1 := by
  refine ⟨Nat.le_refl _, ?_, fun htrimmed => ?_⟩
  · show log.logBase + log.entries.length ≤ log.logBase + (log.entries ++ [note]).length
    rw [List.length_append]
    omega
  · obtain ⟨marker, hmarker, hmarks⟩ := htrimmed.resolve_right (Nat.lt_irrefl _)
    refine ⟨marker, ?_, hmarks⟩
    show marker ∈ (log.entries ++ [note]).head?
    rw [List.head?_append, Option.mem_def.1 hmarker]
    rfl

end EventLog.Follows

/-- A trim drops something and marks it, or does nothing. -/
theorem compactEventLog_cases (log : EventLog) (id : ServerSessionId)
    (generation cap floor : Nat) :
    (compactEventLog log id generation cap floor).1 = log ∨
      ∃ dropped marker, 0 < dropped ∧ dropped ≤ log.entries.length ∧
        Notification.Marks marker ∧ (compactEventLog log id generation cap floor).1 =
          { entries := marker :: log.entries.drop dropped, logBase := log.logBase + dropped - 1 } := by
  unfold compactEventLog EventLog.trim
  simp only
  split
  · rename_i htrim
    left
    split at htrim
    · cases htrim
      rfl
    · split at htrim
      · cases htrim
        rfl
      · cases htrim
  · rename_i log' trim htrim
    right
    split at htrim
    · cases htrim
    · split at htrim
      · cases htrim
      · rename_i hdropped
        cases htrim
        refine ⟨_, _, Nat.pos_of_ne_zero hdropped, ?_, ?_, rfl⟩
        · omega
        · exact rfl

theorem follows_compactEventLog (log : EventLog) (id : ServerSessionId)
    (generation cap floor : Nat) :
    log.Follows (compactEventLog log id generation cap floor).1 := by
  rcases compactEventLog_cases log id generation cap floor with hsame | ⟨dropped, marker, hpos,
    hle, hmarks, htrim⟩
  · rw [hsame]
    exact .refl log
  · rw [htrim]
    refine ⟨?_, ?_, fun _ => ⟨marker, rfl, hmarks⟩⟩
    · show log.logBase ≤ log.logBase + dropped - 1
      omega
    · show log.logBase + log.entries.length ≤
        log.logBase + dropped - 1 + (marker :: log.entries.drop dropped).length
      rw [List.length_cons, List.length_drop]
      omega

/-- What a session holds of its transcript in memory. -/
structure LogView where
  eventLog : EventLog
  history : List Notification
  durablePrefix : Option DurablePrefix
  logTx : LogSnapshot

def ManagedSession.logView (s : ManagedSession) : LogView :=
  { eventLog := s.eventLog, history := s.history, durablePrefix := s.durablePrefix,
    logTx := s.logTx }

namespace LogView

/-- The length of the transcript that is on disk only. -/
def foldedLen (V : LogView) : Nat := (V.durablePrefix.map (·.len)).getD 0

/-- The log in memory is a window of the transcript. -/
def Framed (V : LogView) : Prop :=
  Shows Notification.Marks V.foldedLen V.eventLog.logBase V.eventLog.entries V.history

/-- What was published last is the log. -/
def Published (V : LogView) : Prop := V.logTx.log = V.eventLog

/-- `V'` is `V` some pushes later. -/
structure Grows (V V' : LogView) : Prop where
  durablePrefix : V'.durablePrefix = V.durablePrefix
  history : V.history <+: V'.history
  framed : V.Framed → V'.Framed
  log : V.eventLog.Follows V'.eventLog
  published : V.Published → V'.Published

theorem Grows.refl (V : LogView) : V.Grows V :=
  ⟨rfl, List.prefix_refl _, id, .refl _, id⟩

theorem Grows.trans {V V' V'' : LogView} (h : V.Grows V') (h' : V'.Grows V'') : V.Grows V'' where
  durablePrefix := h'.durablePrefix.trans h.durablePrefix
  history := h.history.trans h'.history
  framed hframed := h'.framed (h.framed hframed)
  log := h.log.trans h'.log
  published hpublished := h'.published (h.published hpublished)

/-- Everything in memory goes to the durable prefix. -/
def folded (V : LogView) (path : PathBuf) (generation : Nat) : LogView :=
  let log := EventLog.fromRecovered [] V.eventLog.tipSeq
  { eventLog := log, history := V.history, durablePrefix := some { path, len := V.eventLog.tipSeq },
    logTx := { log, generation } }

theorem Framed.folded {V : LogView} (h : V.Framed) (path : PathBuf) (generation : Nat) :
    (V.folded path generation).Framed := by
  have htip : V.eventLog.tipSeq = V.history.length := h.tip
  show Shows Notification.Marks V.eventLog.tipSeq V.eventLog.tipSeq [] V.history
  rw [htip]
  exact LogWindow.shows_folded _ _

end LogView

namespace ManagedSession

open LogView (Grows)

variable (s : ManagedSession)

/-! ### The chokepoint -/

/-- What `pushEvent` does to the log. -/
theorem pushEvent_logView (note : Notification) :
    ∃ floor, (s.pushEvent note).logView =
      { eventLog := (compactEventLog (s.eventLog.push note).1 s.id s.channelGeneration
          s.eventLogCap floor).1
        history := s.history ++ [note]
        durablePrefix := s.durablePrefix
        logTx :=
          { log := (compactEventLog (s.eventLog.push note).1 s.id s.channelGeneration
              s.eventLogCap floor).1
            generation := s.channelGeneration } } := by
  obtain ⟨walIo, disk, happend, -⟩ := s.walAppend_spec note
  obtain ⟨forwarder, stopped, hwater⟩ := enforceHighWater_spec
    { s with walIo, disk, eventLog := (s.eventLog.push note).1, history := s.history ++ [note] }
  obtain ⟨forwarder', floor, hfloor⟩ := compactionFloor_spec
    { s with walIo, disk, eventLog := (s.eventLog.push note).1, history := s.history ++ [note],
             forwarder, out := { s.out with stopped } }
  refine ⟨floor, ?_⟩
  simp only [pushEvent, happend, hwater, hfloor, publishSnapshot, logView]

theorem grows_pushEvent (note : Notification) : Grows s.logView (s.pushEvent note).logView := by
  obtain ⟨floor, hview⟩ := s.pushEvent_logView note
  rw [hview]
  refine ⟨rfl, List.prefix_append _ _, fun hframed => ?_, ?_, fun _ => rfl⟩
  · have hpushed : Shows Notification.Marks s.logView.foldedLen (s.eventLog.push note).1.logBase
        (s.eventLog.push note).1.entries (s.history ++ [note]) := Shows.push hframed note
    rcases compactEventLog_cases (s.eventLog.push note).1 s.id s.channelGeneration s.eventLogCap
      floor with hsame | ⟨dropped, marker, hpos, hle, hmarks, htrim⟩
    · rw [hsame]
      exact hpushed
    · rw [htrim]
      exact hpushed.trim hpos hle hmarks
  · exact (EventLog.Follows.push s.eventLog note).trans (follows_compactEventLog _ _ _ _ _)

theorem grows_recordAgent (kind : AgentEventKind) : Grows s.logView (s.recordAgent kind).logView :=
  grows_pushEvent { s with agentSeq := s.agentSeq + 1 } _

/-! ### Writes to the file -/

theorem walWrite_logView (rec : WalRecord) (fsync : Bool) :
    (s.walWrite rec fsync).1.logView = s.logView := by
  obtain ⟨walIo, landed, result, hwrite, -⟩ := s.walWrite_spec rec fsync
  rw [hwrite]
  rfl

theorem finishPromptIntent_logView (id : Nat) (outcome : PromptOutcome) :
    (s.finishPromptIntent id outcome).logView = s.logView := by
  unfold finishPromptIntent
  split
  · exact s.walWrite_logView _ _
  · rfl

theorem beginPromptIntent_logView (payload : PromptPayload) :
    (s.beginPromptIntent payload).1.logView = s.logView := by
  have hwritten : (if s.walOpen then
      s.walWrite (.promptIntent s.nextPromptId payload.text payload.textBlocks payload.images) true
      else (s, .ok ())).1.logView = s.logView := by
    split
    · exact s.walWrite_logView _ _
    · rfl
  unfold beginPromptIntent
  simp only
  split
  all_goals
    rename_i hwrite
    rw [hwrite] at hwritten
    exact hwritten

theorem appendMetadata_logView (rec : WalRecord) (reopenError : Option String) :
    (s.appendMetadata rec reopenError).1.logView = s.logView := by
  unfold appendMetadata
  split
  · exact s.walWrite_logView _ _
  · split
    · split
      · rfl
      · exact s.walWrite_logView _ _
    · rfl

theorem grows_rejectPending (outcome : PromptOutcome) (reason : String)
    (pending : List PendingPrompt) :
    Grows s.logView (rejectPending outcome reason s pending).logView := by
  induction pending generalizing s with
  | nil => exact .refl _
  | cons first rest ih =>
      have hpush := grows_pushEvent (s.finishPromptIntent first.id outcome)
        (.promptRejected (s.finishPromptIntent first.id outcome).id reason first.payload.text)
      rw [finishPromptIntent_logView] at hpush
      exact hpush.trans (ih _)

theorem cancelPending_logView (pending : List PendingPrompt) :
    (cancelPending s pending).logView = s.logView := by
  induction pending generalizing s with
  | nil => rfl
  | cons first rest ih => exact (ih _).trans (s.finishPromptIntent_logView first.id .cancelled)

theorem flushPending_logView (handle : TransportHandle) (pending : List PendingPrompt) :
    (flushPending s handle pending).1.logView = s.logView := by
  induction pending generalizing s handle with
  | nil => rfl
  | cons first rest ih =>
      unfold flushPending
      split
      · exact (ih _ _).trans (s.finishPromptIntent_logView first.id .delivered)
      · exact (ih _ _).trans (s.finishPromptIntent_logView first.id .rejected)

/-! ### The commands -/

theorem grows_handleSpawnFailed (expectedGeneration : Nat) (reason : String) :
    Grows s.logView (s.handleSpawnFailed expectedGeneration reason).logView := by
  unfold handleSpawnFailed
  split
  · exact .refl _
  · simp only
    let failed : ManagedSession :=
      ({ s with lifecycle := .disconnected, channel := none, busy := false, replayFence := 0 }
        ).failProviderDeliveries
        { failureClass := .providerUnavailable, retryable := true, message := reason }
    let rejected := rejectPending .rejected reason { failed with pendingPrompts := [] }
      failed.pendingPrompts
    have hreject : Grows s.logView rejected.logView :=
      grows_rejectPending { failed with pendingPrompts := [] } _ _ _
    have hdetach : Grows s.logView (rejected.record (.sessionDetached rejected.id reason)).logView :=
      hreject.trans (grows_pushEvent _ _)
    split <;> exact hdetach

theorem deliverPrompt_logView (pending : PendingPrompt) (failed : String)
    (send : TransportHandle → TransportHandle × Except String Unit) :
    (s.deliverPrompt pending failed send).1.logView = s.logView := by
  unfold deliverPrompt
  split
  · split
    · exact finishPromptIntent_logView _ _ _
    · exact finishPromptIntent_logView _ _ _
  · rfl
  · rfl
  · exact s.finishPromptIntent_logView _ _

theorem grows_admitPrompt (text : String) (images : List ImageAttachment)
    (archivedTo disconnectedTo failed : String)
    (send : TransportHandle → PromptPayload → TransportHandle × Except String Unit) :
    Grows s.logView (s.admitPrompt text images archivedTo disconnectedTo failed send).1.logView := by
  unfold admitPrompt
  split
  · exact .refl _
  · split
    · exact .refl _
    · have hbegin := s.beginPromptIntent_logView { text, textBlocks := [], images }
      split
      · rename_i hwritten
        rw [hwritten] at hbegin
        rw [← hbegin]
        exact .refl _
      · rename_i begun pending hwritten
        rw [hwritten] at hbegin
        have hdeliver := deliverPrompt_logView { begun with busy := true } pending failed
          fun channel => send channel pending.payload
        rw [show ({ begun with busy := true } : ManagedSession).logView = s.logView from hbegin]
          at hdeliver
        simp only
        split
        · rename_i delivered hdelivered
          rw [hdelivered] at hdeliver
          rw [← hdeliver]
          have hspeak := (grows_pushEvent delivered (.userPrompt delivered.id text)).trans
            (grows_recordAgent _ (.userMessage text))
          split <;> exact hspeak
        · rename_i refused reason hdelivered
          rw [hdelivered] at hdeliver
          rw [← hdeliver]
          exact refused.grows_handleSpawnFailed refused.channelGeneration reason

theorem startProviderDelivery_logView (pending : PendingProviderDelivery) (steer : Bool) :
    (s.startProviderDelivery pending steer).1.logView = s.logView := by
  unfold startProviderDelivery
  simp only
  split
  · rfl
  · split
    · rfl
    · split
      · rfl
      · split
        · rfl
        · simp only
          split <;> rfl

theorem startNext_logView (pending : List PendingProviderDelivery) :
    (startNext s pending).logView = s.logView := by
  induction pending generalizing s with
  | nil => rfl
  | cons first rest ih =>
      unfold startNext
      split
      · have hstart := startProviderDelivery_logView
          { s with pendingProviderDeliveries := rest } first false
        split
        · rename_i hstarted
          rw [hstarted] at hstart
          exact hstart
        · rename_i hfailed
          rw [hfailed] at hstart
          exact (ih _).trans hstart
      · rfl

theorem doCogDelivery_logView (pending : PendingProviderDelivery) :
    (s.doCogDelivery pending).logView = s.logView := by
  unfold doCogDelivery
  split
  · rfl
  · split
    · rfl
    · simp only
      split
      · rfl
      · exact s.startProviderDelivery_logView pending _

theorem grows_doRecord (event : ReplyEvent) : Grows s.logView (s.doRecord event).logView := by
  unfold doRecord
  cases hkind : agentKindFromReply event with
  | some kind => exact (s.grows_recordAgent kind).trans (grows_pushEvent _ _)
  | none =>
      cases event with
      | replayComplete => exact (s.grows_recordAgent replayEndKind).trans (grows_pushEvent _ _)
      | _ => exact s.grows_pushEvent _

theorem grows_doTurnCount (turns : Nat) (outcome : TurnOutcome) :
    Grows s.logView (s.doTurnCount turns outcome).logView := by
  let ended : ManagedSession := { s with turns, agentSeq := s.agentSeq + 1 }
  let told := ended.record (.agent (s.ledger.event (turns - 1) (turnEndedKind outcome)))
  let settled := told.record (.turnEnded told.id turns s.channelGeneration)
  have htell : Grows s.logView settled.logView :=
    (grows_pushEvent ended _).trans (grows_pushEvent told _)
  have hsame : (s.doTurnCount turns outcome).logView = settled.logView := by
    unfold doTurnCount startNextProviderDelivery
    rw [startNext_logView]
    have hbusy (s : ManagedSession) : (s.setBusy false).logView = s.logView := by
      unfold setBusy
      split <;> rfl
    simp only
    split
    · exact (hbusy _).trans (by split <;> rfl)
    · exact (hbusy _).trans (by split <;> rfl)
  rw [hsame]
  exact htell

theorem grows_doCancel : Grows s.logView s.doCancel.logView := by
  have hcancelled : s.cancelActive.logView = s.logView := by
    unfold cancelActive
    cases s.activeProviderDelivery <;> rfl
  have hreject := grows_rejectPending
    { s.cancelActive with pendingPrompts := [], busy := false } .cancelled
    "cancelled before agent delivery" s.cancelActive.pendingPrompts
  rw [show ({ s.cancelActive with pendingPrompts := [], busy := false } : ManagedSession).logView =
    s.logView from hcancelled] at hreject
  unfold doCancel
  simp only
  split
  case h_4 => rw [hcancelled]; exact .refl _
  all_goals split <;> exact hreject

variable {s} in
theorem grows_startJob {V : LogView} (job : SpawnJob) (threadError : Option String)
    (could : String) (hview : s.logView = V) :
    Grows V (s.startJob job threadError could).1.logView := by
  rw [← hview]
  unfold startJob
  cases threadError with
  | none => exact .refl _
  | some error => exact s.grows_handleSpawnFailed _ _

theorem grows_doRestart (fate : Fate) : Grows s.logView (s.doRestart fate).1.logView := by
  unfold doRestart
  split
  · exact .refl _
  · simp only
    split <;> exact grows_startJob _ _ _ rfl

theorem grows_doRename (label : String) (fate : Fate) :
    Grows s.logView (s.doRename label fate).logView := by
  have happend := appendMetadata_logView { s with label } (.rename label) fate.reopenError
  have hrename : (s.doRename label fate).logView = s.logView := happend
  rw [hrename]
  exact .refl _

theorem doSetPermissionMode_logView (mode : PermissionMode) (fate : Fate) :
    (s.doSetPermissionMode mode fate).1.logView = s.logView := by
  have happend := s.appendMetadata_logView (.permission mode) fate.reopenError
  unfold doSetPermissionMode
  split
  all_goals
    rename_i hwritten
    rw [hwritten] at happend
    exact happend

theorem doSetModel_logView (modelId : String) (fate : Fate) :
    (s.doSetModel modelId fate).1.logView = s.logView := by
  have happend := s.appendMetadata_logView (.model modelId) fate.reopenError
  unfold doSetModel
  split
  · rfl
  · split
    all_goals
      rename_i hwritten
      rw [hwritten] at happend
      exact happend

theorem grows_installChannel (handle : TransportHandle) (isRespawn resumed : Bool) :
    Grows s.logView (s.installChannel handle isRespawn resumed).logView := by
  obtain ⟨installed, heq, hview⟩ : ∃ installed : ManagedSession,
      s.installChannel handle isRespawn resumed =
        (installed.recordAgent (channelOpenedKind resumed)).record
          (.sessionAttached (installed.recordAgent (channelOpenedKind resumed)).id
            handle.sessionId) ∧
      installed.logView = s.logView := by
    unfold installChannel
    cases isRespawn
    all_goals
      simp only [Bool.false_eq_true, if_false, if_true]
      by_cases hacp : handle.sessionId.isSome = true
      · rw [if_pos hacp]
        exact ⟨_, rfl, rfl⟩
      · rw [if_neg hacp]
        exact ⟨_, rfl, rfl⟩
  rw [heq, ← hview]
  exact (installed.grows_recordAgent _).trans (grows_pushEvent _ _)

theorem tellUndelivered_logView (undelivered : List (String × String)) :
    (undelivered.foldl
      (fun (s : ManagedSession) (text, reason) => s.emit (.promptRejected s.id reason text))
      s).logView = s.logView := by
  induction undelivered generalizing s with
  | nil => rfl
  | cons first rest ih => exact ih _

theorem grows_doPublishChannel (handle : TransportHandle) (expectedGeneration : Nat)
    (isRespawn resumed : Bool) :
    Grows s.logView (s.doPublishChannel handle expectedGeneration isRespawn resumed).1.logView := by
  unfold doPublishChannel
  split
  · exact .refl _
  · have hflush := flushPending_logView { s with busy := false, pendingPrompts := [] }
      (s.configured handle) s.pendingPrompts
    rcases hflushed : flushPending { s with busy := false, pendingPrompts := [] }
      (s.configured handle) s.pendingPrompts with ⟨flushed, handle', undelivered⟩
    rw [hflushed] at hflush
    have happly : s.applyChannelState handle isRespawn resumed =
        (flushed.installChannel handle' isRespawn resumed, undelivered) := by
      unfold applyChannelState
      rw [hflushed]
    have hinstall := flushed.grows_installChannel handle' isRespawn resumed
    rw [show flushed.logView = s.logView from hflush] at hinstall
    simp only [happly]
    rw [tellUndelivered_logView]
    exact hinstall

/-! ### Archive and unarchive -/

theorem endWork_logView : s.endWork.logView = s.logView := by
  unfold endWork
  exact cancelPending_logView _ _

/-- Shelving folds the log. Without a file there is nothing to fold it
into, and it is only published again. -/
theorem shelve_logView :
    (∃ path generation, s.shelve.logView = s.logView.folded path generation) ∨
      Grows s.logView s.shelve.logView := by
  unfold shelve
  simp only
  split
  · exact .inl ⟨_, _, rfl⟩
  · exact .inr ⟨rfl, List.prefix_refl _, fun h => h, .refl _, fun _ => rfl⟩

/-- An archive fails at the file and leaves the log alone, or shelves
it. -/
theorem doArchive_logView :
    (∃ path generation, s.doArchive.1.logView = s.logView.folded path generation) ∨
      Grows s.logView s.doArchive.1.logView := by
  unfold doArchive
  split
  · exact .inr (.refl _)
  · have hwrite := s.walWrite_logView (.archive true) true
    split
    · rename_i hfailed
      rw [hfailed] at hwrite
      right
      rw [← hwrite]
      exact .refl _
    · rename_i written hwritten
      rw [hwritten] at hwrite
      have hshelve := written.endWork.shelve_logView
      rw [endWork_logView, show written.logView = s.logView from hwrite] at hshelve
      simp only
      split <;> exact hshelve

theorem grows_doUnarchive (fate : Fate) : Grows s.logView (s.doUnarchive fate).1.logView := by
  unfold doUnarchive
  split
  · exact .refl _
  · exact .refl _
  · have hwrite := s.walWrite_logView (.archive false) true
    split
    · rename_i hfailed
      rw [hfailed] at hwrite
      rw [← hwrite]
      exact .refl _
    · rename_i written hwritten
      rw [hwritten] at hwrite
      exact grows_startJob _ _ _ hwrite

theorem doSetArchived_logView (archived : Bool) (fate : Fate) :
    (∃ path generation,
        (s.doSetArchived archived fate).1.logView = s.logView.folded path generation) ∨
      Grows s.logView (s.doSetArchived archived fate).1.logView := by
  unfold doSetArchived
  split
  · split
    · exact .inr (grows_startJob _ _ _ rfl)
    · exact .inr (.refl _)
  · split
    · exact s.doArchive_logView
    · exact .inr (s.grows_doUnarchive fate)

end ManagedSession

/-! ### The actor and the server -/

open LogView (Grows)

/-- A command folds the log of its session, or only pushes. -/
theorem Manager.applyTo_logView (m : Manager) (s : ManagedSession) (fate : Fate)
    (command : Command) :
    ∀ s' ∈ (m.applyTo s fate command).1.session,
      (∃ path generation, s'.logView = s.logView.folded path generation) ∨
        Grows s.logView s'.logView := by
  intro s' hs'
  cases command with
  | attach cursor | detach =>
      cases hs'
      exact .inr (.refl _)
  | prompt text images =>
      obtain rfl : (s.doPrompt text images).1 = s' := Option.some.inj hs'
      exact .inr (s.grows_admitPrompt _ _ _ _ _ _)
  | adminPrompt text =>
      obtain rfl : (s.enqueuePrompt text []).1 = s' := Option.some.inj hs'
      exact .inr (s.grows_admitPrompt _ _ _ _ _ _)
  | steer text images =>
      obtain rfl : (s.doSteer text images).1 = s' := Option.some.inj hs'
      exact .inr (s.grows_admitPrompt _ _ _ _ _ _)
  | cogDelivery request reply =>
      unfold Manager.applyTo at hs'
      simp only at hs'
      split at hs'
      · cases hs'
        exact .inr (.refl _)
      · cases hs'
        rw [s.doCogDelivery_logView]
        exact .inr (.refl _)
  | cancel =>
      obtain rfl : s.doCancel = s' := Option.some.inj hs'
      exact .inr s.grows_doCancel
  | close =>
      unfold Manager.applyTo Manager.doClose Manager.doClose.close at hs'
      simp only at hs'
      split at hs'
      · split at hs'
        · cases hs'
          exact .inr (.refl _)
        · split at hs'
          · cases hs'
            exact .inr (.refl _)
          · cases hs'
      · cases hs'
  | restart =>
      obtain rfl : (s.doRestart fate).1 = s' := Option.some.inj hs'
      exact .inr (s.grows_doRestart fate)
  | rename label =>
      obtain rfl : s.doRename label fate = s' := Option.some.inj hs'
      exact .inr (s.grows_doRename label fate)
  | setArchived archived =>
      obtain rfl : (s.doSetArchived archived fate).1 = s' := Option.some.inj hs'
      exact s.doSetArchived_logView archived fate
  | setPermissionMode mode =>
      obtain rfl : (s.doSetPermissionMode mode fate).1 = s' := Option.some.inj hs'
      rw [s.doSetPermissionMode_logView]
      exact .inr (.refl _)
  | setModel modelId =>
      obtain rfl : (s.doSetModel modelId fate).1 = s' := Option.some.inj hs'
      rw [s.doSetModel_logView]
      exact .inr (.refl _)
  | publishChannel handle expectedGeneration isRespawn resumed =>
      obtain rfl : (s.doPublishChannel handle expectedGeneration isRespawn resumed).1 = s' :=
        Option.some.inj hs'
      exact .inr (s.grows_doPublishChannel _ _ _ _)
  | spawnFailed generation reason =>
      obtain rfl : s.handleSpawnFailed generation reason = s' := Option.some.inj hs'
      exact .inr (s.grows_handleSpawnFailed _ _)
  | agentDisconnected generation =>
      obtain rfl : s.handleSpawnFailed generation "agent disconnected" = s' := Option.some.inj hs'
      exact .inr (s.grows_handleSpawnFailed _ _)
  | record generation event =>
      obtain rfl : (if generation ≠ s.channelGeneration then s else s.doRecord event) = s' :=
        Option.some.inj hs'
      split
      · exact .inr (.refl _)
      · exact .inr (s.grows_doRecord event)
  | turnCount generation turns outcome =>
      obtain rfl : (if generation ≠ s.channelGeneration then s else s.doTurnCount turns outcome) =
        s' := Option.some.inj hs'
      split
      · exact .inr (.refl _)
      · exact .inr (s.grows_doTurnCount turns outcome)
  | replayDone generation =>
      obtain rfl : (if generation ≠ s.channelGeneration then s else { s with replayFence := 0 }) =
        s' := Option.some.inj hs'
      split <;> exact .inr (.refl _)

theorem Manager.applyTo_framed (m : Manager) {s : ManagedSession} (fate : Fate)
    (command : Command) (h : s.logView.Framed) :
    ∀ s' ∈ (m.applyTo s fate command).1.session, s'.logView.Framed := by
  intro s' hs'
  rcases m.applyTo_logView s fate command s' hs' with ⟨path, generation, hfold⟩ | hgrows
  · rw [hfold]
    exact h.folded path generation
  · exact hgrows.framed h

end Yaldabaoth
