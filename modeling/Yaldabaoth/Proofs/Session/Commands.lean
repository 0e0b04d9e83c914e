import Yaldabaoth.Proofs.Session.Ledger

/-!
# `Yaldabaoth.Proofs.Session.Commands`: the effect of each command

One lemma for each command of the session: what it does to the ledger.
`Proofs.Session.View` collects them into the steps of the server, and
nothing behind it unfolds a command again.

Deliveries, broadcasts and forwarders do not touch the ledger. Every
other command is passive, or speaks one agent fact (an admitted prompt,
a recorded reply, a published channel), or settles a turn, or starts a
generation (a restart, an archive).
-/

set_option autoImplicit false

namespace Yaldabaoth

/-- The kinds a reply is recorded under: no channel opens, no live turn
ends, and nothing was compacted. -/
structure AgentEventKind.Ordinary (kind : AgentEventKind) : Prop where
  opens : ∀ resumed, kind ≠ .channelOpened resumed
  settles : ∀ outcome, kind = .turnEnded outcome → outcome = .replayEnd
  compacts : ∀ throughTurn summary, kind ≠ .compactedSummary throughTurn summary

theorem ordinary_userMessage (text : String) : (AgentEventKind.userMessage text).Ordinary :=
  ⟨nofun, nofun, nofun⟩

theorem ordinary_replayEnd : replayEndKind.Ordinary :=
  ⟨nofun, fun outcome h => by cases h; rfl, nofun⟩

theorem ordinary_of_reply {event : ReplyEvent} {kind : AgentEventKind}
    (h : agentKindFromReply event = some kind) : kind.Ordinary := by
  cases event <;> cases h <;> exact ⟨nofun, nofun, nofun⟩

namespace ManagedSession

open Ledger (Writes Passive Speaks Settles)

variable (s : ManagedSession)

/-! ### Deliveries -/

theorem startProviderDelivery_ledger (pending : PendingProviderDelivery) (steer : Bool) :
    (s.startProviderDelivery pending steer).1.ledger = s.ledger := by
  unfold startProviderDelivery
  simp only
  split
  · rfl
  · split
    · rfl
    · split
      · rfl
      · split
        · rfl
        · simp only
          split <;> rfl

theorem startNext_ledger (pending : List PendingProviderDelivery) :
    (startNext s pending).ledger = s.ledger := by
  induction pending generalizing s with
  | nil => rfl
  | cons first rest ih =>
      unfold startNext
      split
      · have hstart := startProviderDelivery_ledger
          { s with pendingProviderDeliveries := rest } first false
        split
        · rename_i hstarted
          rw [hstarted] at hstart
          exact hstart
        · rename_i hfailed
          rw [hfailed] at hstart
          exact (ih _).trans hstart
      · rfl

theorem doCogDelivery_ledger (pending : PendingProviderDelivery) :
    (s.doCogDelivery pending).ledger = s.ledger := by
  unfold doCogDelivery
  split
  · rfl
  · split
    · rfl
    · simp only
      split
      · rfl
      · exact s.startProviderDelivery_ledger pending _

/-! ### Going out of service -/

theorem passive_handleSpawnFailed (expectedGeneration : Nat) (reason : String) :
    Passive s.ledger (s.handleSpawnFailed expectedGeneration reason).ledger := by
  unfold handleSpawnFailed
  split
  · exact .refl _
  · rename_i hcurrent
    have hopen : s.ledger.archived = false :=
      Bool.eq_false_iff.2 fun harchived => hcurrent (.inl harchived)
    simp only
    -- the fields first, then the rejections, then the detach
    let out : ManagedSession :=
      ({ s with lifecycle := .disconnected, channel := none, busy := false, replayFence := 0 }
        ).failProviderDeliveries
        { failureClass := .providerUnavailable, retryable := true, message := reason }
    let rejected := rejectPending .rejected reason { out with pendingPrompts := [] }
      out.pendingPrompts
    have hretire : Passive s.ledger out.ledger := .retire .disconnected hopen (by decide) (by decide)
    have hreject : Writes out.ledger (rejections s.id reason out.pendingPrompts) rejected.ledger :=
      writes_rejectPending { out with pendingPrompts := [] } .rejected reason out.pendingPrompts
    have hdetach : Writes rejected.ledger [.sessionDetached rejected.id reason]
        (rejected.record (.sessionDetached rejected.id reason)).ledger := rejected.writes_pushEvent _
    have hleave : Passive out.ledger (rejected.record (.sessionDetached rejected.id reason)).ledger := by
      refine .of_writes (hreject.trans hdetach) ?_ fun harchived => ?_
      · intro n hn
        rcases List.mem_append.1 hn with hn | hn
        · obtain ⟨prompt, -, rfl⟩ := List.mem_map.1 hn
          exact ⟨rfl, rfl⟩
        · rw [List.mem_singleton.1 hn]
          exact ⟨rfl, rfl⟩
      · have hkept : out.ledger.archived = false := hopen
        rw [hkept] at harchived
        cases harchived
    have hall := hretire.trans hleave
    split <;> exact hall

variable {s} in
theorem passive_startJob {L : Ledger} (job : SpawnJob) (threadError : Option String)
    (could : String) (hledger : s.ledger = L) :
    Passive L (s.startJob job threadError could).1.ledger := by
  rw [← hledger]
  unfold startJob
  cases threadError with
  | none => exact .refl _
  | some error => exact s.passive_handleSpawnFailed _ _

variable {s} in
theorem startJob_job {job started : SpawnJob} {threadError : Option String} {could : String}
    (h : started ∈ (s.startJob job threadError could).2.1) : started = job := by
  unfold startJob at h
  cases threadError <;> cases h
  rfl

/-! ### Prompts -/

theorem writes_deliverPrompt (pending : PendingPrompt) (failed : String)
    (send : TransportHandle → TransportHandle × Except String Unit) :
    Writes s.ledger [] (s.deliverPrompt pending failed send).1.ledger := by
  unfold deliverPrompt
  split
  · rename_i channel _ _
    split
    · rename_i channel' _
      exact writes_finishPromptIntent { s with channel := some channel' } pending.id .delivered
    · rename_i channel' _ _
      exact writes_finishPromptIntent { s with channel := some channel' } pending.id .rejected
  · exact .refl _
  · exact .refl _
  · exact s.writes_finishPromptIntent pending.id .rejected

/-- A prompt is refused, or the session is in service and says so. -/
theorem admitPrompt_effect (text : String) (images : List ImageAttachment)
    (archivedTo disconnectedTo failed : String)
    (send : TransportHandle → PromptPayload → TransportHandle × Except String Unit)
    (hshelf : s.archived = true → s.lifecycle = .archived) :
    Passive s.ledger
        (s.admitPrompt text images archivedTo disconnectedTo failed send).1.ledger ∨
      (s.archived = false ∧ s.lifecycle ≠ .archived ∧ s.lifecycle ≠ .disconnected ∧
        ∃ L, Passive s.ledger L ∧ Speaks L (.userMessage text)
          (s.admitPrompt text images archivedTo disconnectedTo failed send).1.ledger) := by
  unfold admitPrompt
  split
  · exact .inl (.refl _)
  · rename_i hunshelved
    split
    · exact .inl (.refl _)
    · rename_i hconnected
      have hopen : s.archived = false :=
        Bool.eq_false_iff.2 fun harchived => hunshelved (hshelf harchived)
      have hbegin := s.writes_beginPromptIntent { text, textBlocks := [], images }
      split
      · rename_i started _ hbegun
        rw [hbegun] at hbegin
        exact .inl (.of_writes_nil hbegin)
      · rename_i started pending hbegun
        rw [hbegun] at hbegin
        have hbusy : Writes s.ledger [] ({ started with busy := true } : ManagedSession).ledger :=
          hbegin
        have hdeliver := hbusy.trans (writes_deliverPrompt { started with busy := true } pending
          failed fun channel => send channel pending.payload)
        simp only
        split
        · rename_i delivered hdelivered
          rw [hdelivered] at hdeliver
          right
          refine ⟨hopen, hunshelved, hconnected, (delivered.logOnly (.userPrompt delivered.id text)).ledger,
            ?_, ?_⟩
          · refine .of_writes (hdeliver.trans (delivered.writes_pushEvent _)) ?_ fun harchived => ?_
            · intro n hn
              rw [List.mem_singleton.1 hn]
              exact ⟨rfl, rfl⟩
            · rw [show s.ledger.archived = false from hopen] at harchived
              cases harchived
          · have hspeak := (delivered.logOnly (.userPrompt delivered.id text)).speaks_recordAgent
              (.userMessage text)
            split <;> exact hspeak
        · rename_i refused reason hrefused
          rw [hrefused] at hdeliver
          exact .inl ((Passive.of_writes_nil hdeliver).trans (refused.passive_handleSpawnFailed _ _))

/-! ### Pump commands -/

/-- A reply is recorded behind the agent fact it maps to, if any. -/
theorem doRecord_effect (event : ReplyEvent) :
    ∃ L, (L = s.ledger ∨ ∃ kind : AgentEventKind, kind.Ordinary ∧ Speaks s.ledger kind L) ∧
      Writes L [.replyEvent s.id event] (s.doRecord event).ledger := by
  have hspoke (kind : AgentEventKind) :
      Writes (s.recordAgent kind).ledger [.replyEvent s.id event]
        ((s.recordAgent kind).record (.replyEvent (s.recordAgent kind).id event)).ledger := by
    have hid : (s.recordAgent kind).id = s.id := Writes.id (s.speaks_recordAgent kind)
    rw [hid]
    exact (s.recordAgent kind).writes_pushEvent _
  unfold doRecord
  cases hkind : agentKindFromReply event with
  | some kind =>
      exact ⟨_, .inr ⟨kind, ordinary_of_reply hkind, s.speaks_recordAgent kind⟩, hspoke kind⟩
  | none =>
      cases event with
      | replayComplete =>
          exact ⟨_, .inr ⟨_, ordinary_replayEnd, s.speaks_recordAgent _⟩, hspoke replayEndKind⟩
      | turnEnded | turnSettled => exact ⟨_, .inl rfl, s.writes_pushEvent _⟩
      | _ => cases hkind

theorem doTurnCount_effect (turns : Nat) (outcome : TurnOutcome) :
    Settles s.ledger turns outcome (s.doTurnCount turns outcome).ledger := by
  let ended : ManagedSession := { s with turns, agentSeq := s.agentSeq + 1 }
  let told := ended.record (.agent (s.ledger.event (turns - 1) (turnEndedKind outcome)))
  let settled := told.record (.turnEnded told.id turns s.channelGeneration)
  have htell : Writes ended.ledger
      [.agent (s.ledger.event (turns - 1) (turnEndedKind outcome))] told.ledger :=
    ended.writes_pushEvent _
  have hsettle : Writes told.ledger [.turnEnded told.id turns s.channelGeneration]
      settled.ledger := told.writes_pushEvent _
  have hid : told.id = s.id := htell.id
  rw [hid] at hsettle
  have hledger : (s.doTurnCount turns outcome).ledger = settled.ledger := by
    unfold doTurnCount startNextProviderDelivery
    rw [startNext_ledger]
    -- what is left settles a delivery and the busy flag
    have hbusy (s : ManagedSession) : (s.setBusy false).ledger = s.ledger := by
      unfold setBusy
      split <;> rfl
    simp only
    split
    · exact (hbusy _).trans (by split <;> rfl)
    · exact (hbusy _).trans (by split <;> rfl)
  rw [Settles, hledger]
  exact htell.trans hsettle

/-! ### Cancel, rename and settings -/

theorem passive_doCancel (hshelf : s.archived = true → s.lifecycle = .archived) :
    Passive s.ledger s.doCancel.ledger := by
  have hcancelled : s.cancelActive.ledger = s.ledger := by
    unfold cancelActive
    cases s.activeProviderDelivery <;> rfl
  unfold doCancel
  generalize s.cancelActive = cancelled at hcancelled ⊢
  have hreject := writes_rejectPending { cancelled with pendingPrompts := [], busy := false }
    .cancelled "cancelled before agent delivery" cancelled.pendingPrompts
  rw [show ({ cancelled with pendingPrompts := [], busy := false } : ManagedSession).ledger =
    s.ledger from hcancelled] at hreject
  have hlifecycle : cancelled.lifecycle = s.lifecycle := congrArg Ledger.lifecycle hcancelled
  simp only
  split
  case h_4 => rw [hcancelled]; exact .refl _
  all_goals
    rename_i hphase
    have hopen : s.ledger.archived = false := by
      refine Bool.eq_false_iff.2 fun harchived => ?_
      rw [hlifecycle, hshelf harchived] at hphase
      cases hphase
    have hall : Passive s.ledger _ := .of_writes hreject
      (by
        intro n hn
        obtain ⟨prompt, -, rfl⟩ := List.mem_map.1 hn
        exact ⟨rfl, rfl⟩)
      (by
        intro harchived
        rw [hopen] at harchived
        cases harchived)
    split <;> exact hall

theorem passive_doRename (label : String) (fate : Fate) :
    Passive s.ledger (s.doRename label fate).ledger :=
  .of_writes_nil (writes_appendMetadata { s with label } rfl fate.reopenError)

theorem passive_doSetPermissionMode (mode : PermissionMode) (fate : Fate) :
    Passive s.ledger (s.doSetPermissionMode mode fate).1.ledger := by
  have happend : Writes s.ledger [] (s.appendMetadata (.permission mode) fate.reopenError).1.ledger :=
    s.writes_appendMetadata rfl fate.reopenError
  unfold doSetPermissionMode
  split
  all_goals
    rename_i hwritten
    rw [hwritten] at happend
    exact .of_writes_nil happend

theorem passive_doSetModel (modelId : String) (fate : Fate) :
    Passive s.ledger (s.doSetModel modelId fate).1.ledger := by
  have happend : Writes s.ledger [] (s.appendMetadata (.model modelId) fate.reopenError).1.ledger :=
    s.writes_appendMetadata rfl fate.reopenError
  unfold doSetModel
  split
  · exact .refl _
  · split
    all_goals
      rename_i hwritten
      rw [hwritten] at happend
      exact .of_writes_nil happend

end ManagedSession

/-! ### A new generation -/

namespace Ledger

/-- A restart begins the next generation. -/
def restarted (L : Ledger) : Ledger :=
  { L with generation := L.generation + 1, agentSeq := 0, lifecycle := .restarting }

/-- An archive begins the next generation too, and closes the file;
`eventLog` is what stays in memory. -/
def shelved (L : Ledger) (eventLog : EventLog) : Ledger :=
  { L with
    generation := L.generation + 1
    agentSeq := 0
    lifecycle := .archived
    archived := true
    walOpen := false
    eventLog }

/-- An unarchive opens the file again, in the generation of the
archive. -/
def reopened (L : Ledger) : Ledger :=
  { L with walOpen := true, archived := false, lifecycle := .spawning }

/-- A repeated unarchive tries again in the same generation. -/
def retried (L : Ledger) : Ledger := { L with lifecycle := .spawning }

/-- A published channel is live. -/
def live (L : Ledger) : Ledger := { L with lifecycle := .live }

end Ledger

/-- A thread for the session's current generation. -/
def SpawnJob.For (generation : Nat) (job : SpawnJob) : Prop :=
  job.expectedGeneration = generation ∧ job.isRespawn = false

namespace ManagedSession

open Ledger (Writes Passive Speaks Settles)

variable (s : ManagedSession)

theorem doRestart_effect (fate : Fate) :
    (s.archived = true ∧ (s.doRestart fate).1 = s ∧ (s.doRestart fate).2.1 = none) ∨
      (s.archived = false ∧ Passive s.ledger.restarted (s.doRestart fate).1.ledger ∧
        ∀ job ∈ (s.doRestart fate).2.1, job.For (s.channelGeneration + 1)) := by
  unfold doRestart
  split
  · rename_i harchived
    exact .inl ⟨harchived, rfl, rfl⟩
  · rename_i hopen
    right
    refine ⟨Bool.eq_false_iff.2 hopen, ?_⟩
    simp only
    split
    all_goals
      refine ⟨passive_startJob _ _ _ ?_, fun job hmem => ?_⟩
      · rfl
      · rw [startJob_job hmem]
        exact ⟨rfl, rfl⟩

theorem endWork_effect :
    ∃ L, Writes s.ledger [] L ∧
      s.endWork.ledger = { L with lifecycle := .archived, archived := true } := by
  let ended : ManagedSession :=
    ({ s with channel := s.channel.map TransportHandle.cancel }).failProviderDeliveries
      { failureClass := .cancelled, retryable := false, message := "provider session was archived" }
  have hcancel := writes_cancelPending
    { ended with archived := true, lifecycle := .archived, busy := false, pendingPrompts := [] }
    ended.pendingPrompts
  refine ⟨_, hcancel.withPhase s.lifecycle s.archived, ?_⟩
  obtain ⟨walIo, disk, history, eventLog, hshape⟩ := hcancel.shape
  unfold endWork
  rw [hshape]
  rfl

theorem shelve_ledger (L : Ledger)
    (h : s.ledger = { L with lifecycle := .archived, archived := true }) :
    ∃ eventLog, (eventLog = L.eventLog ∨ eventLog.entries = []) ∧
      s.shelve.ledger = L.shelved eventLog := by
  have hshelve : ∃ eventLog, (eventLog = s.ledger.eventLog ∨ eventLog.entries = []) ∧
      s.shelve.ledger = { s.ledger with
        generation := s.ledger.generation + 1, agentSeq := 0, walOpen := false, eventLog } := by
    unfold shelve
    simp only
    split
    · exact ⟨_, .inr rfl, rfl⟩
    · exact ⟨_, .inl rfl, rfl⟩
  rw [h] at hshelve
  exact hshelve

/-- Archiving fails at the file, or shelves the session. -/
theorem doArchive_effect :
    Passive s.ledger s.doArchive.1.ledger ∨
      ∃ L eventLog, s.walOpen = true ∧ Writes s.ledger [] L ∧
        (eventLog = L.eventLog ∨ eventLog.entries = []) ∧
        s.doArchive.1.ledger = L.shelved eventLog := by
  unfold doArchive
  split
  · exact .inl (.refl _)
  · rename_i hopen
    have hwrite : Writes s.ledger [] (s.walWrite (.archive true) true).1.ledger :=
      s.writes_walWrite rfl true
    split
    · rename_i hfailed
      rw [hfailed] at hwrite
      exact .inl (.of_writes_nil hwrite)
    · rename_i written hwritten
      rw [hwritten] at hwrite
      obtain ⟨L, hend, hended⟩ := written.endWork_effect
      obtain ⟨eventLog, hlog, hshelved⟩ := written.endWork.shelve_ledger L hended
      refine .inr ⟨L, eventLog, by simpa using hopen, hwrite.trans hend, hlog, ?_⟩
      simp only
      split <;> exact hshelved

theorem doUnarchive_effect (fate : Fate) :
    (Passive s.ledger (s.doUnarchive fate).1.ledger ∧ (s.doUnarchive fate).2.1 = none) ∨
      (s.walPath.isSome ∧ ∃ L, Writes s.ledger [] L ∧
        Passive L.reopened (s.doUnarchive fate).1.ledger ∧
        ∀ job ∈ (s.doUnarchive fate).2.1, job.For s.channelGeneration) := by
  unfold doUnarchive
  split
  · exact .inl ⟨.refl _, rfl⟩
  · exact .inl ⟨.refl _, rfl⟩
  · rename_i path _ hpath _
    have hwrite : Writes s.ledger [] (s.walWrite (.archive false) true).1.ledger :=
      s.writes_walWrite rfl true
    split
    · rename_i hfailed
      rw [hfailed] at hwrite
      exact .inl ⟨.of_writes_nil hwrite, rfl⟩
    · rename_i written hwritten
      rw [hwritten] at hwrite
      right
      refine ⟨by rw [hpath]; rfl, written.ledger, hwrite, ?_⟩
      have hgeneration : written.channelGeneration = s.channelGeneration :=
        (Passive.of_writes_nil hwrite).frame.2.1
      refine ⟨passive_startJob _ _ _ ?_, fun job hmem => ?_⟩
      · rfl
      · rw [startJob_job hmem]
        exact ⟨hgeneration, rfl⟩

/-- The channel goes live and opens its generation's facts. -/
theorem installChannel_effect (handle : TransportHandle) (resumed : Bool)
    (hopen : s.archived = false) :
    (∃ L, Speaks s.ledger.live (channelOpenedKind resumed) L ∧
        Passive L (s.installChannel handle false resumed).ledger) ∧
      (s.installChannel handle false resumed).replayFence = if resumed then s.turns else 0 := by
  -- the session as it goes live
  obtain ⟨installed, hledger, hfence, heq⟩ : ∃ installed : ManagedSession,
      installed.ledger = s.ledger.live ∧
      installed.replayFence = (if resumed then s.turns else 0) ∧
      s.installChannel handle false resumed =
        (installed.recordAgent (channelOpenedKind resumed)).record
          (.sessionAttached (installed.recordAgent (channelOpenedKind resumed)).id
            handle.sessionId) := by
    unfold installChannel
    simp only [Bool.false_eq_true, if_false]
    by_cases hacp : handle.sessionId.isSome = true
    · rw [if_pos hacp]
      exact ⟨_, rfl, rfl, rfl⟩
    · rw [if_neg hacp]
      exact ⟨_, rfl, rfl, rfl⟩
  have hspeak := installed.speaks_recordAgent (channelOpenedKind resumed)
  rw [hledger] at hspeak
  have hattach := (installed.recordAgent (channelOpenedKind resumed)).writes_pushEvent
    (.sessionAttached (installed.recordAgent (channelOpenedKind resumed)).id handle.sessionId)
  rw [heq]
  refine ⟨⟨_, hspeak, .of_writes hattach ?_ fun harchived => ?_⟩, ?_⟩
  · intro n hn
    rw [List.mem_singleton.1 hn]
    exact ⟨rfl, rfl⟩
  · obtain ⟨walIo, disk, history, eventLog, hshape⟩ := hspeak.shape
    rw [hshape] at harchived
    rw [show s.ledger.live.archived = false from hopen] at harchived
    cases harchived
  · have hkept : (installed.recordAgent (channelOpenedKind resumed)).replayFence =
        installed.replayFence := pushEvent_replayFence _ _
    exact (pushEvent_replayFence _ _).trans (hkept.trans hfence)

/-- Telling the submitters of refused prompts is a broadcast. -/
theorem tellUndelivered_ledger (undelivered : List (String × String)) :
    (undelivered.foldl
      (fun (s : ManagedSession) (text, reason) => s.emit (.promptRejected s.id reason text))
      s).ledger = s.ledger := by
  induction undelivered generalizing s with
  | nil => rfl
  | cons first rest ih => exact ih _

/-- A publish is refused, or opens the channel: queued prompts are
flushed, then the session is live and says so. -/
theorem doPublishChannel_effect (handle : TransportHandle) (expectedGeneration : Nat)
    (resumed : Bool) :
    ((s.doPublishChannel handle expectedGeneration false resumed).1 = s ∧
        (s.doPublishChannel handle expectedGeneration false resumed).2 = none) ∨
      (s.archived = false ∧ s.channelGeneration = expectedGeneration ∧
        ∃ L L', Writes s.ledger [] L ∧ Speaks L.live (channelOpenedKind resumed) L' ∧
          Passive L' (s.doPublishChannel handle expectedGeneration false resumed).1.ledger ∧
          (s.doPublishChannel handle expectedGeneration false resumed).2 = some
            { generation := s.channelGeneration
              replayFence := if resumed then s.turns else 0
              turnBase := s.turns }) := by
  unfold doPublishChannel
  split
  · exact .inl ⟨rfl, rfl⟩
  · rename_i hcurrent
    right
    rw [not_or, not_not] at hcurrent
    have hopen : s.archived = false := Bool.eq_false_iff.2 hcurrent.1
    refine ⟨hopen, hcurrent.2, ?_⟩
    have hflush := writes_flushPending { s with busy := false, pendingPrompts := [] }
      (s.configured handle) s.pendingPrompts
    rcases hflushed : flushPending { s with busy := false, pendingPrompts := [] }
      (s.configured handle) s.pendingPrompts with ⟨flushed, handle', undelivered⟩
    rw [hflushed] at hflush
    have hframe := (Passive.of_writes_nil hflush).frame
    have hturns : flushed.turns = s.turns := hframe.2.2.2.1
    have harchived : flushed.archived = false := hframe.2.2.2.2.1.trans hopen
    obtain ⟨⟨L, hspeak, hattach⟩, hfence⟩ := flushed.installChannel_effect handle' resumed harchived
    have happly : s.applyChannelState handle false resumed =
        (flushed.installChannel handle' false resumed, undelivered) := by
      unfold applyChannelState
      rw [hflushed]
    rw [happly]
    refine ⟨_, L, hflush, hspeak, ?_, ?_⟩
    · rw [tellUndelivered_ledger]
      exact hattach
    · have hgeneration : (flushed.installChannel handle' false resumed).channelGeneration =
          s.channelGeneration :=
        hattach.frame.2.1.trans (hspeak.frame.2.1.trans hframe.2.1)
      have hbase : (flushed.installChannel handle' false resumed).turns = s.turns :=
        hattach.frame.2.2.2.1.trans (hspeak.frame.2.2.2.1.trans hturns)
      simp only
      rw [hgeneration, hbase, hfence, hturns]

end ManagedSession

end Yaldabaoth
