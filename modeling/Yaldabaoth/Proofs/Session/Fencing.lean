import Yaldabaoth.Proofs.Session.Numbering

/-!
# `Yaldabaoth.Proofs.Session.Fencing`: when a resumed channel is fenced

A resumed channel re-emits its conversation, and a raised replay fence
keeps that burst out of the log. `apply_channel_state` raises the fence
by the count of settled turns, not by what the log holds. `turns_ne_zero`
relates the two over every run: the count is zero exactly as long as no
live turn has ended in the transcript. A log that was filled without one
(the first turn was interrupted, or the content came from an adopted
conversation) is therefore resumed without a fence
(`resumed_without_fence`), and nothing else is (`fenced_iff`).
-/

set_option autoImplicit false

namespace Yaldabaoth

/-- What a `session/load` re-emits of a conversation. -/
def AgentEventKind.replayable : AgentEventKind → Bool
  | .chunk _ _ | .toolCallStarted _ | .toolCallUpdated _ | .planUpdated _ | .userMessage _ => true
  | _ => false

namespace Notification

/-- A replayable agent fact, in either vocabulary, or a user's message. -/
def replayable : Notification → Bool
  | .agent event => event.kind.replayable
  | .replyEvent _ event => (agentKindFromReply event).any AgentEventKind.replayable
  | .userPrompt _ _ => true
  | _ => false

/-- One of the two records of a live turn's end. -/
def endsTurn (note : Notification) : Bool := note.settledTurn?.isSome || note.turnCount?.isSome

theorem Plain.not_endsTurn {note : Notification} (h : note.Plain) : note.endsTurn = false := by
  cases note with
  | agent event => cases h.1
  | turnEnded => cases h.2
  | _ => rfl

end Notification

namespace ManagedSession

/-- A session's log: the durable prefix, and what is in memory behind
it. -/
def log (s : ManagedSession) : List Notification :=
  (match s.durablePrefix with
    | some durable => (s.disk.filterMap WalRecord.note?).take durable.len
    | none => []) ++ s.eventLog.entries

end ManagedSession

namespace View

/-- The turn count is zero as long as no live turn has ended. -/
def Counts (v : View) : Prop := v.ledger.turns ≠ 0 ↔ ∃ n ∈ v.ledger.history, n.endsTurn = true

/-- What ends no turn leaves the count. -/
theorem Counts.quiet {v v' : View} {ns : List Notification} (h : v.Counts)
    (hhistory : v'.ledger.history = v.ledger.history ++ ns)
    (hns : ∀ n ∈ ns, n.endsTurn = false) (hturns : v'.ledger.turns = v.ledger.turns) :
    v'.Counts := by
  rw [Counts, hturns, hhistory, show v.ledger.turns ≠ 0 ↔ _ from h]
  constructor
  · rintro ⟨n, hn, hends⟩
    exact ⟨n, List.mem_append_left ns hn, hends⟩
  · rintro ⟨n, hn, hends⟩
    rcases List.mem_append.1 hn with hn | hn
    · exact ⟨n, hn, hends⟩
    · rw [hns n hn] at hends
      cases hends

theorem Step.counts {v v' : View} {h : Happening} (hstep : v.Step h v') (hthreads : v.Threads)
    (hv : v.Counts) : v'.Counts := by
  obtain ⟨ns, htells⟩ := hstep.tells hthreads
  have hhistory := htells.carries.history
  have hlater := htells.later
  cases htells.adds with
  | plain plain counters =>
      exact hv.quiet hhistory (fun n hn => (plain n hn).not_endsTurn) counters.turns
  | fact before_plain after_plain unsettled counters =>
      refine hv.quiet hhistory (fun n hn => ?_) counters.turns
      rcases List.mem_append.1 hn with hn | hn
      · exact (before_plain n hn).not_endsTurn
      · rcases List.mem_cons.1 hn with rfl | hn
        · simp [Notification.endsTurn, unsettled]
        · exact (after_plain n hn).not_endsTurn
  | @turn turns _ _ _ counters =>
      -- a pump counts on from what it reported
      obtain ⟨pump, -, -, hreported⟩ := hlater turns (List.mem_singleton_self turns)
      refine iff_of_true ?_ ⟨.turnEnded v.ledger.id turns v.ledger.generation, ?_, rfl⟩
      · rw [counters.turns]
        exact Nat.ne_of_gt (Nat.lt_of_le_of_lt (Nat.zero_le _) hreported)
      · rw [hhistory]
        exact List.mem_append_right _ (List.mem_cons_of_mem _ (List.mem_singleton_self _))
  | generation plain _ _ _ turns =>
      exact hv.quiet hhistory (fun n hn => (plain n hn).not_endsTurn) turns

theorem Created.counts {v : View} {walIo : List WalWrite} (h : v.Created walIo) : v.Counts := by
  obtain ⟨⟨L, -, -, hturns, -, -, -, -, -, hhistory, -, hpassive⟩, -, -⟩ := h
  obtain ⟨ns, hplain, -, hcarries⟩ := hpassive.carries
  refine iff_of_false (fun hne => hne (hpassive.frame.2.2.2.1.trans hturns)) ?_
  rintro ⟨n, hn, hends⟩
  rw [hcarries.history, hhistory, List.nil_append] at hn
  rw [(hplain n hn).not_endsTurn] at hends
  cases hends

/-- A recovery counts no turn exactly in a log where none ended. -/
theorem tally_turns_eq_zero (notes : List Notification) :
    (tallyOf notes).turns = 0 ↔ ∀ n ∈ notes, n.endsTurn = false := by
  have hlegacy : (notes.filterMap Notification.turnCount?).length = 0 ↔
      ∀ n ∈ notes, n.turnCount? = none := by
    rw [List.length_eq_zero_iff, List.filterMap_eq_nil_iff]
  have hends (n : Notification) : n.endsTurn = false ↔
      n.settledTurn? = none ∧ n.turnCount? = none := by
    simp [Notification.endsTurn]
  simp only [hends]
  cases hmax : highest (notes.filterMap Notification.settledTurn?) with
  | none =>
      have hnone := List.filterMap_eq_nil_iff.1 (eq_nil_of_highest_eq_none hmax)
      simp only [Tally.turns, tallyOf, hmax, Nat.max_zero, hlegacy]
      exact ⟨fun hcounts n hn => ⟨hnone n hn, hcounts n hn⟩, fun h n hn => (h n hn).2⟩
  | some m =>
      obtain ⟨n, hn, hsettled⟩ := List.mem_filterMap.1 (mem_of_highest hmax)
      simp only [Tally.turns, tallyOf, hmax]
      refine iff_of_false (by omega) fun h => ?_
      rw [(h n hn).1] at hsettled
      cases hsettled

theorem Recovered.counts {v v' : View} (h : v.Recovered v') : v'.Counts := by
  obtain ⟨⟨path, kept, rs, -, hrecover, limits, hledger⟩, -, -⟩ := h
  rw [Counts, hledger]
  show rs.turns ≠ 0 ↔ _
  rw [(recoverRecords_counters hrecover).1, ne_eq, tally_turns_eq_zero]
  simp only [not_forall, Bool.not_eq_false, exists_prop]
  exact Iff.rfl

end View

namespace Server

/-- Over every run, whatever fails: the turn count is zero as long as no
live turn has ended in the transcript. -/
theorem turns_ne_zero {s : Server} (hs : machine.Reachable s) {session : ManagedSession}
    (hsession : s.manager.session = some session) :
    (∀ job ∈ s.manager.jobs, job.isRespawn = false) ∧
      (session.turns ≠ 0 ↔ ∃ n ∈ session.history, n.endsTurn = true) := by
  have hview : s.viewOf session ∈ s.view := Option.mem_map_of_mem s.viewOf hsession
  obtain ⟨hsane, -, hcounts⟩ : (s.viewOf session).Sane ∧ (s.viewOf session).Threads ∧
      (s.viewOf session).Counts := by
    refine reaches_view (P := fun v => v.Threads ∧ v.Counts) ?_ ?_ ?_ hs _ hview
    · intro s a v _ hcreated
      exact ⟨hcreated.threads, hcreated.counts⟩
    · intro s a v h v' _ hv _ _ hstep _
      have hthreads : (v.facing a.fate.walIo).Threads := ⟨hv.1.jobs, hv.1.pumps⟩
      exact ⟨hstep.threads hthreads, hstep.counts hthreads hv.2⟩
    · intro v v' _ _ hrecovered
      exact ⟨hrecovered.threads, hrecovered.counts⟩
  exact ⟨hsane.jobs, hcounts⟩

end Server

namespace ManagedSession

/-- A resumed channel whose conversation is in the log already is
published with a fence, and its pump starts behind it. -/
def FenceCovers (s : ManagedSession) (resumed : Bool) (published : Published) : Prop :=
  resumed = true → (∃ n ∈ s.log, n.replayable = true) →
    published.replayFence ≠ 0 ∧
      (Pump.new published.replayFence published.turnBase).fence.isUp = true

/-- A publish fences by the turn count. -/
theorem doPublishChannel_fence {s : ManagedSession} {handle : TransportHandle}
    {expectedGeneration : Nat} {resumed : Bool} {published : Published}
    (h : (s.doPublishChannel handle expectedGeneration false resumed).2 = some published) :
    published.replayFence = if resumed then s.turns else 0 := by
  rcases s.doPublishChannel_effect handle expectedGeneration resumed with
    ⟨-, hnone⟩ | ⟨-, -, _, _, -, -, -, hsome⟩
  · rw [hnone] at h
    cases h
  · rw [hsome] at h
    cases h
    rfl

end ManagedSession

namespace Server

/-- In every state of every run, whenever a spawn thread publishes its
channel: the fence covers the log exactly if the channel is not resumed,
or the log holds nothing to replay, or a live turn has ended in the
transcript. -/
theorem fenced_iff {s : Server} (hs : machine.Reachable s) {session : ManagedSession}
    (hsession : s.manager.session = some session) {job : SpawnJob} (hjob : job ∈ s.manager.jobs)
    (handle : TransportHandle) (walIo : List WalWrite) {published : Published}
    (hpublished : (({ session with walIo } : ManagedSession).doPublishChannel handle
      job.expectedGeneration job.isRespawn job.resumed).2 = some published) :
    session.FenceCovers job.resumed published ↔
      (job.resumed = false ∨ (∀ n ∈ session.log, n.replayable = false) ∨
        ∃ n ∈ session.history, n.endsTurn = true) := by
  obtain ⟨hfresh, hturns⟩ := turns_ne_zero hs hsession
  rw [hfresh job hjob] at hpublished
  have hfence := ManagedSession.doPublishChannel_fence hpublished
  simp only at hfence
  clear hpublished
  have hup : (Pump.new published.replayFence published.turnBase).fence.isUp = true ↔
      published.replayFence ≠ 0 := by
    simp [Pump.new, ReplayFence.new, ReplayFence.isUp, Nat.pos_iff_ne_zero]
  rw [ManagedSession.FenceCovers, hup, and_self]
  cases hresumed : job.resumed with
  | false => exact ⟨fun _ => .inl rfl, fun _ => nofun⟩
  | true =>
      rw [hresumed, if_pos rfl] at hfence
      rw [hfence, hturns]
      constructor
      · intro hcovers
        right
        by_cases hcontent : ∃ n ∈ session.log, n.replayable = true
        · exact .inr (hcovers rfl hcontent)
        · left
          intro n hn
          exact Bool.eq_false_iff.2 fun hreplayable => hcontent ⟨n, hn, hreplayable⟩
      · rintro (hfalse | hnothing | hended) - ⟨n, hn, hreplayable⟩
        · cases hfalse
        · rw [hnothing n hn] at hreplayable
          cases hreplayable
        · exact hended

/-- The channel is restarted after a turn. -/
def resumedRun : List ServerAct :=
  attachedRun ++
    [.client (.prompt "hi" []) .good, .pump 0 (.turnCount 1 .completed) .good,
      .client .restart .good]

/-- It is restarted before the first turn ended. -/
def interruptedRun : List ServerAct :=
  attachedRun ++
    [.client (.prompt "hi" []) .good, .pump 0 .agentDisconnected .good, .client .restart .good]

/-- What the first spawn thread would publish: whether it resumes, and
the fence. -/
def nextFence (s : Server) : Option (Bool × Nat) :=
  s.manager.session.bind fun session => s.manager.jobs.head?.bind fun job =>
    (session.doPublishChannel sampleHandle job.expectedGeneration job.isRespawn job.resumed).2.map
      fun published => (job.resumed, published.replayFence)

theorem fenced_iff_resumedRun :
    (machine.run sample resumedRun).bind nextFence = some (true, 1) ∧
      ∀ s ∈ machine.run sample resumedRun, ∀ session ∈ s.manager.session,
        ∀ job ∈ s.manager.jobs, ∀ published ∈ (session.doPublishChannel sampleHandle
          job.expectedGeneration job.isRespawn job.resumed).2,
        session.FenceCovers job.resumed published := by
  refine ⟨by decide, fun s hrun session hsession job hjob published hpublished => ?_⟩
  have hs : machine.Reachable s := Machine.reachable_of_run ⟨_, _, _, _, rfl⟩ hrun
  have hended : ((machine.run sample resumedRun).bind fun s => s.manager.session.map fun session =>
      session.history.any Notification.endsTurn) = some true := by decide
  rw [show machine.run sample resumedRun = some s from hrun, Option.bind_some,
    show s.manager.session = some session from hsession] at hended
  have hany : session.history.any Notification.endsTurn = true := Option.some.inj hended
  exact (fenced_iff hs hsession hjob sampleHandle session.walIo hpublished).2
    (.inr (.inr (List.any_eq_true.1 hany)))

/-- The prompt of the interrupted turn is in the log, and the channel is
resumed with the fence down. -/
theorem resumed_without_fence :
    ∃ s session job published, machine.run sample interruptedRun = some s ∧
      s.manager.session = some session ∧ job ∈ s.manager.jobs ∧
      (session.doPublishChannel sampleHandle job.expectedGeneration job.isRespawn
        job.resumed).2 = some published ∧
      ¬ session.FenceCovers job.resumed published := by
  have hfence : (machine.run sample interruptedRun).bind nextFence = some (true, 0) := by decide
  have hlog : ((machine.run sample interruptedRun).bind fun s => s.manager.session.map fun session =>
      session.log.any Notification.replayable) = some true := by decide
  obtain ⟨s, hrun, hfence⟩ := Option.bind_eq_some_iff.1 hfence
  obtain ⟨session, hsession, hfence⟩ := Option.bind_eq_some_iff.1 hfence
  obtain ⟨job, hjob, hfence⟩ := Option.bind_eq_some_iff.1 hfence
  obtain ⟨published, hpublished, hfence⟩ := Option.map_eq_some_iff.1 hfence
  rw [hrun, Option.bind_some, hsession] at hlog
  have hany : session.log.any Notification.replayable = true := Option.some.inj hlog
  refine ⟨s, session, job, published, hrun, hsession, List.mem_of_mem_head? hjob, hpublished, ?_⟩
  injection hfence with hresumed hdown
  intro hcovers
  exact (hcovers hresumed (List.any_eq_true.1 hany)).1 hdown

end Server

end Yaldabaoth
