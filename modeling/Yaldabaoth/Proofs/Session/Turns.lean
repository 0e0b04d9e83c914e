import Yaldabaoth.Lib.PairLog
import Yaldabaoth.Proofs.Session.Numbering

/-!
# `Yaldabaoth.Proofs.Session.Turns`: the count of turns

A settled turn is two records, the agent fact that ends it and the
`TurnEnded` behind it, and the two together are a boundary of
`PairLog`. A pump counts on from the turn base it was published with,
so the counts increase as long as no two pumps of one generation
report. `Alone` is the reason that none do: at most one spawn thread or
pump is current. Recovery takes the maximum of two ways to count, and
`tally_turns` shows that this is the count of the last boundary whose
first record is left, wherever the file was cut.

An unarchive that is repeated on a disconnected session spawns in the
same generation again; the runs here do without it.
-/

set_option autoImplicit false

namespace Yaldabaoth

open PairLog (InOrder after)

namespace Notification

/-- A notification is at most one of the two records of a boundary. -/
theorem settled_or_counted (note : Notification) :
    note.settledTurn? = none ∨ note.turnCount? = none := by
  cases note with
  | agent event => exact .inr rfl
  | _ => exact .inl rfl

theorem Plain.not_settled {note : Notification} (h : note.Plain) : note.settledTurn? = none := by
  cases note with
  | agent event => cases h.1
  | _ => rfl

end Notification

/-- Both records of every boundary are in order. -/
abbrev TurnsInOrder (notes : List Notification) : Prop :=
  InOrder Notification.settledTurn? Notification.turnCount? notes

/-- The turn count of the last settled turn, zero without one. -/
abbrev turnsAfter (notes : List Notification) : Nat := after Notification.settledTurn? notes

/-- The maximum that recovery takes is the count of the last settled
turn. -/
theorem tally_turns {notes : List Notification} (h : TurnsInOrder notes) :
    (tallyOf notes).turns = turnsAfter notes := by
  have hlegacy : (notes.filterMap Notification.turnCount?).length ≤ turnsAfter notes :=
    h.seconds_length_le Notification.settled_or_counted
  cases hmax : highest (notes.filterMap Notification.settledTurn?) with
  | none =>
      have hnone := eq_nil_of_highest_eq_none hmax
      have hzero : turnsAfter notes = 0 := by rw [turnsAfter, after, hnone]; rfl
      simp only [Tally.turns, tallyOf, hmax]
      omega
  | some m =>
      have hafter : turnsAfter notes = m + 1 := h.after_eq (mem_of_highest hmax) (le_of_highest hmax)
      simp only [Tally.turns, tallyOf, hmax]
      omega

namespace View

/-- At most one thread can report a turn, and it counts on from the
turns of the session. -/
structure Alone (v : View) : Prop where
  one : (v.jobs.filter (·.expectedGeneration = v.ledger.generation)).length +
    (v.pumps.filter (·.generation = v.ledger.generation)).length ≤ 1
  reported : ∀ pump ∈ v.pumps, pump.generation = v.ledger.generation →
    pump.reported = v.ledger.turns

/-- With nobody current, one thread may be started. -/
theorem alone_of_none {L : Ledger} {jobs : List SpawnJob} {pumps : List PumpStamp}
    (job : Option SpawnJob) (hjobs : ∀ j ∈ jobs, j.expectedGeneration ≠ L.generation)
    (hpumps : ∀ p ∈ pumps, p.generation ≠ L.generation) :
    Alone ⟨L, jobs ++ job.toList, pumps⟩ := by
  have hnojobs : jobs.filter (·.expectedGeneration = L.generation) = [] :=
    List.filter_eq_nil_iff.2 fun j hj => by simpa using hjobs j hj
  have hnopumps : pumps.filter (·.generation = L.generation) = [] :=
    List.filter_eq_nil_iff.2 fun p hp => by simpa using hpumps p hp
  constructor
  · have hone : (job.toList.filter (·.expectedGeneration = L.generation)).length ≤ 1 := by
      refine Nat.le_trans (List.length_filter_le _ _) ?_
      cases job with
      | none => exact Nat.zero_le 1
      | some j => exact Nat.le_refl 1
    simp only [List.filter_append, hnojobs, hnopumps, List.nil_append, List.length_nil]
    exact hone
  · intro p hp hcurrent
    exact absurd hcurrent (hpumps p hp)

theorem alone_of_nobody (L : Ledger) (job : Option SpawnJob) : Alone ⟨L, job.toList, []⟩ := by
  have hnone : Alone ⟨L, [] ++ job.toList, []⟩ := alone_of_none job (by simp) (by simp)
  exact hnone

theorem Step.alone {v v' : View} {h : Happening} (hstep : v.Step h v') (hthreads : v.Threads)
    (halone : v.Alone) (hretry : h ≠ .retried) : v'.Alone := by
  obtain ⟨hone, hreported⟩ := halone
  cases hstep with
  | @quiet L L' jobs jobs' pumps pumps' ledger jobs_le pumps_le =>
      have hgeneration : L'.generation = L.generation := ledger.frame.2.1
      have hturns : L'.turns = L.turns := ledger.frame.2.2.2.1
      have hjobs := (jobs_le.filter (·.expectedGeneration = L.generation)).length_le
      have hpumps := pumps_le.current.length_le
      constructor
      · simp only [hgeneration] at hone ⊢
        omega
      · intro p hp hcurrent
        have hcurrent' : p.generation = L.generation := hcurrent.trans hgeneration
        have hmem : p ∈ pumps'.filter (·.generation = L.generation) :=
          List.mem_filter.2 ⟨hp, by simpa using hcurrent'⟩
        have hold := List.mem_filter.1 (pumps_le.current.subset hmem)
        exact (hreported p hold.1 hcurrent').trans hturns.symm
  | @prompted L M L' _ _ _ _ _ _ before speaks =>
      have hgeneration : L'.generation = L.generation := speaks.frame.2.1.trans before.frame.2.1
      have hturns : L'.turns = L.turns := speaks.frame.2.2.2.1.trans before.frame.2.2.2.1
      constructor
      · simp only [hgeneration]
        exact hone
      · intro p hp hcurrent
        exact (hreported p hp (hcurrent.trans hgeneration)).trans hturns.symm
  | @heard L M L' _ pumps pumps' _ _ speaks _ writes pumps_le =>
      have hspoken : M.generation = L.generation ∧ M.turns = L.turns := by
        rcases speaks with rfl | ⟨kind, -, hspeaks⟩
        · exact ⟨rfl, rfl⟩
        · exact ⟨hspeaks.frame.2.1, hspeaks.frame.2.2.2.1⟩
      obtain ⟨walIo, disk, history, eventLog, rfl⟩ := writes.shape
      have hpumps := pumps_le.current.length_le
      constructor
      · simp only [hspoken.1] at hone ⊢
        omega
      · intro p hp hcurrent
        have hcurrent' : p.generation = L.generation := hcurrent.trans hspoken.1
        have hmem : p ∈ pumps'.filter (·.generation = L.generation) :=
          List.mem_filter.2 ⟨hp, by simpa using hcurrent'⟩
        have hold := List.mem_filter.1 (pumps_le.current.subset hmem)
        exact (hreported p hold.1 hcurrent').trans hspoken.2.symm
  | @settled L L' jobs pumps rest p turns _ from_ current _ _ settles =>
      have hgeneration : L'.generation = L.generation := settles.frame.2.1
      have hturns : L'.turns = turns := settles.frame.2.2.2.1
      have hlength := (from_.filter (·.generation = L.generation)).length_eq
      have hself : ((p :: rest).filter (·.generation = L.generation)).length =
          (rest.filter (·.generation = L.generation)).length + 1 := by
        simp [current]
      have hself' : (({ p with reported := turns } :: rest).filter
          (·.generation = L.generation)).length =
          (rest.filter (·.generation = L.generation)).length + 1 := by
        simp [current]
      constructor
      · simp only [hgeneration] at hone ⊢
        omega
      · intro q hq hcurrent
        rcases List.mem_cons.1 hq with rfl | hq
        · exact hturns.symm
        · -- no other pump is current
          exfalso
          have hmem : q ∈ rest.filter (·.generation = L.generation) :=
            List.mem_filter.2 ⟨hq, by simpa using hcurrent.trans hgeneration⟩
          have hpos := List.length_pos_of_mem hmem
          simp only at hone
          omega
  | @opened L M N L' jobs jobs' pumps job from_ current open_ flushes speaks attaches =>
      have hflush := (Ledger.Passive.of_writes_nil flushes).frame
      have hgeneration : L'.generation = L.generation :=
        attaches.frame.2.1.trans (speaks.frame.2.1.trans hflush.2.1)
      have hturns : L'.turns = L.turns :=
        attaches.frame.2.2.2.1.trans (speaks.frame.2.2.2.1.trans hflush.2.2.2.1)
      have hlength := (from_.filter (·.expectedGeneration = L.generation)).length_eq
      have hself : ((job :: jobs').filter (·.expectedGeneration = L.generation)).length =
          (jobs'.filter (·.expectedGeneration = L.generation)).length + 1 := by
        simp [current.1]
      have hself' : (({ generation := L.generation, reported := L.turns } :: pumps).filter
          (·.generation = L.generation)).length =
          (pumps.filter (·.generation = L.generation)).length + 1 := by
        simp
      constructor
      · simp only [hgeneration] at hone ⊢
        omega
      · intro q hq hcurrent
        rcases List.mem_cons.1 hq with rfl | hq
        · exact hturns.symm
        · exact (hreported q hq (hcurrent.trans hgeneration)).trans hturns.symm
  | @restarted L L' jobs pumps job _ ledger _ =>
      have hgeneration : L'.generation = L.generation + 1 := ledger.frame.2.1
      refine alone_of_none job (fun j hj => ?_) fun p hp => ?_
      · have hle := (hthreads.jobs j hj).1
        simp only at hle
        omega
      · have hle := (hthreads.pumps p hp).1
        simp only at hle
        omega
  | @shelved L M jobs pumps eventLog _ _ writes _ =>
      have hgeneration : (M.shelved eventLog).generation = L.generation + 1 :=
        congrArg (· + 1) (Ledger.Passive.of_writes_nil writes).frame.2.1
      have hnone : Alone ⟨M.shelved eventLog, jobs ++ (none : Option SpawnJob).toList, pumps⟩ := by
        refine alone_of_none none (fun j hj => ?_) fun p hp => ?_
        · have hle := (hthreads.jobs j hj).1
          simp only at hle
          omega
        · have hle := (hthreads.pumps p hp).1
          simp only at hle
          omega
      rw [Option.toList_none, List.append_nil] at hnone
      exact hnone
  | @reopened L M L' jobs pumps job shelf _ writes ledger _ =>
      have hgeneration : L'.generation = L.generation :=
        ledger.frame.2.1.trans (Ledger.Passive.of_writes_nil writes).frame.2.1
      -- an archived session has no current thread
      refine alone_of_none job (fun j hj => ?_) fun p hp => ?_
      · have hlt := (hthreads.jobs j hj).2 shelf
        simp only at hlt
        omega
      · have hlt := (hthreads.pumps p hp).2 shelf
        simp only at hlt
        omega
  | retried => exact absurd rfl hretry
  | walLost => exact ⟨hone, hreported⟩

theorem Created.alone {v : View} {walIo : List WalWrite} (h : v.Created walIo) : v.Alone := by
  obtain ⟨-, ⟨job, hjobs, -⟩, hpumps⟩ := h
  obtain ⟨ledger, jobs, pumps⟩ := v
  simp only at hjobs hpumps
  rw [hjobs, hpumps]
  exact alone_of_nobody ledger job

theorem Recovered.alone {v v' : View} (h : v.Recovered v') : v'.Alone := by
  obtain ⟨-, ⟨job, hjobs, -⟩, hpumps⟩ := h
  obtain ⟨ledger, jobs, pumps⟩ := v'
  simp only at hjobs hpumps
  rw [hjobs, hpumps]
  exact alone_of_nobody ledger job

/-! ### The boundaries -/

/-- The boundaries are in order, and the session's turn count is that of
the last one. -/
structure Turned (v : View) : Prop where
  alone : v.Alone
  order : TurnsInOrder v.ledger.history
  turns : v.ledger.turns = turnsAfter v.ledger.history

theorem settled_of_plain {ns : List Notification} (h : ∀ n ∈ ns, n.Plain) :
    ns.filterMap Notification.settledTurn? = [] :=
  List.filterMap_eq_nil_iff.2 fun n hn => (h n hn).not_settled

/-- Nothing settled and nothing counted leaves the count. -/
theorem Turned.quiet {v v' : View} {ns : List Notification} (h : v.Turned) (halone : v'.Alone)
    (hhistory : v'.ledger.history = v.ledger.history ++ ns)
    (hsettled : ns.filterMap Notification.settledTurn? = [])
    (hcounted : ns.filterMap Notification.turnCount? = [])
    (hturns : v'.ledger.turns = v.ledger.turns) : v'.Turned := by
  refine ⟨halone, ?_, ?_⟩
  · rw [hhistory]
    exact h.order.quiet hsettled hcounted
  · rw [hturns, h.turns, hhistory, turnsAfter, turnsAfter, PairLog.after_append_quiet hsettled]

theorem Step.turned {v v' : View} {h : Happening} (hstep : v.Step h v') (hthreads : v.Threads)
    (hv : v.Turned) (hretry : h ≠ .retried) : v'.Turned := by
  have halone := hstep.alone hthreads hv.alone hretry
  obtain ⟨ns, htells⟩ := hstep.tells hthreads
  have hhistory := htells.carries.history
  have hlater := htells.later
  cases htells.adds with
  | plain plain counters =>
      exact hv.quiet halone hhistory (settled_of_plain plain) (Ledger.turnCounts_of_plain plain)
        counters.turns
  | fact before_plain after_plain unsettled counters =>
      refine hv.quiet halone hhistory ?_ (Ledger.turnCounts_of_fact before_plain after_plain)
        counters.turns
      rw [List.filterMap_append, settled_of_plain before_plain, List.nil_append]
      have hnote : (Notification.agent (v.ledger.event v.ledger.turns _)).settledTurn? = none :=
        unsettled
      rw [List.filterMap_cons_none hnote, settled_of_plain after_plain]
  | @turn turns outcome _ live counters =>
      -- a current pump has counted on from the session's own turns
      obtain ⟨pump, hpump, hcurrent, hreported⟩ := hlater turns (List.mem_singleton_self turns)
      rw [hv.alone.reported pump hpump hcurrent] at hreported
      obtain ⟨n, rfl⟩ : ∃ n, turns = n + 1 := ⟨turns - 1, by omega⟩
      have hfirst : (Notification.agent (v.ledger.event n (turnEndedKind outcome))).settledTurn? =
          some n := by
        cases outcome with
        | replayEnd => exact absurd rfl live
        | _ => rfl
      have hsettled : [Notification.agent (v.ledger.event n (turnEndedKind outcome)),
          .turnEnded v.ledger.id (n + 1) v.ledger.generation].filterMap Notification.settledTurn? =
          [n] := by
        rw [List.filterMap_cons_some hfirst]
        rfl
      refine ⟨halone, ?_, ?_⟩
      · rw [hhistory]
        refine hv.order.boundary ⟨hfirst, rfl⟩ ⟨rfl, rfl⟩ ?_
        rw [hv.turns] at hreported
        exact Nat.le_of_lt_succ hreported
      · rw [counters.turns, hhistory]
        exact (PairLog.after_append_first hsettled).symm
  | generation plain _ _ _ turns =>
      exact hv.quiet halone hhistory (settled_of_plain plain) (Ledger.turnCounts_of_plain plain) turns

theorem Created.turned {v : View} {walIo : List WalWrite} (h : v.Created walIo) : v.Turned := by
  have halone := h.alone
  obtain ⟨⟨L, -, -, hturns, -, -, -, -, -, hhistory, -, hpassive⟩, -, -⟩ := h
  obtain ⟨ns, hplain, -, hcarries⟩ := hpassive.carries
  have hns : v.ledger.history = ns := by rw [hcarries.history, hhistory, List.nil_append]
  have hsettled := settled_of_plain hplain
  refine ⟨halone, ?_, ?_⟩
  · rw [hns, ← List.nil_append ns]
    exact InOrder.nil.quiet hsettled (Ledger.turnCounts_of_plain hplain)
  · rw [hpassive.frame.2.2.2.1, hturns, hns, turnsAfter, after, hsettled]
    rfl

/-- A recovery counts the boundaries that are left. -/
theorem recovered_turns {path : PathBuf} {disk : List WalRecord} {history : List Notification}
    {rs : RecoveredSession} {kept : Nat} (horder : TurnsInOrder history)
    (hnotes : disk.filterMap WalRecord.note? = history)
    (hrecover : recoverRecords path (disk.take kept) = .ok (some rs)) :
    TurnsInOrder ((disk.take kept).filterMap WalRecord.note?) ∧
      rs.turns = turnsAfter ((disk.take kept).filterMap WalRecord.note?) := by
  have hcut : (disk.take kept).filterMap WalRecord.note? <+: history := by
    rw [← hnotes]
    exact (List.take_prefix kept disk).filterMap WalRecord.note?
  have horder' : TurnsInOrder ((disk.take kept).filterMap WalRecord.note?) := horder.cut hcut
  refine ⟨horder', ?_⟩
  rw [(recoverRecords_counters hrecover).1]
  exact tally_turns horder'

theorem Recovered.turned {v v' : View} (h : v.Recovered v') (hkept : v.Kept) (hv : v.Turned) :
    v'.Turned := by
  have halone := h.alone
  have hnotes := hkept.durable.notes h.walPath
  obtain ⟨⟨path, kept, rs, -, hrecover, limits, hledger⟩, -, -⟩ := h
  obtain ⟨horder, hturns⟩ := recovered_turns hv.order hnotes hrecover
  refine ⟨halone, ?_, ?_⟩
  · rw [hledger]
    exact horder
  · rw [hledger]
    exact hturns

end View

namespace ManagedSession

/-- The turns of a session count up, and a crash takes nothing of the
count that is in the file. -/
structure CountsTurns (s : ManagedSession) : Prop where
  /-- The counts of the `TurnEnded`s increase. -/
  increasing : (s.history.filterMap Notification.turnCount?).Pairwise (· < ·)
  /-- Each stands behind the agent fact that ends its turn. -/
  paired : ∀ i sid n generation, s.history[i]? = some (.turnEnded sid n generation) →
    ∃ j event turn, i = j + 1 ∧ s.history[j]? = some (.agent event) ∧
      event.settledTurn? = some turn ∧ n = turn + 1
  /-- The file holds the transcript, and memory its end. -/
  file : s.walPath.isSome → s.disk.filterMap WalRecord.note? = s.history
  memory : s.eventLog.entries.filter (!·.isMarker) <:+ s.history
  /-- A crash at any record is recovered with the count of the last
  boundary whose agent fact is left. -/
  recovery : s.walPath.isSome → ∀ path kept rs,
    recoverRecords path (s.disk.take kept) = .ok (some rs) →
      rs.turns = turnsAfter ((s.disk.take kept).filterMap WalRecord.note?)

end ManagedSession

namespace Server

/-- Faultless, and no unarchive is repeated on a session whose channel
went down. -/
def WithoutRetry (s : Server) (a : ServerAct) : Prop :=
  s.Faultless a ∧ ∀ session ∈ s.manager.session,
    match a with
    | .client (.setArchived false) _ =>
        ¬ (session.archived = false ∧ session.lifecycle = .disconnected)
    | _ => True

instance (s : Server) : DecidablePred s.WithoutRetry
  | .client (.setArchived false) _ | .client (.setArchived true) _ | .client .close _
  | .client (.publishChannel ..) _ | .client (.turnCount ..) _ | .client (.attach _) _
  | .client .detach _ | .client (.prompt ..) _ | .client (.steer ..) _ | .client (.adminPrompt _) _
  | .client (.cogDelivery ..) _ | .client .cancel _ | .client .restart _ | .client (.rename _) _
  | .client (.setPermissionMode _) _ | .client (.setModel _) _ | .client (.spawnFailed ..) _
  | .client (.record ..) _ | .client (.replayDone _) _ | .client (.agentDisconnected _) _
  | .create .. | .spawned .. | .spawnFailed .. | .pump .. | .crash _ => by
      dsimp only [WithoutRetry]
      infer_instance

/-- Over every run without lost writes and without such a retry:
publishes, pumps of any generation, restarts, archives, and crashes at
any record. -/
theorem counts_turns {s : Server} (hs : machine.Reaches WithoutRetry s) :
    ∀ session ∈ s.manager.session, session.CountsTurns := by
  intro session hsession
  have hview : s.viewOf session ∈ s.view := Option.mem_map_of_mem s.viewOf hsession
  obtain ⟨hkept, hturned⟩ : (s.viewOf session).Kept ∧ (s.viewOf session).Turned := by
    refine reaches_kept (P := View.Turned) (fun _ _ h => h.1) ?_ ?_ ?_ hs _ hview
    · intro s a v _ hcreated
      exact hcreated.turned
    · intro s a v h v' _ hkept hv hview hallowed hstep hby
      obtain ⟨session, hsession, rfl⟩ := Option.map_eq_some_iff.1 hview
      refine hstep.turned (hkept.facing _).threads ⟨⟨hv.alone.one, hv.alone.reported⟩, hv.order,
        hv.turns⟩ ?_
      rintro rfl
      obtain ⟨fate, rfl⟩ := hby
      have hbusy := hallowed.2 session hsession
      cases hstep with
      | retried open_ disconnected _ _ => exact hbusy ⟨open_, disconnected⟩
    · intro v v' hkept hv hrecovered
      exact hrecovered.turned hkept hv
  have hnotes : session.walPath.isSome → session.disk.filterMap WalRecord.note? = session.history :=
    hkept.durable.notes
  refine ⟨hturned.order.seconds, fun i sid n generation hi => ?_, hnotes, hkept.resident,
    fun hpath path kept rs hrecover => ?_⟩
  · obtain ⟨j, note, turn, hj, hnote, hsettled, hn⟩ := hturned.order.paired i _ n hi rfl
    cases note with
    | agent event => exact ⟨j, event, turn, hj, hnote, hsettled, hn⟩
    | _ => cases hsettled
  · exact (View.recovered_turns hturned.order (hnotes hpath) hrecover).2

/-- Three turns, two of them settled at once, and a crash between the
two records of the last; then one more turn. -/
def crashedRun : List ServerAct :=
  attachedRun ++
    [.client (.prompt "hi" []) .good, .pump 0 (.turnCount 1 .completed) .good,
      .pump 0 (.turnCount 3 .cancelled) .good, .crash 10, .spawned 0 sampleHandle .good,
      .pump 0 (.turnCount 4 .completed) .good]

theorem counts_turns_crashedRun :
    ((machine.run sample crashedRun).bind fun s => s.manager.session.map fun session =>
        (session.turns, session.history.filterMap Notification.turnCount?,
          session.history.filterMap Notification.settledTurn?)) = some (4, [1, 4], [0, 2, 3]) ∧
      ∀ s ∈ machine.run sample crashedRun, ∀ session ∈ s.manager.session,
        session.CountsTurns := by
  refine ⟨by decide, fun s hrun session hsession => ?_⟩
  exact counts_turns (.of_run (.start ⟨_, _, _, _, rfl⟩) (by decide) hrun) session hsession

end Server

end Yaldabaoth
