import Yaldabaoth.Lib.EpochLog
import Yaldabaoth.Proofs.Session.Transcript

/-!
# `Yaldabaoth.Proofs.Session.Numbering`: the envelopes of the agent facts

The agent facts of a transcript are a log numbered within epochs: the
generation is the epoch, and `seq` the number. In every run the
envelope counter is the count of the facts of the session's own
generation (`Counted`). As long as no write is lost, the file holds
the whole transcript (`Durable`), a crash cuts it to one of its
prefixes, and the facts are numbered on both sides of the crash
(`wellNumbered`).
-/

set_option autoImplicit false

namespace Yaldabaoth

open EpochLog (within Numbered)
open Ledger (Lossless Adds Carries)

namespace Ledger

/-- No fact is of a later generation than the session, and the envelope
counter is the count of those of its own. -/
structure Counted (L : Ledger) : Prop where
  bound : ∀ event ∈ L.agents, event.generation ≤ L.generation
  next : L.agentSeq = (within AgentEvent.generation L.generation L.agents).length

theorem Carries.agents {L L' : Ledger} {ns : List Notification} (h : L.Carries ns L') :
    L'.agents = L.agents ++ ns.filterMap Notification.agent? := by
  rw [Ledger.agents, h.history, List.filterMap_append]
  rfl

/-- One fact at most is told. -/
theorem Adds.facts {L L' : Ledger} {ns : List Notification} (h : L.Adds ns L') :
    (ns.filterMap Notification.agent? = [] ∧
        (L'.generation = L.generation ∧ L'.agentSeq = L.agentSeq ∨
          L'.generation = L.generation + 1 ∧ L'.agentSeq = 0)) ∨
      ∃ turn kind, ns.filterMap Notification.agent? = [L.event turn kind] ∧
        L'.generation = L.generation ∧ L'.agentSeq = L.agentSeq + 1 := by
  cases h with
  | plain plain counters =>
      exact .inl ⟨agents_of_plain plain, .inl ⟨counters.generation, counters.agentSeq⟩⟩
  | fact before_plain after_plain _ counters =>
      exact .inr ⟨_, _, agents_of_fact before_plain after_plain, counters.generation,
        counters.agentSeq⟩
  | turn _ counters => exact .inr ⟨_, _, rfl, counters.generation, counters.agentSeq⟩
  | generation plain _ generation agentSeq _ =>
      exact .inl ⟨agents_of_plain plain, .inr ⟨generation, agentSeq⟩⟩

/-- In a later generation every fact is old. -/
theorem Counted.old {L : Ledger} (h : L.Counted) {generation : Nat}
    (hlater : L.generation < generation) :
    within AgentEvent.generation generation L.agents = [] := by
  refine EpochLog.within_eq_nil fun event hevent => ?_
  have hle := h.bound event hevent
  omega

theorem Counted.adds {L L' : Ledger} {ns : List Notification} (h : L.Counted) (hadds : L.Adds ns L')
    (hcarries : L.Carries ns L') : L'.Counted := by
  have hagents := hcarries.agents
  rcases hadds.facts with ⟨hnone, hsame | hnext⟩ | ⟨turn, kind, hone, hgeneration, hseq⟩
  · rw [hnone, List.append_nil] at hagents
    constructor
    · rw [hagents, hsame.1]
      exact h.bound
    · rw [hagents, hsame.1, hsame.2]
      exact h.next
  · rw [hnone, List.append_nil] at hagents
    constructor
    · intro event hevent
      rw [hagents] at hevent
      have hle := h.bound event hevent
      omega
    · rw [hagents, hnext.1, hnext.2, h.old (Nat.lt_succ_self _)]
      rfl
  · rw [hone] at hagents
    constructor
    · intro event hevent
      rw [hagents] at hevent
      rw [hgeneration]
      rcases List.mem_append.1 hevent with hevent | hevent
      · exact h.bound event hevent
      · rw [List.mem_singleton.1 hevent]
        exact Nat.le_refl L.generation
    · have hgrown : within AgentEvent.generation L.generation (L.agents ++ [L.event turn kind]) =
          within AgentEvent.generation L.generation L.agents ++ [L.event turn kind] :=
        EpochLog.within_append_same rfl
      rw [hagents, hgeneration, hgrown, List.length_append, hseq, h.next]
      rfl

/-- The next fact has the next number of the last epoch. -/
theorem Counted.numbered {L L' : Ledger} {ns : List Notification} (h : L.Counted)
    (hnumbered : Numbered AgentEvent.generation AgentEvent.seq L.agents) (hadds : L.Adds ns L')
    (hcarries : L.Carries ns L') :
    Numbered AgentEvent.generation AgentEvent.seq L'.agents := by
  rw [hcarries.agents]
  rcases hadds.facts with ⟨hnone, -⟩ | ⟨turn, kind, hone, -⟩
  · rw [hnone, List.append_nil]
    exact hnumbered
  · rw [hone]
    exact hnumbered.append h.bound h.next

/-- The file of a session that has one is open while the session is,
and holds the transcript. -/
structure Durable (L : Ledger) : Prop where
  file : L.walPath.isSome → L.OnFile
  notes : L.walPath.isSome → L.notes = L.history

end Ledger

namespace View

theorem Created.counted {v : View} {walIo : List WalWrite} (h : v.Created walIo) :
    v.ledger.Counted ∧ Numbered AgentEvent.generation AgentEvent.seq v.ledger.agents := by
  obtain ⟨⟨L, hgeneration, hseq, -, -, -, -, -, -, hhistory, -, hpassive⟩, -, -⟩ := h
  obtain ⟨ns, hplain, -, hcarries⟩ := hpassive.carries
  have hagents : L.agents = [] := by rw [Ledger.agents, hhistory]; rfl
  have hcounted : L.Counted := by
    refine ⟨?_, ?_⟩
    · rw [hagents]
      simp
    · rw [hagents, hseq]
      rfl
  have hadds : L.Adds ns v.ledger := .plain hplain hpassive.continues
  refine ⟨hcounted.adds hadds hcarries, hcounted.numbered ?_ hadds hcarries⟩
  rw [hagents]
  exact .nil

theorem Recovered.counted {v v' : View} (h : v.Recovered v') : v'.ledger.Counted := by
  obtain ⟨⟨path, kept, rs, -, hrecover, limits, hledger⟩, -, -⟩ := h
  have hlater := lt_nextGeneration (recoverRecords_counters hrecover).2
  rw [hledger]
  refine ⟨fun event hevent => Nat.le_of_lt (hlater event hevent), ?_⟩
  have hnone := EpochLog.within_eq_nil hlater
  exact (congrArg List.length hnone).symm

/-! ### The file of a run without lost writes -/

theorem Created.durable {v : View} {walIo : List WalWrite} (h : v.Created walIo)
    (hlossless : Lossless walIo) : v.ledger.Durable := by
  obtain ⟨⟨L, -, -, -, -, -, hwalOpen, hwalIo, hnotes, hhistory, -, hpassive⟩, -, -⟩ := h
  obtain ⟨ns, -, -, hcarries⟩ := hpassive.carries
  have hpath : v.ledger.walPath = L.walPath := hpassive.frame.2.2.2.2.2.2
  have hopen : v.ledger.walPath.isSome → v.ledger.walOpen = true := by
    intro hfile
    rw [hpassive.frame.2.2.2.2.2.1, hwalOpen, ← hpath]
    exact hfile
  refine ⟨fun hfile => .inl (hopen hfile), fun hfile => ?_⟩
  obtain ⟨landed, hlanded, hlands⟩ := hcarries.notes
  rw [hlanded, hcarries.history, hnotes, hhistory, hlands.whole (hopen hfile) (hwalIo ▸ hlossless)]

/-- What a happening tells is in the file, or there is nothing told. -/
theorem Tells.durable {v v' : View} {h : Happening} {ns : List Notification}
    (htells : v.Tells h v' ns) (hdurable : v.ledger.Durable) (hlossless : Lossless v.ledger.walIo)
    (hkept : h ≠ .walLost) : v'.ledger.Durable := by
  have hfile : v'.ledger.walPath.isSome → v'.ledger.OnFile := by
    intro hpath
    rw [htells.path] at hpath
    exact htells.file hkept (hdurable.file hpath)
  refine ⟨hfile, fun hpath => ?_⟩
  obtain ⟨landed, hlanded, hlands⟩ := htells.carries.notes
  have hwhole : landed = ns := by
    rcases hfile hpath with hopen | harchived
    · exact hlands.whole hopen hlossless
    · have hnone := htells.shelf harchived
      rw [hnone] at hlands ⊢
      exact List.sublist_nil.1 hlands.sublist
  rw [htells.path] at hpath
  rw [hlanded, hwhole, hdurable.notes hpath, htells.carries.history]

theorem Recovered.durable {v v' : View} (h : v.Recovered v') : v'.ledger.Durable := by
  obtain ⟨⟨path, kept, rs, -, -, limits, hledger⟩, -, -⟩ := h
  rw [hledger]
  refine ⟨fun _ => ?_, fun _ => rfl⟩
  show (!rs.archived) = true ∨ rs.archived = true
  cases rs.archived
  · exact .inl rfl
  · exact .inr rfl

/-- The transcript of a recovered session is the head of the file's. -/
theorem Recovered.history {v v' : View} (h : v.Recovered v') :
    v'.ledger.history <+: v.ledger.notes := by
  obtain ⟨⟨path, kept, rs, -, -, limits, hledger⟩, -, -⟩ := h
  rw [hledger]
  exact (List.take_prefix kept v.ledger.disk).filterMap WalRecord.note?

theorem Recovered.walPath {v v' : View} (h : v.Recovered v') : v.ledger.walPath.isSome := by
  obtain ⟨⟨path, kept, rs, hpath, -⟩, -, -⟩ := h
  rw [hpath]
  rfl

/-! ### Memory -/

theorem Created.resident {v : View} {walIo : List WalWrite} (h : v.Created walIo) :
    v.ledger.resident <:+ v.ledger.history := by
  obtain ⟨⟨L, -, -, -, -, -, -, -, -, hhistory, hlog, hpassive⟩, -, -⟩ := h
  obtain ⟨ns, hplain, -, hcarries⟩ := hpassive.carries
  refine hcarries.resident (unmarked_of_plain hplain) ?_
  rw [Ledger.resident, hlog]
  exact List.nil_suffix

theorem Recovered.resident {v v' : View} (h : v.Recovered v') :
    v'.ledger.resident <:+ v'.ledger.history := by
  obtain ⟨⟨path, kept, rs, -, -, limits, hledger⟩, -, -⟩ := h
  rw [hledger]
  exact List.nil_suffix

/-! ### The invariant -/

/-- What every view has whose run lost no write. -/
structure Kept (v : View) : Prop where
  threads : v.Threads
  counted : v.ledger.Counted
  numbered : Numbered AgentEvent.generation AgentEvent.seq v.ledger.agents
  durable : v.ledger.Durable
  resident : v.ledger.resident <:+ v.ledger.history

theorem Created.kept {v : View} {walIo : List WalWrite} (h : v.Created walIo)
    (hlossless : Lossless walIo) : v.Kept :=
  ⟨h.threads, h.counted.1, h.counted.2, h.durable hlossless, h.resident⟩

theorem Kept.facing {v : View} (h : v.Kept) (walIo : List WalWrite) : (v.facing walIo).Kept :=
  ⟨⟨h.threads.jobs, h.threads.pumps⟩, ⟨h.counted.bound, h.counted.next⟩, h.numbered,
    ⟨h.durable.file, h.durable.notes⟩, h.resident⟩

theorem Step.kept {v v' : View} {h : Happening} (hstep : v.Step h v') (hkept : v.Kept)
    (hlossless : Lossless v.ledger.walIo) (hfile : h ≠ .walLost) : v'.Kept := by
  obtain ⟨ns, htells⟩ := hstep.tells hkept.threads
  exact ⟨hstep.threads hkept.threads, hkept.counted.adds htells.adds htells.carries,
    hkept.counted.numbered hkept.numbered htells.adds htells.carries,
    htells.durable hkept.durable hlossless hfile,
    htells.carries.resident htells.unmarked hkept.resident⟩

theorem Recovered.kept {v v' : View} (h : v.Recovered v') (hkept : v.Kept) : v'.Kept := by
  refine ⟨h.threads, h.counted, ?_, h.durable, h.resident⟩
  have hcut : v'.ledger.history <+: v.ledger.history := by
    rw [← hkept.durable.notes h.walPath]
    exact h.history
  exact hkept.numbered.cut (hcut.filterMap Notification.agent?)

end View

namespace Server

/-- No write to the log file is lost, and none of its reopens fails. -/
def Faultless (_ : Server) (a : ServerAct) : Prop :=
  Lossless a.fate.walIo ∧ a.fate.reopenError = none

instance (s : Server) : DecidablePred s.Faultless := fun a =>
  inferInstanceAs (Decidable (Lossless a.fate.walIo ∧ a.fate.reopenError = none))

/-- The run rule for runs that lose no write: what is to be shown of a
view may lean on `View.Kept`. -/
theorem reaches_kept {allowed : Server → ServerAct → Prop} {P : View → Prop}
    (hfaultless : ∀ s a, allowed s a → s.Faultless a)
    (hcreate : ∀ s a v, allowed s a → v.Created a.fate.walIo → P v)
    (hstep : ∀ s a v h v', v.Sane → v.Kept → P v → s.view = some v → allowed s a →
      (v.facing a.fate.walIo).Step h v' → h.By s v a → P v')
    (hcrash : ∀ v v', v.Kept → P v → v.Recovered v' → P v') {s : Server}
    (hs : machine.Reaches allowed s) : ∀ v ∈ s.view, v.Kept ∧ P v := by
  intro v hv
  refine (reaches_view (P := fun v => v.Kept ∧ P v) ?_ ?_ ?_ hs v hv).2
  · intro s a v hallowed hcreated
    exact ⟨hcreated.kept (hfaultless s a hallowed).1, hcreate s a v hallowed hcreated⟩
  · intro s a v h v' hsane hv hview hallowed hhappens hby
    have hfile : h ≠ .walLost := by
      rintro rfl
      exact hby (hfaultless s a hallowed).2
    exact ⟨hhappens.kept (hv.1.facing _) (hfaultless s a hallowed).1 hfile,
      hstep s a v h v' hsane hv.1 hv.2 hview hallowed hhappens hby⟩
  · intro v v' _ hv hrecovered
    exact ⟨hrecovered.kept hv.1, hcrash v v' hv.1 hv.2 hrecovered⟩

end Server

/-! ### The numbering -/

namespace ManagedSession

/-- The envelopes of a session's agent facts are in order, in memory, in
the file, and after any crash. -/
structure WellNumbered (s : ManagedSession) : Prop where
  transcript : Numbered AgentEvent.generation AgentEvent.seq
    (s.history.filterMap Notification.agent?)
  /-- The file holds the transcript, and memory its end. -/
  file : s.walPath.isSome → s.disk.filterMap WalRecord.note? = s.history
  memory : s.eventLog.entries.filter (!·.isMarker) <:+ s.history
  /-- The generation after a crash is a new one. -/
  recovery : ∀ path kept rs limits, recoverRecords path (s.disk.take kept) = .ok (some rs) →
    ∀ event ∈ ((s.disk.take kept).filterMap WalRecord.note?).filterMap Notification.agent?,
      event.generation < (restoreSeed rs (s.disk.take kept)
        ((s.disk.take kept).filterMap WalRecord.note?) limits).channelGeneration

end ManagedSession

namespace Server

theorem wellNumbered {s : Server} (hs : machine.Reaches Faultless s) :
    ∀ session ∈ s.manager.session, session.WellNumbered := by
  intro session hsession
  have hview : s.viewOf session ∈ s.view := Option.mem_map_of_mem s.viewOf hsession
  obtain ⟨hkept, -⟩ := reaches_kept (P := fun _ => True) (fun _ _ h => h) (fun _ _ _ _ _ => trivial)
    (fun _ _ _ _ _ _ _ _ _ _ _ _ => trivial) (fun _ _ _ _ _ => trivial) hs _ hview
  exact ⟨hkept.numbered, hkept.durable.notes, hkept.resident,
    fun path kept rs limits hrecover => lt_nextGeneration (recoverRecords_counters hrecover).2⟩

/-! ### A sample run -/

/-- A server with a directory for its log files. -/
def sample : Server :=
  empty "s" .askEachTime { cap := 100, highWater := 100 } (some "/wal")

/-- A channel whose worker lives. -/
def sampleHandle : TransportHandle :=
  { connected := true, receiving := true, steeringSupported := false, sessionId := some "acp",
    permissionMode := .askEachTime, model := none, generation := 0, inbox := [] }

/-- A session is created and attached. -/
def attachedRun : List ServerAct :=
  [.create "/w" "label" .claude none .good, .spawned 0 sampleHandle .good]

/-- A turn, a restart, and a late word of the pump it superseded; then a
crash that keeps the restarted channel's first fact. -/
def restartedRun : List ServerAct :=
  attachedRun ++
    [.client (.prompt "hi" []) .good, .pump 0 (.record (.chunk "x")) .good,
      .pump 0 (.turnCount 1 .completed) .good, .client .restart .good,
      .pump 0 (.record (.chunk "late")) .good, .spawned 0 sampleHandle .good, .crash 12,
      .spawned 0 sampleHandle .good]

/-- Generation, number and turn of each agent fact of a transcript. -/
def envelopes (session : ManagedSession) : List (Nat × Nat × Nat) :=
  (session.history.filterMap Notification.agent?).map fun event =>
    (event.generation, event.seq, event.turn)

theorem wellNumbered_restartedRun :
    ((machine.run sample restartedRun).bind fun s => s.manager.session.map envelopes) =
        some [(0, 0, 0), (0, 1, 0), (0, 2, 0), (0, 3, 0), (1, 0, 1), (2, 0, 1)] ∧
      ∀ s ∈ machine.run sample restartedRun, ∀ session ∈ s.manager.session,
        session.WellNumbered := by
  refine ⟨by decide, fun s hrun session hsession => ?_⟩
  exact wellNumbered (.of_run (.start ⟨_, _, _, _, rfl⟩) (by decide) hrun) session hsession

end Server

end Yaldabaoth
