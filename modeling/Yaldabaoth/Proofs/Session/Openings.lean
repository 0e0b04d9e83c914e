import Yaldabaoth.Proofs.Session.Numbering

/-!
# `Yaldabaoth.Proofs.Session.Openings`: the first fact of a generation

`ChannelOpened` is meant to be the first fact of its generation and
the only one of its kind. Two paths break this. A prompt that is
admitted while the channel is still spawning is recorded at once, under
a generation that no channel has opened yet; and a generation whose
channel went down is opened a second time when an unarchive is
repeated. `opens_first` proves that nothing else does, over runs with
any other faults of the file; `prompt_before_opening` is the run that
takes the first path.

The invariant is `Opening`. A session with a live channel or a current
pump has facts of its generation (`InService`), and the file is a copy
of the transcript that may have lost facts, but never the first one of
a generation without the rest of it (`EpochLog.Thins`).
-/

set_option autoImplicit false

namespace Yaldabaoth

open EpochLog (within Headed Thins)
open Ledger (Lossless)

namespace View

/-- The session has a live channel, or a pump of its generation. -/
def InService (v : View) : Prop :=
  v.ledger.lifecycle = .live ∨ ∃ pump ∈ v.pumps, pump.generation = v.ledger.generation

theorem live_of_passive {L L' : Ledger} (h : Ledger.Passive L L') (hlive : L'.lifecycle = .live) :
    L.lifecycle = .live := by
  rcases h.lifecycle with hsame | ⟨-, hout, -⟩
  · exact hsame ▸ hlive
  · exact absurd hlive hout

/-- Only a published channel puts a session in service, and it has said
so by then. -/
theorem Step.inService {v v' : View} {h : Happening} (hstep : v.Step h v') (hthreads : v.Threads)
    (hservice : v'.InService) :
    v'.ledger.agentSeq ≠ 0 ∨ v.InService ∧ v'.ledger.generation = v.ledger.generation := by
  cases hstep with
  | @quiet L L' _ _ _ _ ledger _ pumps_le =>
      have hgeneration : L'.generation = L.generation := ledger.frame.2.1
      refine .inr ⟨?_, hgeneration⟩
      rcases hservice with hlive | ⟨pump, hpump, hcurrent⟩
      · exact .inl (live_of_passive ledger hlive)
      · obtain ⟨q, hq, hsame⟩ := pumps_le.old pump hpump
        exact .inr ⟨q, hq, hsame.trans (hcurrent.trans hgeneration)⟩
  | @prompted L M L' _ _ _ _ _ _ before speaks =>
      have hgeneration : L'.generation = L.generation := speaks.frame.2.1.trans before.frame.2.1
      refine .inr ⟨?_, hgeneration⟩
      rcases hservice with hlive | ⟨pump, hpump, hcurrent⟩
      · exact .inl (live_of_passive before (speaks.frame.2.2.2.2.2.2.2 ▸ hlive))
      · exact .inr ⟨pump, hpump, hcurrent.trans hgeneration⟩
  | @heard L M L' _ _ _ _ current speaks _ writes _ =>
      have hspoken : M.generation = L.generation := by
        rcases speaks with rfl | ⟨kind, -, hspeaks⟩
        · rfl
        · exact hspeaks.frame.2.1
      obtain ⟨walIo, disk, history, eventLog, rfl⟩ := writes.shape
      exact .inr ⟨.inr current, hspoken⟩
  | @settled L L' _ _ rest p _ _ from_ current _ _ settles =>
      exact .inr ⟨.inr ⟨p, from_.mem_iff.2 List.mem_cons_self, current⟩, settles.frame.2.1⟩
  | @opened L M N L' _ _ _ _ _ _ _ _ speaks attaches =>
      left
      show L'.agentSeq ≠ 0
      rw [attaches.frame.2.2.1, speaks.frame.2.2.1]
      exact Nat.succ_ne_zero _
  | @restarted L L' _ _ _ open_ ledger _ =>
      have hgeneration : L'.generation = L.generation + 1 := ledger.frame.2.1
      exfalso
      rcases hservice with hlive | ⟨pump, hpump, hcurrent⟩
      · cases live_of_passive ledger hlive
      · have hle := (hthreads.pumps pump hpump).1
        have hcurrent' : pump.generation = L.generation + 1 := hcurrent.trans hgeneration
        simp only at hle
        omega
  | @shelved L M _ _ _ _ _ writes _ =>
      have hgeneration : M.generation = L.generation :=
        (Ledger.Passive.of_writes_nil writes).frame.2.1
      exfalso
      rcases hservice with hlive | ⟨pump, hpump, hcurrent⟩
      · cases hlive
      · have hle := (hthreads.pumps pump hpump).1
        have hcurrent' : pump.generation = M.generation + 1 := hcurrent
        simp only at hle
        omega
  | @reopened L M L' _ _ _ _ _ writes ledger _ =>
      have hgeneration : L'.generation = L.generation :=
        ledger.frame.2.1.trans (Ledger.Passive.of_writes_nil writes).frame.2.1
      refine .inr ⟨?_, hgeneration⟩
      rcases hservice with hlive | ⟨pump, hpump, hcurrent⟩
      · cases live_of_passive ledger hlive
      · exact .inr ⟨pump, hpump, hcurrent.trans hgeneration⟩
  | @retried L L' _ _ _ _ _ ledger _ =>
      have hgeneration : L'.generation = L.generation := ledger.frame.2.1
      refine .inr ⟨?_, hgeneration⟩
      rcases hservice with hlive | ⟨pump, hpump, hcurrent⟩
      · cases live_of_passive ledger hlive
      · exact .inr ⟨pump, hpump, hcurrent.trans hgeneration⟩
  | walLost => exact .inr ⟨hservice, rfl⟩

/-- Where a fact comes from: a publish, a session in service, or a
prompt to one that is still coming up. -/
theorem Step.speaker {v v' : View} {h : Happening} (hstep : v.Step h v') (hspeaks : h.speaks = true) :
    h = .opened ∨ v.InService ∨
      h = .prompted ∧ (v.ledger.lifecycle = .spawning ∨ v.ledger.lifecycle = .restarting) := by
  cases hstep with
  | @prompted L _ _ _ _ _ _ notArchived notDisconnected _ _ =>
      right
      cases hphase : L.lifecycle with
      | live => exact .inl (.inl hphase)
      | spawning => exact .inr ⟨rfl, .inl rfl⟩
      | restarting => exact .inr ⟨rfl, .inr rfl⟩
      | archived => exact absurd hphase notArchived
      | disconnected => exact absurd hphase notDisconnected
  | heard current _ _ _ _ => exact .inr (.inl (.inr current))
  | settled from_ current _ _ _ =>
      exact .inr (.inl (.inr ⟨_, from_.mem_iff.2 List.mem_cons_self, current⟩))
  | opened => exact .inl rfl
  | _ => cases hspeaks

/-- Every generation of the transcript and of the file begins with its
opening. -/
structure Opening (v : View) : Prop where
  threads : v.Threads
  counted : v.ledger.Counted
  headed : Headed AgentEvent.generation AgentEvent.opens v.ledger.agents
  thins : Thins AgentEvent.generation v.ledger.agents v.ledger.durableAgents
  /-- The file has the first fact of the generation, if there is one. -/
  held : v.ledger.OnFile →
    within AgentEvent.generation v.ledger.generation v.ledger.agents = [] ∨
      within AgentEvent.generation v.ledger.generation v.ledger.durableAgents ≠ []
  service : v.InService → v.ledger.agentSeq ≠ 0
  resident : v.ledger.resident <:+ v.ledger.history

theorem Opening.facing {v : View} (h : v.Opening) (walIo : List WalWrite) :
    (v.facing walIo).Opening :=
  ⟨⟨h.threads.jobs, h.threads.pumps⟩, ⟨h.counted.bound, h.counted.next⟩, h.headed, h.thins,
    h.held, h.service, h.resident⟩

theorem Created.opening {v : View} {walIo : List WalWrite} (h : v.Created walIo) : v.Opening := by
  have hthreads := h.threads
  have hcounted := h.counted.1
  have hresident := h.resident
  obtain ⟨⟨L, -, -, -, hphase, -, -, -, hnotes, hhistory, -, hpassive⟩, -, hpumps⟩ := h
  obtain ⟨ns, hplain, -, hcarries⟩ := hpassive.carries
  have hagents : v.ledger.agents = [] := by
    rw [hcarries.agents, Ledger.agents_of_plain hplain, Ledger.agents, hhistory]
    rfl
  have hdurable : v.ledger.durableAgents = [] := by
    obtain ⟨landed, hlanded, hlands⟩ := hcarries.notes
    have hsub := hlands.sublist.filterMap Notification.agent?
    rw [Ledger.agents_of_plain hplain] at hsub
    rw [Ledger.durableAgents, hlanded, hnotes, List.nil_append]
    exact List.sublist_nil.1 hsub
  refine ⟨hthreads, hcounted, ?_, ?_, fun _ => .inl ?_, fun hservice => ?_, hresident⟩
  · rw [hagents]
    exact .nil
  · rw [hagents, hdurable]
    exact .refl []
  · rw [hagents]
    rfl
  · rcases hservice with hlive | ⟨pump, hpump, -⟩
    · have hspawning := live_of_passive hpassive hlive
      rw [hphase] at hspawning
      cases hspawning
    · rw [hpumps] at hpump
      cases hpump

/-- A happening keeps the openings in order if a prompt finds the
generation opened, and a publish finds it not and reaches the file. -/
theorem Step.opening {v v' : View} {h : Happening} (hstep : v.Step h v') (hv : v.Opening)
    (hprompted : h = .prompted →
      v.ledger.lifecycle = .spawning ∨ v.ledger.lifecycle = .restarting → v.ledger.agentSeq ≠ 0)
    (hopened : h = .opened → v.ledger.agentSeq = 0 ∧ Lossless v.ledger.walIo) : v'.Opening := by
  obtain ⟨ns, htells⟩ := hstep.tells hv.threads
  have hcounted := hv.counted.adds htells.adds htells.carries
  have hthreads := hstep.threads hv.threads
  have hresident := htells.carries.resident htells.unmarked hv.resident
  have hagents := htells.carries.agents
  obtain ⟨landed, hlanded, hlands⟩ := htells.carries.notes
  have hdurable : v'.ledger.durableAgents =
      v.ledger.durableAgents ++ landed.filterMap Notification.agent? := by
    rw [Ledger.durableAgents, hlanded, List.filterMap_append]
    rfl
  have hsub := hlands.sublist.filterMap Notification.agent?
  rcases htells.adds.facts with ⟨hnone, hcounters⟩ | ⟨turn, kind, hone, hgeneration, hseq⟩
  · -- no fact: the logs stay as they are
    rw [hnone] at hsub hagents
    rw [List.append_nil] at hagents
    rw [List.sublist_nil.1 hsub, List.append_nil] at hdurable
    refine ⟨hthreads, hcounted, hagents ▸ hv.headed, ?_, fun hfile => ?_, fun hservice => ?_,
      hresident⟩
    · rw [hagents, hdurable]
      exact hv.thins
    · rw [hagents, hdurable]
      rcases hcounters with ⟨hsame, -⟩ | ⟨hnext, -⟩
      · rw [hsame]
        exact hv.held (htells.closed hfile)
      · exact .inl (hv.counted.old (by omega))
    · rcases hstep.inService hv.threads hservice with hspoke | ⟨hbefore, hsame⟩
      · exact hspoke
      · rcases hcounters with ⟨-, hseq⟩ | ⟨hnext, -⟩
        · rw [hseq]
          exact hv.service hbefore
        · omega
  · -- one fact of the session's generation
    generalize hevent : v.ledger.event turn kind = event at hone
    have hepoch : event.generation = v.ledger.generation := by rw [← hevent]; rfl
    obtain ⟨hspeaks, hopens⟩ := htells.spoken event (by rw [hone]; exact List.mem_singleton_self _)
    have hempty : within AgentEvent.generation event.generation v.ledger.agents = [] ↔
        v.ledger.agentSeq = 0 := by
      rw [hepoch, hv.counted.next, List.length_eq_zero_iff]
    have hhead : event.opens = true ↔
        within AgentEvent.generation event.generation v.ledger.agents = [] := by
      rw [hopens, hempty]
      refine ⟨fun h => (hopened h).1, fun hzero => ?_⟩
      rcases hstep.speaker hspeaks with h | hservice | ⟨h, hphase⟩
      · exact h
      · exact absurd hzero (hv.service hservice)
      · exact absurd hzero (hprompted h hphase)
    rw [hone] at hsub hagents
    have hkept : v.ledger.OnFile →
        within AgentEvent.generation event.generation v.ledger.agents = [] ∨
          within AgentEvent.generation event.generation v.ledger.durableAgents ≠ [] := by
      rw [hepoch]
      exact hv.held
    have hlost : landed.filterMap Notification.agent? = [] ∨
        landed.filterMap Notification.agent? = [event] ∧ v.ledger.OnFile := by
      rcases List.sublist_singleton.1 hsub with hnone | hall
      · exact .inl hnone
      · refine .inr ⟨hall, htells.closed (.inl ?_)⟩
        by_contra hclosed
        rw [hlands.closed (Bool.eq_false_iff.2 hclosed)] at hall
        cases hall
    refine ⟨hthreads, hcounted, ?_, ?_, fun hfile => .inr ?_, fun _ => ?_, hresident⟩
    · rw [hagents]
      exact hv.headed.append hhead
    · rw [hagents, hdurable]
      rcases hlost with hnone | ⟨hall, hfile⟩
      · rw [hnone, List.append_nil]
        exact hv.thins.lose event
      · rw [hall]
        exact hv.thins.keep (hkept hfile)
    · rw [hgeneration, ← hepoch, hdurable]
      rcases hlost with hnone | ⟨hall, -⟩
      · -- what was lost is no opening, so the generation has one already
        rw [hnone, List.append_nil]
        refine (hkept (htells.closed hfile)).resolve_left fun hfirst => ?_
        have hlossless := (hopened (hopens.1 (hhead.2 hfirst))).2
        have hopen : v'.ledger.walOpen = true := hfile.resolve_right fun harchived => by
          rw [htells.shelf harchived] at hone
          cases hone
        rw [hlands.whole hopen hlossless, hone] at hnone
        cases hnone
      · rw [hall, EpochLog.within_append_same rfl]
        exact List.append_ne_nil_of_right_ne_nil _ (List.cons_ne_nil _ _)
    · rw [hseq]
      exact Nat.succ_ne_zero _

theorem Recovered.opening {v v' : View} (h : v.Recovered v') (hv : v.Opening) : v'.Opening := by
  have hcounted := h.counted
  have hcut : v'.ledger.agents <+: v.ledger.durableAgents :=
    h.history.filterMap Notification.agent?
  have hthreads := h.threads
  have hresident := h.resident
  obtain ⟨⟨path, kept, rs, -, hrecover, limits, hledger⟩, -, hpumps⟩ := h
  have hsame : v'.ledger.durableAgents = v'.ledger.agents := by rw [hledger]; rfl
  have hzero : v'.ledger.agentSeq = 0 := by rw [hledger]; rfl
  refine ⟨hthreads, hcounted, (hv.headed.thin hv.thins).cut hcut, ?_, fun _ => .inl ?_,
    fun hservice => ?_, hresident⟩
  · rw [hsame]
    exact .refl _
  · rw [← List.length_eq_zero_iff, ← hcounted.next]
    exact hzero
  · rcases hservice with hlive | ⟨pump, hpump, -⟩
    · have hphase : v'.ledger.lifecycle = if rs.archived then .archived else .spawning := by
        rw [hledger]
        rfl
      rw [hphase] at hlive
      split at hlive <;> cases hlive
    · rw [hpumps] at hpump
      cases hpump

end View

namespace ManagedSession

/-- In the transcript and in the file, each generation's facts begin
with a `ChannelOpened` and hold no second one; memory holds the
transcript's end. -/
structure OpensFirst (s : ManagedSession) : Prop where
  transcript : Headed AgentEvent.generation AgentEvent.opens
    (s.history.filterMap Notification.agent?)
  file : Headed AgentEvent.generation AgentEvent.opens
    ((s.disk.filterMap WalRecord.note?).filterMap Notification.agent?)
  memory : s.eventLog.entries.filter (!·.isMarker) <:+ s.history

end ManagedSession

namespace Server

/-- The steps that keep the openings in order. A prompt does not meet a
session that is coming up in a generation without a fact; a thread of
the session's generation reports to one without a fact, and loses no
write. -/
def Orderly (s : Server) (a : ServerAct) : Prop :=
  ∀ session ∈ s.manager.session,
    match a with
    | .client command _ =>
        command.prompts = true → session.lifecycle = .spawning ∨ session.lifecycle = .restarting →
          session.agentSeq ≠ 0
    | .spawned index _ fate =>
        ∀ job ∈ s.manager.jobs[index]?, job.expectedGeneration = session.channelGeneration →
          session.agentSeq = 0 ∧ Lossless fate.walIo
    | _ => True

instance (s : Server) : DecidablePred s.Orderly := fun a => by
  unfold Orderly
  cases a <;> infer_instance

/-- Over every run of orderly steps, whatever else its clients, threads
and pumps do, and whatever writes and crashes befall the file. -/
theorem opens_first {s : Server} (hs : machine.Reaches Orderly s) :
    ∀ session ∈ s.manager.session, session.OpensFirst := by
  intro session hsession
  have hview : s.viewOf session ∈ s.view := Option.mem_map_of_mem s.viewOf hsession
  have hopening : (s.viewOf session).Opening := by
    refine (reaches_view (P := View.Opening) ?_ ?_ ?_ hs _ hview).2
    · intro s a v _ hcreated
      exact hcreated.opening
    · intro s a v h v' _ hv hview hallowed hstep hby
      obtain ⟨session, hsession, rfl⟩ := Option.map_eq_some_iff.1 hview
      have horderly := hallowed session hsession
      refine hstep.opening (hv.facing _) ?_ ?_
      · rintro rfl hphase
        obtain ⟨command, fate, rfl, hprompts⟩ := hby
        exact horderly hprompts hphase
      · rintro rfl
        obtain ⟨index, handle, fate, job, rfl, hjob, hcurrent⟩ := hby
        exact horderly job hjob hcurrent
    · intro v v' _ hv hrecovered
      exact hrecovered.opening hv
  exact ⟨hopening.headed, hopening.headed.thin hopening.thins, hopening.resident⟩

/-- The kinds of a transcript's facts, `true` for an opening, by
generation. -/
def openings (session : ManagedSession) : List (Nat × Bool) :=
  (session.history.filterMap Notification.agent?).map fun event => (event.generation, event.opens)

/-- The run across a restart and a crash is orderly. -/
theorem opens_first_restartedRun :
    ((machine.run sample restartedRun).bind fun s => s.manager.session.map openings) =
        some [(0, true), (0, false), (0, false), (0, false), (1, true), (2, true)] ∧
      ∀ s ∈ machine.run sample restartedRun, ∀ session ∈ s.manager.session,
        session.OpensFirst := by
  refine ⟨by decide, fun s hrun session hsession => ?_⟩
  exact opens_first (.of_run (.start ⟨_, _, _, _, rfl⟩) (by decide) hrun) session hsession

/-- A prompt is sent before the channel is up. -/
def hastyRun : List ServerAct :=
  [.create "/w" "label" .claude none .good, .client (.prompt "hi" []) .good,
    .spawned 0 sampleHandle .good]

/-- The unarchived channel goes down, and the unarchive is repeated. -/
def repeatedRun : List ServerAct :=
  attachedRun ++
    [.client (.setArchived true) .good, .client (.setArchived false) .good,
      .spawned 0 sampleHandle .good, .pump 0 .agentDisconnected .good,
      .client (.setArchived false) .good, .spawned 0 sampleHandle .good]

/-- A log of openings that is not headed. -/
theorem not_opensFirst {run : Option Server} {marks : List (Nat × Bool)}
    (hmarks : (run.bind fun s => s.manager.session.map openings) = some marks)
    (hmisplaced : ¬ Headed Prod.fst Prod.snd marks) :
    ∃ s session, run = some s ∧ s.manager.session = some session ∧ ¬ session.OpensFirst := by
  obtain ⟨s, hrun, hsome⟩ := Option.bind_eq_some_iff.1 hmarks
  obtain ⟨session, hsession, rfl⟩ := Option.map_eq_some_iff.1 hsome
  exact ⟨s, session, hrun, hsession, fun h => hmisplaced h.transcript.marks⟩

/-- In the first run generation 0 begins with the prompt and is opened
behind it, and in the second generation 1 is opened twice. -/
theorem prompt_before_opening :
    (∃ s session, machine.run sample hastyRun = some s ∧ s.manager.session = some session ∧
        ¬ session.OpensFirst) ∧
      ∃ s session, machine.run sample repeatedRun = some s ∧ s.manager.session = some session ∧
        ¬ session.OpensFirst := by
  have hhasty : ((machine.run sample hastyRun).bind fun s => s.manager.session.map openings) =
      some [(0, false), (0, true)] := by decide
  have hrepeated : ((machine.run sample repeatedRun).bind fun s =>
      s.manager.session.map openings) = some [(0, true), (1, true), (1, true)] := by decide
  refine ⟨not_opensFirst hhasty fun h => ?_, not_opensFirst hrepeated fun h => ?_⟩
  · have hzero := h 0
    simp [within] at hzero
  · have hone := h 1
    simp [within] at hone

end Server

end Yaldabaoth
