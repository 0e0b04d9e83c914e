import Yaldabaoth.Proofs.Session.View

/-!
# `Yaldabaoth.Proofs.Session.Transcript`: what a happening adds

`Adds` is the abstract account of a happening: what it appends to the
transcript, together with the generation, the envelope counter and the
turn count the session has after it. There are four ways: nothing of
the agent's, one agent fact, the two records of a settled turn, or a
new generation without a word of the agent.

`Step.tells` proves that every happening is one of them, that what it
appends reaches the file as far as the file is open and no write is
lost, and that an archived session adds nothing. The last needs
`Threads`: every spawn thread and every pump is of a generation that
the session has issued, and of an earlier one while it is archived.
-/

set_option autoImplicit false

namespace Yaldabaoth

open Ledger (Writes Passive Speaks Settles Lossless Lands)

/-- Whether a fact opens a channel. -/
def AgentEvent.opens (event : AgentEvent) : Bool :=
  match event.kind with
  | .channelOpened _ => true
  | _ => false

theorem AgentEventKind.Ordinary.not_marker {kind : AgentEventKind} (h : kind.Ordinary)
    (L : Ledger) (turn : Nat) : (Notification.agent (L.event turn kind)).isMarker = false := by
  cases kind with
  | compactedSummary throughTurn summary => exact absurd rfl (h.compacts throughTurn summary)
  | _ => rfl

theorem AgentEventKind.Ordinary.not_opens {kind : AgentEventKind} (h : kind.Ordinary)
    (L : Ledger) (turn : Nat) : (L.event turn kind).opens = false := by
  cases kind with
  | channelOpened resumed => exact absurd rfl (h.opens resumed)
  | _ => rfl

theorem AgentEventKind.Ordinary.not_settles {kind : AgentEventKind} (h : kind.Ordinary)
    (L : Ledger) (turn : Nat) : (L.event turn kind).settledTurn? = none := by
  cases kind with
  | turnEnded outcome =>
      rw [h.settles outcome rfl]
      rfl
  | _ => rfl

namespace Ledger

/-- The agent facts of the transcript. -/
def agents (L : Ledger) : List AgentEvent := L.history.filterMap Notification.agent?

/-- The agent facts of the file. -/
def durableAgents (L : Ledger) : List AgentEvent := L.notes.filterMap Notification.agent?

/-! ### Appending -/

/-- `ns` are appended to the transcript, and to the file as they land
there; the rest of the ledger may change. -/
structure Carries (L : Ledger) (ns : List Notification) (L' : Ledger) : Prop where
  history : L'.history = L.history ++ ns
  lossless : Lossless L.walIo → Lossless L'.walIo
  notes : ∃ landed, L'.notes = L.notes ++ landed ∧ Lands L'.walOpen L.walIo ns landed
  resident : (∀ n ∈ ns, n.isMarker = false) → L.resident <:+ L.history →
    L'.resident <:+ L'.history

theorem Writes.carries {L L' : Ledger} {ns : List Notification} (h : Writes L ns L') :
    Carries L ns L' := by
  obtain ⟨walIo, disk, history, eventLog, rfl⟩ := h.shape
  exact ⟨h.history, h.lossless, h.notes, h.resident⟩

theorem Carries.trans {L L' L'' : Ledger} {ns ns' : List Notification} (h : Carries L ns L')
    (h' : Carries L' ns' L'') (hopen : L''.walOpen = L'.walOpen ∨ ns = []) :
    Carries L (ns ++ ns') L'' := by
  obtain ⟨landed, hnotes, hlands⟩ := h.notes
  obtain ⟨landed', hnotes', hlands'⟩ := h'.notes
  refine ⟨?_, fun hlossless => h'.lossless (h.lossless hlossless), ?_, fun hns hresident => ?_⟩
  · rw [h'.history, h.history, List.append_assoc]
  · -- with nothing to append first, nothing of it landed first
    have hfirst : Lands L''.walOpen L.walIo ns landed := by
      rcases hopen with hsame | rfl
      · rw [hsame]
        exact hlands
      · rw [List.sublist_nil.1 hlands.sublist]
        exact .nil _ _
    refine ⟨landed ++ landed', ?_, hfirst.sublist.append hlands'.sublist, ?_, ?_⟩
    · rw [hnotes', hnotes, List.append_assoc]
    · intro hclosed
      rw [hfirst.closed hclosed, hlands'.closed hclosed]
      rfl
    · intro hopen' hlossless
      rw [hfirst.whole hopen' hlossless, hlands'.whole hopen' (h.lossless hlossless)]
  · refine h'.resident (fun n hn => hns n (List.mem_append_right ns hn)) ?_
    exact h.resident (fun n hn => hns n (List.mem_append_left ns' hn)) hresident

/-- A change that leaves transcript, file and memory alone. -/
theorem Carries.same {L L' : Ledger} (hhistory : L'.history = L.history)
    (hwalIo : L'.walIo = L.walIo) (hdisk : L'.disk = L.disk) (hlog : L'.eventLog = L.eventLog) :
    Carries L [] L' where
  history := by rw [hhistory, List.append_nil]
  lossless h := hwalIo ▸ h
  notes := ⟨[], by rw [Ledger.notes, hdisk, List.append_nil, Ledger.notes], .nil _ _⟩
  resident _ h := by rwa [hhistory, Ledger.resident, hlog]

theorem Passive.carries {L L' : Ledger} (h : Passive L L') :
    ∃ ns, (∀ n ∈ ns, n.Plain) ∧ (L.archived = true → ns = []) ∧ Carries L ns L' := by
  obtain ⟨⟨ns, hplain, hquiet, hwrites⟩, -⟩ := h
  have hcarries := hwrites.carries
  exact ⟨ns, hplain, hquiet, hcarries.history, hcarries.lossless, hcarries.notes,
    hcarries.resident⟩

theorem Speaks.carries {L L' : Ledger} {kind : AgentEventKind} (h : Speaks L kind L') :
    Carries L [.agent (L.event L.turns kind)] L' := by
  have hcarries := Writes.carries h
  exact ⟨hcarries.history, hcarries.lossless, hcarries.notes, hcarries.resident⟩

theorem Settles.carries {L L' : Ledger} {turns : Nat} {outcome : TurnOutcome}
    (h : Settles L turns outcome L') :
    Carries L [.agent (L.event (turns - 1) (turnEndedKind outcome)),
      .turnEnded L.id turns L.generation] L' := by
  have hcarries := Writes.carries h
  exact ⟨hcarries.history, hcarries.lossless, hcarries.notes, hcarries.resident⟩

/-! ### The four ways to add -/

/-- The session goes on in its generation. -/
structure Continues (L : Ledger) (facts turns : Nat) (L' : Ledger) : Prop where
  id : L'.id = L.id
  generation : L'.generation = L.generation
  agentSeq : L'.agentSeq = L.agentSeq + facts
  turns : L'.turns = turns

inductive Adds (L : Ledger) : List Notification → Ledger → Prop
  /-- Nothing of the agent's. -/
  | plain {ns : List Notification} {L' : Ledger} (plain : ∀ n ∈ ns, n.Plain)
      (counters : L.Continues 0 L.turns L') : Adds L ns L'
  /-- One agent fact that ends no live turn. -/
  | fact {before after : List Notification} {kind : AgentEventKind} {L' : Ledger}
      (before_plain : ∀ n ∈ before, n.Plain) (after_plain : ∀ n ∈ after, n.Plain)
      (unsettled : (L.event L.turns kind).settledTurn? = none)
      (counters : L.Continues 1 L.turns L') :
      Adds L (before ++ .agent (L.event L.turns kind) :: after) L'
  /-- The two records of a settled turn. -/
  | turn {turns : Nat} {outcome : TurnOutcome} {L' : Ledger} (live : outcome ≠ .replayEnd)
      (counters : L.Continues 1 turns L') :
      Adds L [.agent (L.event (turns - 1) (turnEndedKind outcome)),
        .turnEnded L.id turns L.generation] L'
  /-- A new generation without a word of the agent. -/
  | generation {ns : List Notification} {L' : Ledger} (plain : ∀ n ∈ ns, n.Plain)
      (id : L'.id = L.id) (generation : L'.generation = L.generation + 1)
      (agentSeq : L'.agentSeq = 0) (turns : L'.turns = L.turns) : Adds L ns L'

theorem agents_of_plain {ns : List Notification} (h : ∀ n ∈ ns, n.Plain) :
    ns.filterMap Notification.agent? = [] :=
  List.filterMap_eq_nil_iff.2 fun n hn => (h n hn).1

/-- One fact between plain notifications is all there is. -/
theorem agents_of_fact {before after : List Notification} {event : AgentEvent}
    (hbefore : ∀ n ∈ before, n.Plain) (hafter : ∀ n ∈ after, n.Plain) :
    (before ++ .agent event :: after).filterMap Notification.agent? = [event] := by
  have hcons : (Notification.agent event :: after).filterMap Notification.agent? =
      event :: after.filterMap Notification.agent? := rfl
  rw [List.filterMap_append, agents_of_plain hbefore, hcons, agents_of_plain hafter]
  rfl

theorem turnCounts_of_plain {ns : List Notification} (h : ∀ n ∈ ns, n.Plain) :
    ns.filterMap Notification.turnCount? = [] :=
  List.filterMap_eq_nil_iff.2 fun n hn => (h n hn).2

theorem turnCounts_of_fact {before after : List Notification} {event : AgentEvent}
    (hbefore : ∀ n ∈ before, n.Plain) (hafter : ∀ n ∈ after, n.Plain) :
    (before ++ .agent event :: after).filterMap Notification.turnCount? = [] := by
  rw [List.filterMap_append, turnCounts_of_plain hbefore, List.nil_append]
  show after.filterMap Notification.turnCount? = []
  exact turnCounts_of_plain hafter

theorem Passive.continues {L L' : Ledger} (h : Passive L L') : L.Continues 0 L.turns L' :=
  ⟨h.frame.1, h.frame.2.1, h.frame.2.2.1, h.frame.2.2.2.1⟩

theorem Speaks.continues {L L' : Ledger} {kind : AgentEventKind} (h : Speaks L kind L') :
    L.Continues 1 L.turns L' :=
  ⟨h.frame.1, h.frame.2.1, h.frame.2.2.1, h.frame.2.2.2.1⟩

theorem Settles.continues {L L' : Ledger} {turns : Nat} {outcome : TurnOutcome}
    (h : Settles L turns outcome L') : L.Continues 1 turns L' :=
  ⟨h.frame.1, h.frame.2.1, h.frame.2.2.1, h.frame.2.2.2.1⟩

theorem Continues.trans {L L' L'' : Ledger} {facts facts' turns turns' : Nat}
    (h : L.Continues facts turns L') (h' : L'.Continues facts' turns' L'') :
    L.Continues (facts + facts') turns' L'' :=
  ⟨h'.id.trans h.id, h'.generation.trans h.generation,
    by rw [h'.agentSeq, h.agentSeq, Nat.add_assoc], h'.turns⟩

/-- What continues a session without a fact leaves the envelope of the
next one. -/
theorem Continues.event {L L' : Ledger} {turns : Nat} (h : L.Continues 0 turns L') (turn : Nat)
    (kind : AgentEventKind) : L'.event turn kind = L.event turn kind := by
  simp only [Ledger.event, h.id, h.generation, h.agentSeq, Nat.add_zero]

/-- The log file is kept: open, or closed by an archive that a later
unarchive takes back. -/
def OnFile (L : Ledger) : Prop := L.walOpen = true ∨ L.archived = true

theorem Passive.onFile {L L' : Ledger} (h : Passive L L') : L.OnFile ↔ L'.OnFile := by
  rw [OnFile, OnFile, h.frame.2.2.2.2.1, h.frame.2.2.2.2.2.1]

/-- A generation the session has issued: not a later one than its own,
and an earlier one while it is archived. -/
def Issued (L : Ledger) (generation : Nat) : Prop :=
  generation ≤ L.generation ∧ (L.archived = true → generation < L.generation)

theorem Issued.of_eq {L L' : Ledger} {generation : Nat} (h : L.Issued generation)
    (hgeneration : L'.generation = L.generation)
    (harchived : L'.archived = true → L.archived = true) : L'.Issued generation := by
  rw [Issued, hgeneration]
  exact ⟨h.1, fun hshelved => h.2 (harchived hshelved)⟩

/-- In the next generation all that was issued is old. -/
theorem Issued.next {L L' : Ledger} {generation : Nat} (h : L.Issued generation)
    (hgeneration : L'.generation = L.generation + 1) : L'.Issued generation := by
  rw [Issued, hgeneration]
  have hle := h.1
  constructor
  · omega
  · intro _
    omega

end Ledger

/-- Whether a happening adds an agent fact. -/
def Happening.speaks : Happening → Bool
  | .prompted | .heard | .settled | .opened => true
  | _ => false

namespace View

/-! ### Threads -/

/-- Spawn threads and pumps are of issued generations. -/
structure Threads (v : View) : Prop where
  jobs : ∀ job ∈ v.jobs, v.ledger.Issued job.expectedGeneration
  pumps : ∀ pump ∈ v.pumps, v.ledger.Issued pump.generation

/-- A pump of the current generation pumps for an open session. -/
theorem Threads.open_of_current {v : View} {pump : PumpStamp} (h : v.Threads)
    (hpump : pump ∈ v.pumps) (hcurrent : pump.generation = v.ledger.generation) :
    v.ledger.archived = false := by
  refine Bool.eq_false_iff.2 fun harchived => ?_
  have hlt := (h.pumps pump hpump).2 harchived
  omega

theorem issued_append {L : Ledger} {jobs : List SpawnJob} {job : Option SpawnJob}
    (hjobs : ∀ j ∈ jobs, L.Issued j.expectedGeneration)
    (hjob : ∀ j ∈ job, j.For L.generation) (hopen : L.archived = false) :
    ∀ j ∈ jobs ++ job.toList, L.Issued j.expectedGeneration := by
  intro j hj
  rcases List.mem_append.1 hj with hj | hj
  · exact hjobs j hj
  · rw [(hjob j (Option.mem_toList.1 hj)).1]
    refine ⟨Nat.le_refl _, fun harchived => ?_⟩
    rw [hopen] at harchived
    cases harchived

theorem issued_fewer {L L' : Ledger} {pumps pumps' : List PumpStamp}
    (hpumps : ∀ p ∈ pumps, L'.Issued p.generation)
    (hfewer : PumpStamp.Fewer L.generation pumps pumps') :
    ∀ p ∈ pumps', L'.Issued p.generation := by
  intro p hp
  obtain ⟨q, hq, hgeneration⟩ := hfewer.old p hp
  rw [← hgeneration]
  exact hpumps q hq

/-- Every happening keeps the threads among the issued generations. -/
theorem Step.threads {v v' : View} {h : Happening} (hstep : v.Step h v') (hthreads : v.Threads) :
    v'.Threads := by
  obtain ⟨hjobs, hpumps⟩ := hthreads
  cases hstep with
  | @quiet L L' jobs _ pumps _ ledger jobs_le pumps_le =>
      have hissued (g : Nat) (hg : L.Issued g) : L'.Issued g :=
        hg.of_eq ledger.frame.2.1 fun harchived => ledger.frame.2.2.2.2.1 ▸ harchived
      refine ⟨fun job hjob => hissued _ (hjobs job (jobs_le.subset hjob)), ?_⟩
      exact issued_fewer (fun p hp => hissued _ (hpumps p hp)) pumps_le
  | @prompted L M L' _ _ _ _ _ _ before speaks =>
      have hgeneration : L'.generation = L.generation :=
        speaks.frame.2.1.trans before.frame.2.1
      have harchived : L'.archived = L.archived :=
        speaks.frame.2.2.2.2.1.trans before.frame.2.2.2.2.1
      have hissued (g : Nat) (hg : L.Issued g) : L'.Issued g :=
        hg.of_eq hgeneration fun hshelved => harchived ▸ hshelved
      exact ⟨fun job hjob => hissued _ (hjobs job hjob), fun p hp => hissued _ (hpumps p hp)⟩
  | @heard L M L' _ pumps _ _ _ speaks _ writes pumps_le =>
      have hspoken : M.generation = L.generation ∧ M.archived = L.archived := by
        rcases speaks with rfl | ⟨kind, -, hspeaks⟩
        · exact ⟨rfl, rfl⟩
        · exact ⟨hspeaks.frame.2.1, hspeaks.frame.2.2.2.2.1⟩
      obtain ⟨walIo, disk, history, eventLog, rfl⟩ := writes.shape
      have hissued (g : Nat) (hg : L.Issued g) :
          Ledger.Issued { M with walIo, disk, history, eventLog } g :=
        hg.of_eq hspoken.1 fun harchived => hspoken.2.symm.trans harchived
      exact ⟨fun job hjob => hissued _ (hjobs job hjob),
        issued_fewer (fun p hp => hissued _ (hpumps p hp)) pumps_le⟩
  | @settled L L' _ _ rest p _ _ from_ _ _ _ settles =>
      have hissued (g : Nat) (hg : L.Issued g) : L'.Issued g :=
        hg.of_eq settles.frame.2.1 fun harchived => settles.frame.2.2.2.2.1 ▸ harchived
      refine ⟨fun job hjob => hissued _ (hjobs job hjob), fun q hq => ?_⟩
      rcases List.mem_cons.1 hq with rfl | hq
      · exact hissued _ (hpumps p (from_.mem_iff.2 List.mem_cons_self))
      · exact hissued _ (hpumps q (from_.mem_iff.2 (List.mem_cons_of_mem p hq)))
  | @opened L M N L' _ _ _ job from_ _ open_ flushes speaks attaches =>
      have hflush := (Passive.of_writes_nil flushes).frame
      have hgeneration : L'.generation = L.generation :=
        attaches.frame.2.1.trans (speaks.frame.2.1.trans hflush.2.1)
      have hopen : L'.archived = false :=
        attaches.frame.2.2.2.2.1.trans
          (speaks.frame.2.2.2.2.1.trans (hflush.2.2.2.2.1.trans open_))
      have hissued (g : Nat) (hg : L.Issued g) : L'.Issued g :=
        hg.of_eq hgeneration fun harchived => by rw [hopen] at harchived; cases harchived
      refine ⟨fun j hj => hissued _ (hjobs j (from_.mem_iff.2 (List.mem_cons_of_mem job hj))),
        fun p hp => ?_⟩
      rcases List.mem_cons.1 hp with rfl | hp
      · refine hissued _ ⟨Nat.le_refl _, fun harchived => ?_⟩
        rw [open_] at harchived
        cases harchived
      · exact hissued _ (hpumps p hp)
  | @restarted L L' jobs _ job open_ ledger spawns =>
      have hgeneration : L'.generation = L.generation + 1 := ledger.frame.2.1
      have hopen : L'.archived = false := ledger.frame.2.2.2.2.1.trans open_
      refine ⟨issued_append (fun j hj => (hjobs j hj).next hgeneration) ?_ hopen,
        fun p hp => (hpumps p hp).next hgeneration⟩
      rw [hgeneration]
      exact spawns
  | shelved open_ _ writes _ =>
      have hgeneration := congrArg (· + 1) (Passive.of_writes_nil writes).frame.2.1
      exact ⟨fun j hj => (hjobs j hj).next hgeneration,
        fun p hp => (hpumps p hp).next hgeneration⟩
  | @reopened L M L' jobs _ job shelf _ writes ledger spawns =>
      have hgeneration : L'.generation = L.generation :=
        ledger.frame.2.1.trans (Passive.of_writes_nil writes).frame.2.1
      have hopen : L'.archived = false := ledger.frame.2.2.2.2.1
      have hissued (g : Nat) (hg : L.Issued g) : L'.Issued g :=
        hg.of_eq hgeneration fun harchived => by rw [hopen] at harchived; cases harchived
      refine ⟨issued_append (fun j hj => hissued _ (hjobs j hj)) ?_ hopen,
        fun p hp => hissued _ (hpumps p hp)⟩
      rw [hgeneration]
      exact spawns
  | @retried L L' jobs _ job open_ _ ledger spawns =>
      have hgeneration : L'.generation = L.generation := ledger.frame.2.1
      have hopen : L'.archived = false := ledger.frame.2.2.2.2.1.trans open_
      have hissued (g : Nat) (hg : L.Issued g) : L'.Issued g :=
        hg.of_eq hgeneration fun harchived => by rw [hopen] at harchived; cases harchived
      refine ⟨issued_append (fun j hj => hissued _ (hjobs j hj)) ?_ hopen,
        fun p hp => hissued _ (hpumps p hp)⟩
      rw [hgeneration]
      exact spawns
  | walLost => exact ⟨fun j hj => (hjobs j hj).of_eq rfl id, fun p hp => (hpumps p hp).of_eq rfl id⟩

/-! ### What a happening tells -/

structure Tells (v : View) (h : Happening) (v' : View) (ns : List Notification) : Prop where
  adds : v.ledger.Adds ns v'.ledger
  carries : v.ledger.Carries ns v'.ledger
  /-- A fact opens a channel when one is published, and only then. -/
  spoken : ∀ event ∈ ns.filterMap Notification.agent?,
    h.speaks = true ∧ (event.opens = true ↔ h = .opened)
  /-- A turn count is later than what its pump has reported so far. -/
  later : ∀ turns ∈ ns.filterMap Notification.turnCount?,
    ∃ pump ∈ v.pumps, pump.generation = v.ledger.generation ∧ pump.reported < turns
  unmarked : ∀ n ∈ ns, n.isMarker = false
  /-- An archived session has nothing to say. -/
  shelf : v'.ledger.archived = true → ns = []
  path : v'.ledger.walPath = v.ledger.walPath
  /-- A file that is kept stays kept, unless its handle is lost. -/
  file : h ≠ .walLost → v.ledger.OnFile → v'.ledger.OnFile
  /-- One that is not stays closed. -/
  closed : v'.ledger.OnFile → v.ledger.OnFile

theorem unmarked_of_plain {ns : List Notification} (h : ∀ n ∈ ns, n.Plain) :
    ∀ n ∈ ns, n.isMarker = false :=
  fun n hn => (h n hn).not_marker

/-- Plain notifications tell no fact. -/
theorem spoken_of_plain {ns : List Notification} (h : ∀ n ∈ ns, n.Plain) (happening : Happening) :
    ∀ event ∈ ns.filterMap Notification.agent?,
      happening.speaks = true ∧ (event.opens = true ↔ happening = .opened) := by
  rw [Ledger.agents_of_plain h]
  simp

theorem later_of_plain {v : View} {ns : List Notification} (h : ∀ n ∈ ns, n.Plain) :
    ∀ turns ∈ ns.filterMap Notification.turnCount?,
      ∃ pump ∈ v.pumps, pump.generation = v.ledger.generation ∧ pump.reported < turns := by
  rw [Ledger.turnCounts_of_plain h]
  simp

/-- A passive happening, seen from the ledger it starts with. -/
theorem tells_passive {v v' : View} {h : Happening} {L : Ledger}
    (hcontinues : v.ledger.Continues 0 v.ledger.turns L) (hcarries : v.ledger.Carries [] L)
    (hpassive : Passive L v'.ledger) (harchived : v'.ledger.archived = true → L.archived = true)
    (hpath : L.walPath = v.ledger.walPath)
    (hfile : v.ledger.OnFile ↔ v'.ledger.OnFile) : ∃ ns, v.Tells h v' ns := by
  obtain ⟨ns, hplain, hquiet, htold⟩ := hpassive.carries
  have hcounters := hcontinues.trans hpassive.continues
  rw [hcontinues.turns] at hcounters
  exact ⟨ns, .plain hplain hcounters, hcarries.trans htold (.inr rfl), spoken_of_plain hplain h,
    later_of_plain hplain, unmarked_of_plain hplain, fun hshelved => hquiet (harchived hshelved),
    hpassive.frame.2.2.2.2.2.2.trans hpath, fun _ => hfile.1, hfile.2⟩

theorem plain_nil : ∀ n ∈ ([] : List Notification), n.Plain := by simp

/-- A happening that tells one fact, between plain notifications. -/
theorem tells_fact {v v' : View} {h : Happening} {before after : List Notification}
    {kind : AgentEventKind} (hbefore : ∀ n ∈ before, n.Plain) (hafter : ∀ n ∈ after, n.Plain)
    (hkind : kind.Ordinary ∧ h ≠ .opened ∨ (∃ resumed, kind = .channelOpened resumed) ∧ h = .opened)
    (hspeaks : h.speaks = true) (hcounters : v.ledger.Continues 1 v.ledger.turns v'.ledger)
    (hcarries : v.ledger.Carries (before ++ .agent (v.ledger.event v.ledger.turns kind) :: after)
      v'.ledger)
    (hopen : v'.ledger.archived = false) (hpath : v'.ledger.walPath = v.ledger.walPath)
    (hfile : v.ledger.archived = false ∧ v'.ledger.walOpen = v.ledger.walOpen) :
    v.Tells h v' (before ++ .agent (v.ledger.event v.ledger.turns kind) :: after) := by
  have hunsettled : (v.ledger.event v.ledger.turns kind).settledTurn? = none := by
    rcases hkind with ⟨hordinary, -⟩ | ⟨⟨resumed, rfl⟩, -⟩
    · exact hordinary.not_settles _ _
    · rfl
  have hopens : (v.ledger.event v.ledger.turns kind).opens = true ↔ h = .opened := by
    rcases hkind with ⟨hordinary, hother⟩ | ⟨⟨resumed, rfl⟩, hopened⟩
    · rw [hordinary.not_opens]
      exact ⟨nofun, fun hopened => absurd hopened hother⟩
    · exact ⟨fun _ => hopened, fun _ => rfl⟩
  have hunmarked : (Notification.agent (v.ledger.event v.ledger.turns kind)).isMarker = false := by
    rcases hkind with ⟨hordinary, -⟩ | ⟨⟨resumed, rfl⟩, -⟩
    · exact hordinary.not_marker _ _
    · rfl
  have hsame : v.ledger.OnFile ↔ v'.ledger.OnFile := by
    rw [Ledger.OnFile, Ledger.OnFile, hfile.1, hfile.2, hopen]
  refine ⟨.fact hbefore hafter hunsettled hcounters, hcarries, ?_, ?_, ?_, fun harchived => ?_, hpath,
    fun _ => hsame.1, hsame.2⟩
  · intro event hevent
    rw [Ledger.agents_of_fact hbefore hafter] at hevent
    rw [List.mem_singleton.1 hevent]
    exact ⟨hspeaks, hopens⟩
  · rw [Ledger.turnCounts_of_fact hbefore hafter]
    simp
  · intro n hn
    rcases List.mem_append.1 hn with hn | hn
    · exact unmarked_of_plain hbefore n hn
    · rcases List.mem_cons.1 hn with rfl | hn
      · exact hunmarked
      · exact unmarked_of_plain hafter n hn
  · rw [hopen] at harchived
    cases harchived

theorem Step.tells {v v' : View} {h : Happening} (hstep : v.Step h v') (hthreads : v.Threads) :
    ∃ ns, v.Tells h v' ns := by
  cases hstep with
  | @quiet L L' _ _ _ _ ledger _ _ =>
      exact tells_passive ⟨rfl, rfl, rfl, rfl⟩ (Ledger.Writes.refl L).carries ledger
        (fun harchived => ledger.frame.2.2.2.2.1 ▸ harchived) rfl ledger.onFile
  | @prompted L M L' _ _ text open_ _ _ before speaks =>
      obtain ⟨ns, hplain, -, htold⟩ := before.carries
      have hcontinues : L.Continues 0 L.turns M := before.continues
      have hcounters := hcontinues.trans speaks.continues
      have hspeaks := speaks.carries
      rw [hcontinues.turns] at hcounters hspeaks
      rw [hcontinues.event] at hspeaks
      exact ⟨_, tells_fact hplain plain_nil (.inl ⟨ordinary_userMessage text, by decide⟩) rfl
        hcounters (htold.trans hspeaks (.inl speaks.frame.2.2.2.2.2.1))
        (speaks.frame.2.2.2.2.1.trans (before.frame.2.2.2.2.1.trans open_))
        (speaks.frame.2.2.2.2.2.2.1.trans before.frame.2.2.2.2.2.2)
        ⟨open_, speaks.frame.2.2.2.2.2.1.trans before.frame.2.2.2.2.2.1⟩⟩
  | @heard L M L' _ _ _ note current speaks plain writes _ =>
      obtain ⟨pump, hpump, hcurrent⟩ := current
      have hopen : L.archived = false := hthreads.open_of_current hpump hcurrent
      have hnote : ∀ n ∈ [note], n.Plain := by simpa using plain
      rcases speaks with rfl | ⟨kind, hordinary, hspeaks⟩
      · have hpassive : Passive M L' := .of_writes writes hnote fun harchived => by
          rw [hopen] at harchived
          cases harchived
        exact tells_passive ⟨rfl, rfl, rfl, rfl⟩ (Ledger.Writes.refl M).carries hpassive
          (fun harchived => hpassive.frame.2.2.2.2.1 ▸ harchived) rfl hpassive.onFile
      · obtain ⟨walIo, disk, history, eventLog, rfl⟩ := writes.shape
        have hframe := hspeaks.frame
        exact ⟨_, tells_fact plain_nil hnote (.inl ⟨hordinary, by decide⟩) rfl
          ⟨hframe.1, hframe.2.1, hframe.2.2.1, hframe.2.2.2.1⟩
          (hspeaks.carries.trans writes.carries (.inl rfl)) (hframe.2.2.2.2.1.trans hopen)
          hframe.2.2.2.2.2.2.1 ⟨hopen, hframe.2.2.2.2.2.1⟩⟩
  | @settled L L' _ _ rest p turns outcome from_ current later live settles =>
      have hopen : L.archived = false :=
        hthreads.open_of_current (from_.mem_iff.2 List.mem_cons_self) current
      have hopen' : L'.archived = false := settles.frame.2.2.2.2.1.trans hopen
      have hfile : L.OnFile ↔ L'.OnFile := by
        rw [Ledger.OnFile, Ledger.OnFile, settles.frame.2.2.2.2.1, settles.frame.2.2.2.2.2.1]
      refine ⟨_, .turn live settles.continues, settles.carries, ?_, ?_, ?_, fun harchived => ?_,
        settles.frame.2.2.2.2.2.2.1, fun _ => hfile.1, hfile.2⟩
      · intro event hevent
        rw [List.mem_singleton.1 hevent]
        exact ⟨rfl, by simp [AgentEvent.opens, Ledger.event, turnEndedKind]⟩
      · intro n hn
        rw [List.mem_singleton.1 hn]
        exact ⟨p, from_.mem_iff.2 List.mem_cons_self, current, later⟩
      · intro n hn
        rcases List.mem_pair.1 hn with rfl | rfl <;> rfl
      · rw [show L'.archived = true from harchived] at hopen'
        cases hopen'
  | @opened L M N L' _ _ _ job from_ _ open_ flushes speaks attaches =>
      have hflush : Passive L M := .of_writes_nil flushes
      have hcontinues : L.Continues 0 L.turns M.live :=
        ⟨hflush.frame.1, hflush.frame.2.1, hflush.frame.2.2.1, hflush.frame.2.2.2.1⟩
      obtain ⟨ns, hplain, -, htold⟩ := attaches.carries
      have hspeaks := speaks.carries
      have hlive : L.Carries [] M.live :=
        flushes.carries.trans (.same rfl rfl rfl rfl) (.inl rfl)
      have hcounters := (hcontinues.trans speaks.continues).trans attaches.continues
      rw [speaks.frame.2.2.2.1, hcontinues.turns] at hcounters
      rw [hcontinues.turns, hcontinues.event] at hspeaks
      have hwhole := (hlive.trans hspeaks (.inl speaks.frame.2.2.2.2.2.1)).trans htold
        (.inl attaches.frame.2.2.2.2.2.1)
      exact ⟨_, tells_fact plain_nil hplain (.inr ⟨⟨_, rfl⟩, rfl⟩) rfl hcounters
        hwhole
        (attaches.frame.2.2.2.2.1.trans
          (speaks.frame.2.2.2.2.1.trans (hflush.frame.2.2.2.2.1.trans open_)))
        (attaches.frame.2.2.2.2.2.2.trans
          (speaks.frame.2.2.2.2.2.2.1.trans hflush.frame.2.2.2.2.2.2))
        ⟨open_, attaches.frame.2.2.2.2.2.1.trans
          (speaks.frame.2.2.2.2.2.1.trans hflush.frame.2.2.2.2.2.1)⟩⟩
  | @restarted L L' _ _ job open_ ledger _ =>
      obtain ⟨ns, hplain, hquiet, htold⟩ := ledger.carries
      have hopen : L'.archived = false := ledger.frame.2.2.2.2.1.trans open_
      have hstart : L.Carries [] L.restarted := .same rfl rfl rfl rfl
      have hwhole : L.Carries ns L' := hstart.trans htold (.inl ledger.frame.2.2.2.2.2.1)
      refine ⟨ns, .generation hplain ledger.frame.1 ledger.frame.2.1 ledger.frame.2.2.1
        ledger.frame.2.2.2.1, hwhole, spoken_of_plain hplain _,
        later_of_plain hplain, unmarked_of_plain hplain,
        fun harchived => ?_, ledger.frame.2.2.2.2.2.2, fun _ => ledger.onFile.1, ledger.onFile.2⟩
      rw [show L'.archived = true from harchived] at hopen
      cases hopen
  | @shelved L M _ _ eventLog open_ file writes log =>
      have hpassive : Passive L M := .of_writes_nil writes
      have hcarries := writes.carries
      -- what stays in memory, if anything, is what was there
      have hresident (h : M.resident <:+ M.history) :
          (M.shelved eventLog).resident <:+ M.history := by
        rcases log with rfl | hempty
        · exact h
        · rw [show (M.shelved eventLog).resident = eventLog.entries.filter (!·.isMarker) from rfl,
            hempty]
          exact List.nil_suffix
      refine ⟨[], .generation plain_nil hpassive.frame.1 (congrArg (· + 1) hpassive.frame.2.1) rfl
        hpassive.frame.2.2.2.1, ⟨hcarries.history, hcarries.lossless, ?_, fun hns h => ?_⟩,
        spoken_of_plain plain_nil _, later_of_plain plain_nil, unmarked_of_plain plain_nil, fun _ => rfl,
        hpassive.frame.2.2.2.2.2.2, fun _ _ => .inr rfl, fun _ => .inl file⟩
      · obtain ⟨landed, hnotes, hlands⟩ := hcarries.notes
        rw [List.sublist_nil.1 hlands.sublist] at hnotes
        exact ⟨[], hnotes, .nil _ _⟩
      · exact hresident (hcarries.resident hns h)
  | @reopened L M L' _ _ job shelf _ writes ledger _ =>
      have hpassive : Passive L M := .of_writes_nil writes
      have hopen : L'.archived = false := ledger.frame.2.2.2.2.1
      have hcarries : L.Carries [] M.reopened :=
        writes.carries.trans (.same rfl rfl rfl rfl) (.inr rfl)
      refine tells_passive (L := M.reopened) ⟨hpassive.frame.1, hpassive.frame.2.1, hpassive.frame.2.2.1,
        hpassive.frame.2.2.2.1⟩ hcarries ledger (fun harchived => ?_)
        hpassive.frame.2.2.2.2.2.2
        ⟨fun _ => .inl ledger.frame.2.2.2.2.2.1, fun _ => .inr shelf⟩
      rw [show L'.archived = true from harchived] at hopen
      cases hopen
  | @retried L L' _ _ job open_ _ ledger _ =>
      exact tells_passive (L := L.retried) ⟨rfl, rfl, rfl, rfl⟩ (.same rfl rfl rfl rfl) ledger
        (fun harchived => ledger.frame.2.2.2.2.1 ▸ harchived) rfl ledger.onFile
  | @walLost L _ _ =>
      exact ⟨[], .plain plain_nil ⟨rfl, rfl, rfl, rfl⟩, .same rfl rfl rfl rfl,
        spoken_of_plain plain_nil _, later_of_plain plain_nil, unmarked_of_plain plain_nil, fun _ => rfl, rfl,
        fun h => absurd rfl h, fun h => .inr (h.resolve_left Bool.false_ne_true)⟩

theorem Created.threads {v : View} {walIo : List WalWrite} (h : v.Created walIo) : v.Threads := by
  obtain ⟨⟨L, hgeneration, -, -, -, hopen, -, -, -, -, -, hpassive⟩, ⟨job, hjobs, hfor⟩, hpumps⟩ := h
  refine ⟨fun j hj => ?_, fun p hp => ?_⟩
  · rw [hjobs] at hj
    rw [(hfor j (Option.mem_toList.1 hj)).1]
    refine ⟨Nat.zero_le _, fun harchived => ?_⟩
    rw [hpassive.frame.2.2.2.2.1, hopen] at harchived
    cases harchived
  · rw [hpumps] at hp
    cases hp

theorem Recovered.threads {v v' : View} (h : v.Recovered v') : v'.Threads := by
  obtain ⟨-, ⟨job, hjobs, hfor, hshelved⟩, hpumps⟩ := h
  refine ⟨fun j hj => ?_, fun p hp => ?_⟩
  · rw [hjobs] at hj
    have hmem : j ∈ job := Option.mem_toList.1 hj
    rw [(hfor j hmem).1]
    refine ⟨Nat.le_refl _, fun harchived => ?_⟩
    rw [hshelved harchived] at hmem
    cases hmem
  · rw [hpumps] at hp
    cases hp

end View

end Yaldabaoth
