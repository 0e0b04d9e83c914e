import Yaldabaoth.Model.DirectTile
import Yaldabaoth.Proofs.Client.Reducers
import Mathlib.Data.List.Count

/-!
# `Yaldabaoth.Proofs.Client.DirectTurns`: turn ends seen on the counter

The counter of a channel starts at 0 and counts live turns. `last_seen`
starts at 0 too, but the end of a replay moves it on by the user turns
that were replayed. The two run apart from there: a live turn is noticed
only once the live turns outnumber the replayed ones.

`Tracks` is the invariant. It ties `last_seen` to the last counter that
a call noticed and to the fold of the replay, and bounds the ledger by
`last_seen`, so that the key of a turn that is noticed is always new.
-/

set_option autoImplicit false

namespace Yaldabaoth

/-! ### The worker -/

namespace DirectChannel

variable {c c' : DirectChannel}

/-- The `ReplayComplete` that is still to be read. -/
def marks (c : DirectChannel) : Nat :=
  c.link.replies.count .replayComplete + if c.replaying then 1 else 0

/-- The worker counts up, and it sends the marker that it owes. -/
theorem work_spec {act : WorkerAct} (h : c.work act = some c') :
    c.link.turns ≤ c'.link.turns ∧ c'.marks = c.marks ∧ c'.link.connected = c.link.connected := by
  cases act with
  | emit event =>
      simp only [work] at h
      split at h
      case isTrue hallowed =>
        cases h
        refine ⟨Nat.le_refl _, ?_, rfl⟩
        simp only [marks, List.count_append, List.count_singleton]
        by_cases hmarker : event = .replayComplete
        · subst hmarker
          have hreplaying : c.replaying = true := by simpa using hallowed
          simp [hreplaying]
        · simp [hmarker]
      case isFalse => cases h
  | countTurn =>
      simp only [work] at h
      split at h
      case isTrue => cases h
      case isFalse =>
        cases h
        exact ⟨Nat.le_succ _, rfl, rfl⟩

theorem works_spec {acts : List WorkerAct} (h : c.works acts = some c') :
    c.link.turns ≤ c'.link.turns ∧ c'.marks = c.marks := by
  induction acts generalizing c with
  | nil =>
      cases h
      exact ⟨Nat.le_refl _, rfl⟩
  | cons act acts ih =>
      simp only [works, List.foldlM_cons] at h
      obtain ⟨mid, hmid, hrest⟩ := Option.bind_eq_some_iff.1 h
      obtain ⟨hturns, hmarks, -⟩ := work_spec hmid
      obtain ⟨hturns', hmarks'⟩ := ih hrest
      exact ⟨Nat.le_trans hturns hturns', hmarks'.trans hmarks⟩

end DirectChannel

namespace DirectTile

variable {T : Type} {s s' : DirectTile T}

/-! ### What is read -/

/-- What a pump call reads. -/
theorem readChannel_spec {claude : AgentState T} {c c' : DirectChannel} {budget : Nat}
    {meanwhile : List WorkerAct} {read : PumpRead}
    (h : readChannel claude c budget meanwhile = some (read, c')) :
    c.link.turns ≤ read.currentTurns ∧ c'.link.turns = read.currentTurns ∧
      c.marks = (read.events ++ read.tail).count .replayComplete + c'.marks ∧
      (read.turnEnded claude = false → read.tail = []) := by
  -- The first drain splits the queue.
  have hsplit : c.link.replies =
      (drainUpTo budget c.link.replies).1 ++ (drainUpTo budget c.link.replies).2.1 := by
    rw [drainUpTo]
    split
    · exact (List.take_append_drop _ _).symm
    · exact (List.append_nil _).symm
  generalize hdrained : drainUpTo budget c.link.replies = drained at hsplit
  obtain ⟨events, replies, morePending⟩ := drained
  simp only [readChannel, hdrained] at h
  split at h
  case h_1 => cases h
  case h_2 mid hmid =>
    obtain ⟨hturns, hmarks⟩ := DirectChannel.works_spec hmid
    have hcount : c.marks = events.count .replayComplete + mid.marks := by
      rw [hmarks, DirectChannel.marks, hsplit, List.count_append, Nat.add_assoc]
      rfl
    split at h
    case isTrue hended =>
      cases h
      refine ⟨hturns, rfl, ?_, fun hno => ?_⟩
      · rw [hcount, DirectChannel.marks, List.count_append]
        simp only [DirectChannel.marks, List.count_nil]
        omega
      · simp only [PumpRead.turnEnded] at hno
        rw [hended] at hno
        cases hno
    case isFalse =>
      cases h
      refine ⟨hturns, rfl, ?_, fun _ => rfl⟩
      rw [hcount, List.append_nil]

/-! ### The invariant -/

/-- `last_seen` is the last counter that was noticed or the fold of the
replay, and the ledger is behind it. -/
structure Tracks (s : DirectTile T) : Prop where
  lastSeen : s.claude.replayTurns.lastSeen = max s.noticed s.folded
  ledger : ∀ k, (s.claude.generation, k) ∈ s.claude.finalized →
    k ≤ s.claude.replayTurns.lastSeen
  noticed : ∀ c ∈ s.channel, s.noticed ≤ c.link.turns
  marks : ∀ c ∈ s.channel, c.marks ≤ 1 ∧ (c.marks = 1 → s.folded = 0)

/-- The tile is as before, up to what the ledger does not see. -/
theorem Tracks.of_quiet (h : Tracks s) (hclaude : s.claude.Quiet s'.claude)
    (hnoticed : s'.noticed = s.noticed) (hfolded : s'.folded = s.folded)
    (hchannel : ∀ c' ∈ s'.channel, ∃ c ∈ s.channel,
      c.link.turns ≤ c'.link.turns ∧ c'.marks = c.marks) : Tracks s' where
  lastSeen := by rw [hclaude.lastSeen, hnoticed, hfolded, h.lastSeen]
  ledger k hk := by
    rw [hclaude.generation, hclaude.finalized] at hk
    rw [hclaude.lastSeen]
    exact h.ledger k hk
  noticed c' hc' := by
    obtain ⟨c, hc, hturns, -⟩ := hchannel c' hc'
    rw [hnoticed]
    exact Nat.le_trans (h.noticed c hc) hturns
  marks c' hc' := by
    obtain ⟨c, hc, -, hmarks⟩ := hchannel c' hc'
    rw [hmarks, hfolded]
    exact h.marks c hc

/-- A call that finds something infers a turn end, unless the replay took
`last_seen` past the counter. -/
theorem Tracks.turnEnded_iff (h : Tracks s) {read : PumpRead} (hfinds : s.finds read = true) :
    read.turnEnded s.claude = true ↔ s.folded < read.currentTurns := by
  simp only [finds, Bool.and_eq_true, Bool.not_eq_true', decide_eq_true_eq] at hfinds
  obtain ⟨hdrained, hraised⟩ := hfinds
  simp only [PumpRead.turnEnded, Bool.and_eq_true, Bool.not_eq_true', decide_eq_true_eq, hdrained,
    true_and, h.lastSeen]
  omega

/-- A call that finds nothing infers nothing. -/
theorem Tracks.turnEnded_of_not_finds (h : Tracks s) {read : PumpRead}
    (hfinds : s.finds read = false) : read.turnEnded s.claude = false := by
  have hbehind : ¬ (read.morePending = false ∧ s.noticed < read.currentTurns) := by
    simpa [finds] using hfinds
  have hlast := h.lastSeen
  refine Bool.eq_false_iff.2 fun hended => hbehind ?_
  simp only [PumpRead.turnEnded, Bool.and_eq_true, Bool.not_eq_true', decide_eq_true_eq] at hended
  exact ⟨hended.1, by omega⟩

section pump

variable [Screen T]

/-! ### One call -/

/-- A call that infers a turn end, where the ledger is behind. -/
theorem applyRead_ended {claude : AgentState T} {read : PumpRead}
    (hended : read.turnEnded claude = true)
    (hledger : ∀ k, (claude.generation, k) ∈ claude.finalized → k ≤ claude.replayTurns.lastSeen) :
    let after := applyRead claude read
    after.turnPhase = .idle ∧ after.settled = claude.settled ++ [read.currentTurns] ∧
      after.generation = claude.generation ∧
      after.finalized = (claude.generation, read.currentTurns) :: claude.finalized ∧
      after.replayTurns.lastSeen = read.currentTurns := by
  have hahead : claude.replayTurns.lastSeen < read.currentTurns := by
    simp only [PumpRead.turnEnded, Bool.and_eq_true, decide_eq_true_eq] at hended
    exact hended.2
  obtain ⟨-, hevents⟩ := claude.applyReplyEvents_spec read.events
  simp only [applyRead, hended, if_true, Bool.true_or]
  generalize claude.applyReplyEvents read.events = drained at hevents ⊢
  obtain ⟨mid, complete⟩ := drained
  obtain ⟨-, htail⟩ := mid.applyReplyEvents_spec read.tail
  generalize mid.applyReplyEvents read.tail = drained at htail ⊢
  obtain ⟨last, tailComplete⟩ := drained
  have hgeneration : last.generation = claude.generation :=
    htail.generation.trans hevents.generation
  have hfinalized : last.finalized = claude.finalized := htail.finalized.trans hevents.finalized
  have hnew : (last.generation, read.currentTurns) ∉ last.finalized := by
    rw [hgeneration, hfinalized]
    intro hmem
    have := hledger _ hmem
    omega
  dsimp only
  rw [AgentState.settleTurn_new]
  · refine ⟨rfl, ?_, hgeneration, ?_, rfl⟩
    · show last.settled ++ [read.currentTurns] = _
      rw [htail.settled, hevents.settled]
    · show (last.generation, read.currentTurns) :: last.finalized = _
      rw [hgeneration, hfinalized]
  · exact hnew

/-- A call that infers no turn end. -/
theorem applyRead_quiet {claude : AgentState T} {read : PumpRead}
    (hended : read.turnEnded claude = false) :
    let after := applyRead claude read
    after.settled = claude.settled ∧ after.generation = claude.generation ∧
      claude.replayTurns.lastSeen ≤ after.replayTurns.lastSeen ∧
      (.replayComplete ∉ read.events →
        after.replayTurns.lastSeen = claude.replayTurns.lastSeen) ∧
      ∀ key ∈ after.finalized, key ∈ claude.finalized ∨
        key = (claude.generation, after.replayTurns.lastSeen) := by
  obtain ⟨hcomplete, hevents⟩ := claude.applyReplyEvents_spec read.events
  simp only [applyRead, hended, Bool.false_or]
  generalize claude.applyReplyEvents read.events = drained at hcomplete hevents ⊢
  obtain ⟨last, complete⟩ := drained
  simp only [Bool.false_eq_true, if_false]
  have hkept : ∀ key ∈ last.finalized, key ∈ claude.finalized ∨
      key = (claude.generation, last.replayTurns.lastSeen) := by
    intro key hkey
    rw [hevents.finalized] at hkey
    exact .inl hkey
  split
  case isFalse =>
    exact ⟨hevents.settled, hevents.generation, hevents.le_lastSeen, hevents.lastSeen, hkept⟩
  case isTrue =>
    by_cases hold : (last.generation, last.replayTurns.lastSeen) ∈ last.finalized
    · rw [AgentState.settleTurn_old hold]
      exact ⟨hevents.settled, hevents.generation, hevents.le_lastSeen, hevents.lastSeen, hkept⟩
    · rw [AgentState.settleTurn_new hold]
      refine ⟨hevents.settled, hevents.generation, hevents.le_lastSeen, hevents.lastSeen, ?_⟩
      intro key hkey
      rcases List.mem_cons.1 hkey with rfl | hkey
      · exact .inr (by rw [hevents.generation]; rfl)
      · exact hkept key hkey

/-- The outcome of a pump call on a live channel. -/
theorem pump_cases {budget : Nat} {meanwhile : List WorkerAct}
    (hs : s.pump budget meanwhile = some s') :
    (s'.noticed = s.noticed ∧ s'.folded = s.folded ∧ s.claude.Quiet s'.claude ∧
        (s'.channel = none ∨ s' = s)) ∨
      ∃ c ∈ s.channel, ∃ read c', readChannel s.claude c budget meanwhile = some (read, c') ∧
        s'.claude = applyRead s.claude read ∧ s'.channel = some c' ∧
        s'.noticed = (if s.finds read then read.currentTurns else s.noticed) ∧
        s'.folded = if .replayComplete ∈ read.events ++ read.tail ∧ s.finds read = false then
          (applyRead s.claude read).replayTurns.lastSeen else s.folded := by
  simp only [pump] at hs
  split at hs
  · cases hs
    exact .inl ⟨rfl, rfl, .refl _, .inr rfl⟩
  case h_2 c hchannel =>
    split at hs
    · cases hs
      exact .inl ⟨rfl, rfl, ⟨rfl, rfl, rfl, rfl, rfl, rfl, fun _ => rfl⟩, .inl rfl⟩
    · split at hs
      · cases hs
      case h_2 read c' hread =>
        cases hs
        exact .inr ⟨c, hchannel, read, c', hread, rfl, rfl, rfl, rfl⟩

/-! ### Runs -/

theorem tracks_attached (resumed : Bool) : Tracks (attached resumed : DirectTile T) where
  lastSeen := rfl
  ledger _ h := absurd h List.not_mem_nil
  noticed c hc := by
    cases hc
    exact Nat.zero_le _
  marks c hc := by
    cases hc
    cases resumed <;> exact ⟨by decide, fun _ => rfl⟩

/-- A pump call keeps the invariant. -/
theorem Tracks.pump (h : Tracks s) {budget : Nat} {meanwhile : List WorkerAct}
    (hs : s.pump budget meanwhile = some s') : Tracks s' := by
  obtain ⟨hnoticed, hfolded, hquiet, hchannel⟩ | ⟨c, hc, read, c', hread, hclaude, hc', hnoticed,
    hfolded⟩ := pump_cases hs
  · refine h.of_quiet hquiet hnoticed hfolded fun c' hc' => ?_
    rcases hchannel with hnone | rfl
    · rw [hnone] at hc'
      cases hc'
    · exact ⟨c', hc', Nat.le_refl _, rfl⟩
  · obtain ⟨hturns, hturns', hmarks, htail⟩ := readChannel_spec hread
    obtain ⟨honce, hunfolded⟩ := h.marks c hc
    have hbehind : s.noticed ≤ c.link.turns := h.noticed c hc
    -- A marker among the replies is the only one, and was not folded before.
    have hmarker : .replayComplete ∈ read.events ++ read.tail → s.folded = 0 ∧ c'.marks = 0 := by
      intro hmem
      have hpos := List.count_pos_iff.2 hmem
      exact ⟨hunfolded (by omega), by omega⟩
    have hrest : ∀ folded, (.replayComplete ∉ read.events ++ read.tail → folded = s.folded) →
        c'.marks ≤ 1 ∧ (c'.marks = 1 → folded = 0) := by
      intro folded hkept
      refine ⟨by omega, fun hone => ?_⟩
      by_cases hmem : .replayComplete ∈ read.events ++ read.tail
      · have := (hmarker hmem).2
        omega
      · rw [hkept hmem]
        exact hunfolded (by omega)
    have hkept : .replayComplete ∉ read.events ++ read.tail → s'.folded = s.folded := by
      intro hmem
      rw [hfolded, if_neg fun hand => hmem hand.1]
    by_cases hended : read.turnEnded s.claude = true
    · -- A turn end was inferred, so something was found.
      have hfinds : s.finds read = true := by
        rw [← Bool.not_eq_false]
        intro hno
        rw [h.turnEnded_of_not_finds hno] at hended
        cases hended
      have hahead : s.folded < read.currentTurns := (h.turnEnded_iff hfinds).1 hended
      obtain ⟨-, -, hgeneration, hfinalized, hlast⟩ := applyRead_ended hended h.ledger
      rw [hfinds, if_pos rfl] at hnoticed
      rw [if_neg (by simp [hfinds])] at hfolded
      refine ⟨?_, fun k hk => ?_, fun d hd => ?_, fun d hd => ?_⟩
      · rw [hclaude, hlast, hnoticed, hfolded]
        omega
      · rw [hclaude, hgeneration, hfinalized] at hk
        rw [hclaude, hlast]
        rcases List.mem_cons.1 hk with hnew | hold
        · cases hnew
          exact Nat.le_refl _
        · have := h.ledger k hold
          have := h.lastSeen
          have hraised : s.noticed < read.currentTurns := by
            simp only [finds, Bool.and_eq_true, decide_eq_true_eq] at hfinds
            exact hfinds.2
          omega
      · obtain rfl := Option.some.inj (hc'.symm.trans hd)
        rw [hnoticed, hturns']
      · obtain rfl := Option.some.inj (hc'.symm.trans hd)
        exact hrest _ hkept
    · have hno : read.turnEnded s.claude = false := Bool.eq_false_iff.2 hended
      have hnil : read.tail = [] := htail hno
      rw [hnil, List.append_nil] at hmarker hrest hkept hfolded
      obtain ⟨-, hgeneration, hle, hsame, hkeys⟩ := applyRead_quiet hno
      have hlast := h.lastSeen
      refine ⟨?_, fun k hk => ?_, fun d hd => ?_, fun d hd => ?_⟩
      · rw [hclaude]
        by_cases hfinds : s.finds read = true
        · -- The replay took `last_seen` past the counter.
          have hpast : ¬ s.folded < read.currentTurns :=
            mt (h.turnEnded_iff hfinds).2 hended
          have hraised : s.noticed < read.currentTurns := by
            simp only [finds, Bool.and_eq_true, decide_eq_true_eq] at hfinds
            exact hfinds.2
          have hmem : .replayComplete ∉ read.events := fun hmem => by
            have := (hmarker hmem).1
            omega
          rw [hsame hmem, hkept hmem, hnoticed, hfinds, if_pos rfl]
          omega
        · have hnot : s.finds read = false := Bool.eq_false_iff.2 hfinds
          rw [hnot, if_neg Bool.false_ne_true] at hnoticed
          by_cases hmem : .replayComplete ∈ read.events
          · rw [if_pos ⟨hmem, hnot⟩] at hfolded
            rw [hnoticed, hfolded]
            omega
          · rw [hsame hmem, hkept hmem, hnoticed, hlast]
      · rw [hclaude, hgeneration] at hk
        rw [hclaude]
        rcases hkeys _ hk with hold | hnew
        · exact Nat.le_trans (h.ledger k hold) hle
        · cases hnew
          exact Nat.le_refl _
      · obtain rfl := Option.some.inj (hc'.symm.trans hd)
        rw [hnoticed, hturns']
        split
        · exact Nat.le_refl _
        · exact Nat.le_trans hbehind hturns
      · obtain rfl := Option.some.inj (hc'.symm.trans hd)
        exact hrest _ hkept

theorem Tracks.step (h : Tracks s) {act : DirectAct} (hs : s.step act = some s') : Tracks s' := by
  cases act with
  | work act =>
      simp only [DirectTile.step] at hs
      split at hs
      · cases hs
      case h_2 c hchannel =>
        split at hs
        · obtain ⟨c', hc', rfl⟩ := Option.map_eq_some_iff.1 hs
          obtain ⟨hturns, hmarks, -⟩ := DirectChannel.work_spec hc'
          refine h.of_quiet (.refl _) rfl rfl fun d hd => ?_
          cases hd
          exact ⟨c, hchannel, hturns, hmarks⟩
        · cases hs
  | disconnect =>
      simp only [DirectTile.step] at hs
      split at hs
      · cases hs
      case h_2 c hchannel =>
        cases hs
        refine h.of_quiet (.refl _) rfl rfl fun d hd => ?_
        cases hd
        exact ⟨c, hchannel, Nat.le_refl _, rfl⟩
  | submit text =>
      cases hs
      exact h.of_quiet (s.claude.submit_quiet text) rfl rfl fun d hd =>
        ⟨d, hd, Nat.le_refl _, rfl⟩
  | pump budget meanwhile => exact h.pump hs

theorem tracks_of_reachable (h : machine.Reachable s) : Tracks s := by
  refine h.invariant ?_ fun s act s' ih _ hs => ih.step hs
  rintro s ⟨resumed, rfl⟩
  exact tracks_attached resumed

/-- The call finalizes the turn that it found, and the tile rests. -/
def Notices (s s' : DirectTile T) : Prop :=
  s'.claude.settled = s.claude.settled ++ [s'.noticed] ∧ s'.claude.turnPhase = .idle

end pump

/-! ### One replayed turn, one live turn -/

end DirectTile

end Yaldabaoth
