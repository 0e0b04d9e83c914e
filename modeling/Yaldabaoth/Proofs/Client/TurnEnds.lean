import Yaldabaoth.Proofs.Client.Deliveries

/-!
# `Yaldabaoth.Proofs.Client.TurnEnds`: one settlement a live turn

Both members of a turn end go to one ledger, which is keyed by generation
and turn. The keys of two turn ends differ, so a turn end is lost only to
the end of a replay: `ReplayComplete` is filed under the generation of the
tile and the settled count, and that is the key of the next live turn.

In a generation that the tile is in, the `ReplayEnd` before it makes the
older stream inert. A tile that kept its generation through a reset drops
the `ReplayEnd` of an older generation, and the `ReplayComplete` behind it
goes to the ledger. `live_turns_settle_iff` says that this is the only way
in which a live turn is not settled once.
-/

set_option autoImplicit false

namespace Yaldabaoth

/-! ### The condition -/

/-- The end of a replay of a generation before `G` came last, no turn end
behind it. -/
def staleReplay (G : Nat) (log : List LogItem) : Bool :=
  log.foldl (fun stale item =>
    if item.isTurnEnd then false
    else stale || (item.isReplayEnd && decide (item.generation < G))) false

/-- A tile that started in generation `G` has filed the end of a replay
under the key of this turn end. -/
def Blocked (G : Nat) (log : List LogItem) (item : LogItem) : Prop :=
  staleReplay G log = true ∧ item.turn = settledTurns log ∧
    (item.generation = G ∨ item.generation = 0)

instance (G : Nat) (log : List LogItem) (item : LogItem) : Decidable (Blocked G log item) := by
  unfold Blocked
  infer_instance

theorem staleReplay_snoc (G : Nat) (log : List LogItem) (item : LogItem) :
    staleReplay G (log ++ [item]) = if item.isTurnEnd then false
      else staleReplay G log || (item.isReplayEnd && decide (item.generation < G)) := by
  rw [staleReplay, List.foldl_append]
  rfl

theorem settledTurns_snoc (log : List LogItem) (item : LogItem) :
    settledTurns (log ++ [item]) = if item.isTurnEnd then item.turn + 1 else settledTurns log := by
  rw [settledTurns, List.filter_append]
  by_cases hend : item.isTurnEnd = true
  · simp [hend]
  · simp [hend, settledTurns]

/-- The turns that a tile settles which started in generation `G` and
read `before`. -/
def settledFrom (G : Nat) (before : List LogItem) : List LogItem → List Nat
  | [] => []
  | item :: rest =>
      (if item.isTurnEnd ∧ ¬ Blocked G before item then [item.turn] else []) ++
        settledFrom G (before ++ [item]) rest

theorem settledFrom_snoc (G : Nat) (before log : List LogItem) (item : LogItem) :
    settledFrom G before (log ++ [item]) = settledFrom G before log ++
      if item.isTurnEnd ∧ ¬ Blocked G (before ++ log) item then [item.turn] else [] := by
  induction log generalizing before with
  | nil => simp [settledFrom]
  | cons first log ih =>
      show _ ++ settledFrom G (before ++ [first]) (log ++ [item]) = _
      rw [ih, ← List.append_assoc, List.append_assoc before [first] log]
      rfl

/-- A recorded log without its last item. -/
theorem Recorded.init {log : List LogItem} {item : LogItem} (h : Recorded (log ++ [item])) :
    Recorded log ∧ item.Valid ∧ (∀ i ∈ log, i.generation ≤ item.generation) ∧
      (item.isTurnEnd = true → settledTurns log ≤ item.turn) := by
  obtain ⟨hvalid, hgenerations, hturns⟩ := h
  rw [List.pairwise_append] at hgenerations
  rw [List.filter_append, List.pairwise_append] at hturns
  refine ⟨⟨fun i hi => hvalid i (List.mem_append_left _ hi), hgenerations.1, hturns.1⟩,
    hvalid item (List.mem_append_right _ (List.mem_singleton.2 rfl)),
    fun i hi => hgenerations.2.2 i hi item (List.mem_singleton.2 rfl), fun hend => ?_⟩
  rw [settledTurns]
  cases hlast : (log.filter LogItem.isTurnEnd).getLast? with
  | none => exact Nat.zero_le _
  | some last =>
      have hmem : item ∈ [item].filter LogItem.isTurnEnd :=
        List.mem_filter.2 ⟨List.mem_singleton.2 rfl, hend⟩
      exact hturns.2.2 last (List.mem_of_getLast? hlast) item hmem

/-- Every live turn is settled when none is blocked. -/
theorem settledFrom_eq_iff (G : Nat) (before log : List LogItem) :
    settledFrom G before log = (log.filter LogItem.isTurnEnd).map (·.turn) ↔
      ∀ pre item post, log = pre ++ item :: post → item.isTurnEnd = true →
        ¬ Blocked G (before ++ pre) item := by
  have hlength : ∀ (log before : List LogItem), (settledFrom G before log).length ≤
      (log.filter LogItem.isTurnEnd).length := by
    intro log
    induction log with
    | nil => exact fun _ => Nat.le_refl _
    | cons item log ih =>
        intro before
        have hrest := ih (before ++ [item])
        rw [settledFrom, List.length_append, List.filter_cons]
        by_cases hend : item.isTurnEnd = true
        · rw [if_pos hend, List.length_cons]
          split
          · rw [List.length_singleton]
            omega
          · rw [List.length_nil]
            omega
        · rw [if_neg hend, if_neg fun hand => hend hand.1, List.length_nil]
          omega
  induction log generalizing before with
  | nil =>
      refine iff_of_true rfl fun pre item post h => ?_
      cases pre <;> cases h
  | cons first log ih =>
      have hrest : (∀ pre item post, first :: log = pre ++ item :: post → item.isTurnEnd = true →
          ¬ Blocked G (before ++ pre) item) ↔ (first.isTurnEnd = true → ¬ Blocked G before first) ∧
          ∀ pre item post, log = pre ++ item :: post → item.isTurnEnd = true →
            ¬ Blocked G (before ++ [first] ++ pre) item := by
        constructor
        · intro h
          refine ⟨fun hend => ?_, fun pre item post hlog => ?_⟩
          · have := h [] first log rfl hend
            rwa [List.append_nil] at this
          · rw [List.append_assoc]
            exact h (first :: pre) item post (by rw [hlog]; rfl)
        · rintro ⟨hfirst, hlog⟩ pre item post heq hend
          cases pre with
          | nil =>
              cases heq
              rw [List.append_nil]
              exact hfirst hend
          | cons _ pre =>
              cases heq
              have := hlog pre item post rfl hend
              rwa [List.append_assoc] at this
      rw [hrest, settledFrom, List.filter_cons]
      refine Iff.trans ?_ (and_congr_right fun _ => ih (before ++ [first]))
      by_cases hend : first.isTurnEnd = true
      · by_cases hb : Blocked G before first
        · -- One turn too few.
          refine iff_of_false (fun heq => ?_) fun h => h.1 hend hb
          have := hlength log (before ++ [first])
          have := congrArg List.length heq
          simp [hend, hb] at this
          omega
        · simp [hend, hb]
      · simp [hend]

namespace AgentState

variable {T : Type} {claude claude' claude'' : AgentState T} {G : Nat} {log : List LogItem}
  {item : LogItem}

/-- A newer generation was adopted. -/
def rebased (claude : AgentState T) (generation : Nat) : AgentState T :=
  { claude.beginServerGeneration with generation }

/-! ### The invariant -/

/-- What the ledger of a tile holds, which started in generation `G` and
read `log`. -/
structure LedgerAt (G : Nat) (log : List LogItem) (claude : AgentState T) : Prop where
  managed : claude.serverManaged = true
  down : claude.replayTurns.replayTurn = 0
  grown : G ≤ claude.generation
  attained : claude.generation = G ∨ ∃ item ∈ log, item.generation = claude.generation
  /-- Before its own generation comes, the tile follows the older stream. -/
  old : (∀ item ∈ log, item.generation < G) → claude.generation = G ∧
    claude.agentStreamAuthoritative = false ∧ claude.replayTurns.lastSeen = settledTurns log
  keys : ∀ key ∈ claude.finalized, key.2 < settledTurns log ∨
    (claude.generation = G ∧ key = (G, settledTurns log) ∧ staleReplay G log = true)
  stale : claude.generation = G → staleReplay G log = true →
    (G, settledTurns log) ∈ claude.finalized

theorem LedgerAt.quiet (h : LedgerAt G log claude) (hquiet : Quiet claude claude') :
    LedgerAt G log claude' where
  managed := hquiet.serverManaged.trans h.managed
  down := by
    rw [hquiet.cursor h.managed]
    exact h.down
  grown := by
    rw [hquiet.generation]
    exact h.grown
  attained := by
    rw [hquiet.generation]
    exact h.attained
  old hold := by
    rw [hquiet.generation, hquiet.authoritative, hquiet.lastSeen]
    exact h.old hold
  keys := by
    rw [hquiet.generation, hquiet.finalized]
    exact h.keys
  stale := by
    rw [hquiet.generation, hquiet.finalized]
    exact h.stale

/-- Once the tile's own generation came, only the ledger counts. -/
theorem LedgerAt.current (h : LedgerAt G log claude) (hcurrent : ∃ i ∈ log, G ≤ i.generation)
    (hmanaged : claude'.serverManaged = claude.serverManaged)
    (hgeneration : claude'.generation = claude.generation)
    (hfinalized : claude'.finalized = claude.finalized)
    (hdown : claude'.replayTurns.replayTurn = 0) : LedgerAt G log claude' where
  managed := hmanaged.trans h.managed
  down := hdown
  grown := by
    rw [hgeneration]
    exact h.grown
  attained := by
    rw [hgeneration]
    exact h.attained
  old hold := by
    obtain ⟨i, hi, hle⟩ := hcurrent
    exact absurd (hold i hi) (Nat.not_lt.2 hle)
  keys := by
    rw [hgeneration, hfinalized]
    exact h.keys
  stale := by
    rw [hgeneration, hfinalized]
    exact h.stale

/-- An item that is no boundary for the ledger. -/
theorem LedgerAt.skip (h : LedgerAt G log claude) (hend : item.isTurnEnd = false)
    (hstale : item.isReplayEnd = true → G ≤ item.generation) :
    LedgerAt G (log ++ [item]) claude := by
  have hsettled : settledTurns (log ++ [item]) = settledTurns log := by
    rw [settledTurns_snoc, hend]
    rfl
  have hreplay : staleReplay G (log ++ [item]) = staleReplay G log := by
    have hno : (item.isReplayEnd && decide (item.generation < G)) = false := by
      cases hreplay : item.isReplayEnd with
      | false => rfl
      | true => simpa using hstale hreplay
    rw [staleReplay_snoc, hend, hno, Bool.or_false]
    rfl
  refine ⟨h.managed, h.down, h.grown, ?_, ?_, ?_, ?_⟩
  · exact h.attained.imp id fun ⟨i, hi, hgen⟩ => ⟨i, List.mem_append_left _ hi, hgen⟩
  · intro hold
    rw [hsettled]
    exact h.old fun i hi => hold i (List.mem_append_left _ hi)
  · rw [hsettled, hreplay]
    exact h.keys
  · rw [hsettled, hreplay]
    exact h.stale

/-- An item of a newer generation, once the tile is rebaselined. -/
theorem LedgerAt.rebase (h : LedgerAt G log claude) (hnew : claude.generation < item.generation) :
    LedgerAt G (log ++ [item]) (claude.rebased item.generation) := by
  have hgrown : G < item.generation := Nat.lt_of_le_of_lt h.grown hnew
  have hitem : item ∈ log ++ [item] := List.mem_append_right _ (List.mem_singleton.2 rfl)
  refine ⟨h.managed, rfl, Nat.le_of_lt hgrown, .inr ⟨item, hitem, rfl⟩, ?_, nofun, ?_⟩
  · intro hold
    have := hold item hitem
    omega
  · intro heq
    have : item.generation = G := heq
    omega

/-- Behind a turn end the ledger is behind the settled count again. -/
theorem LedgerAt.ended (hend : item.isTurnEnd = true) (hmanaged : claude.serverManaged = true)
    (hdown : claude.replayTurns.replayTurn = 0) (hgrown : G ≤ claude.generation)
    (hattained : claude.generation = G ∨ ∃ i ∈ log ++ [item], i.generation = claude.generation)
    (hold : item.generation < G → claude.generation = G ∧
      claude.agentStreamAuthoritative = false ∧ claude.replayTurns.lastSeen = item.turn + 1)
    (hkeys : ∀ key ∈ claude.finalized, key.2 ≤ item.turn) : LedgerAt G (log ++ [item]) claude := by
  have hsettled : settledTurns (log ++ [item]) = item.turn + 1 := by
    rw [settledTurns_snoc, hend]
    rfl
  have hreplay : staleReplay G (log ++ [item]) = false := by
    rw [staleReplay_snoc, hend]
    rfl
  refine ⟨hmanaged, hdown, hgrown, hattained, fun hall => ?_, fun key hkey => .inl ?_, fun _ h => ?_⟩
  · rw [hsettled]
    exact hold (hall item (List.mem_append_right _ (List.mem_singleton.2 rfl)))
  · rw [hsettled]
    exact Nat.lt_succ_of_le (hkeys key hkey)
  · rw [hreplay] at h
    cases h

/-- The end of an older replay, once `ReplayComplete` is filed. -/
theorem LedgerAt.file (h : LedgerAt G log claude) (hfact : item.fact = .replayEnd)
    (hstale : item.generation < G) (hgeneration : claude'.generation = G)
    (hmanaged : claude'.serverManaged = true)
    (hgate : claude'.agentStreamAuthoritative = false)
    (hturns : claude'.replayTurns = claude.replayTurns)
    (hkey : (G, settledTurns log) ∈ claude'.finalized)
    (hkeys : ∀ k ∈ claude'.finalized, k ∈ claude.finalized ∨ k = (G, settledTurns log)) :
    LedgerAt G (log ++ [item]) claude' := by
  have hend : item.isTurnEnd = false := by rw [LogItem.isTurnEnd, hfact]
  have hsettled : settledTurns (log ++ [item]) = settledTurns log := by
    rw [settledTurns_snoc, hend]
    rfl
  have hreplay : staleReplay G (log ++ [item]) = true := by
    have hyes : item.isReplayEnd = true := by rw [LogItem.isReplayEnd, hfact]; rfl
    rw [staleReplay_snoc, hend, hyes, decide_eq_true hstale, Bool.and_self, Bool.or_true]
    rfl
  refine ⟨hmanaged, ?_, Nat.le_of_eq hgeneration.symm, .inl hgeneration, ?_, ?_, ?_⟩
  · rw [hturns]
    exact h.down
  · intro hold
    rw [hturns, hsettled]
    exact ⟨hgeneration, hgate, (h.old fun i hi => hold i (List.mem_append_left _ hi)).2.2⟩
  · intro k hk
    rw [hsettled]
    rcases hkeys k hk with hk | rfl
    · exact (h.keys k hk).imp id fun ⟨_, heq, _⟩ => ⟨hgeneration, heq, hreplay⟩
    · exact .inr ⟨hgeneration, rfl, hreplay⟩
  · intro _ _
    rw [hsettled]
    exact hkey

/-- A tile that dropped an item is still where it started, and so is all
of the log. -/
theorem LedgerAt.behind (h : LedgerAt G log claude) (hlater : ∀ i ∈ log, i.generation ≤ item.generation)
    (hold : item.generation < claude.generation) :
    claude.generation = G ∧ item.generation < G ∧ claude.agentStreamAuthoritative = false ∧
      claude.replayTurns.lastSeen = settledTurns log := by
  have hgen : claude.generation = G := by
    rcases h.attained with hgen | ⟨i, hi, hgen⟩
    · exact hgen
    · have := hlater i hi
      omega
  rw [hgen] at hold
  obtain ⟨-, hgate, hlast⟩ := h.old fun i hi => Nat.lt_of_le_of_lt (hlater i hi) hold
  exact ⟨hgen, hold, hgate, hlast⟩

/-- The key of a turn end is taken exactly when it is blocked. -/
theorem LedgerAt.taken_iff (h : LedgerAt G log claude) {generation turn : Nat}
    (hturn : settledTurns log ≤ turn) (hgen : claude.generation = generation) :
    (generation, turn) ∈ claude.finalized ↔
      generation = G ∧ turn = settledTurns log ∧ staleReplay G log = true := by
  constructor
  · intro hmem
    rcases h.keys _ hmem with hlt | ⟨-, heq, hstale⟩
    · omega
    · exact ⟨congrArg Prod.fst heq, congrArg Prod.snd heq, hstale⟩
  · rintro ⟨rfl, rfl, hstale⟩
    exact h.stale hgen hstale

/-! ### Items without a boundary -/

/-- Quiet, up to the adoption of the item's generation. -/
def Moves (item : LogItem) (claude claude' : AgentState T) : Prop :=
  Quiet claude claude' ∨ ∃ before, Quiet claude before ∧ before.generation < item.generation ∧
    Quiet (before.rebased item.generation) claude'

theorem Moves.after (hquiet : Quiet claude claude') (h : Moves item claude' claude'') :
    Moves item claude claude'' := by
  rcases h with h | ⟨before, hbefore, hnew, hafter⟩
  · exact .inl (hquiet.trans h)
  · exact .inr ⟨before, hquiet.trans hbefore, hnew, hafter⟩

theorem Moves.before (h : Moves item claude claude') (hquiet : Quiet claude' claude'') :
    Moves item claude claude'' := by
  rcases h with h | ⟨before, hbefore, hnew, hafter⟩
  · exact .inl (h.trans hquiet)
  · exact .inr ⟨before, hbefore, hnew, hafter.trans hquiet⟩

/-- Such an item leaves the ledger alone. -/
theorem LedgerAt.moves (h : LedgerAt G log claude) (hend : item.isTurnEnd = false)
    (hreplay : item.isReplayEnd = false) (hmoves : Moves item claude claude') :
    LedgerAt G (log ++ [item]) claude' ∧ claude'.settled = claude.settled := by
  rcases hmoves with hquiet | ⟨before, hbefore, hnew, hafter⟩
  · refine ⟨(h.quiet hquiet).skip hend fun hyes => ?_, hquiet.settled⟩
    rw [hreplay] at hyes
    cases hyes
  · exact ⟨((h.quiet hbefore).rebase hnew).quiet hafter, hafter.settled.trans hbefore.settled⟩

section reducers

variable [Screen T] {sid : ServerSessionId}

theorem applyAgentKind_quiet (claude : AgentState T) (generation turn : Nat) {kind : AgentEventKind}
    (hkind : isBoundary kind = false) :
    (claude.applyAgentKind generation turn kind).2 = .none ∧
      Quiet claude (claude.applyAgentKind generation turn kind).1 := by
  cases kind with
  | turnEnded outcome => cases hkind
  | userMessage text => exact ⟨rfl, claude.echo_quiet text⟩
  | _ => exact ⟨rfl, rfl, rfl, rfl, rfl, rfl, rfl, fun _ => rfl⟩

theorem note_agent (claude : AgentState T) (item : LogItem) (kind : AgentEventKind) :
    claude.note sid (item.agent sid kind) =
      claude.observeAgentEvent ⟨sid, item.generation, item.turn, item.seq, kind⟩ := by
  rw [note_other claude rfl]
  exact if_pos rfl

/-- The `Agent` event of such an item: newer, current or dropped. -/
theorem note_agent_moves (claude : AgentState T) {kind : AgentEventKind}
    (hkind : isBoundary kind = false) :
    Moves item claude (claude.note sid (item.agent sid kind)) := by
  rw [note_agent, observeAgentEvent]
  split
  case isFalse => exact .inl (.refl _)
  case isTrue =>
    simp only [applyAgentEvent]
    split
    case isTrue hnew =>
      obtain ⟨heffect, hquiet⟩ := (claude.rebased item.generation).applyAgentKind_quiet
        item.generation item.turn hkind
      refine .inr ⟨claude, .refl _, hnew, ?_⟩
      show Quiet _ (settleAgentEffect
        ((claude.rebased item.generation).applyAgentKind item.generation item.turn kind).1
        ((claude.rebased item.generation).applyAgentKind item.generation item.turn kind).2)
      rw [heffect]
      exact hquiet
    case isFalse =>
      split
      case isTrue => exact .inl (.refl _)
      case isFalse =>
        obtain ⟨heffect, hquiet⟩ := claude.applyAgentKind_quiet item.generation item.turn hkind
        refine .inl ?_
        show Quiet _ (settleAgentEffect
          (claude.applyAgentKind item.generation item.turn kind).1
          (claude.applyAgentKind item.generation item.turn kind).2)
        rw [heffect]
        exact hquiet

/-- A reply that is no end of a replay. -/
theorem note_reply_quiet (claude : AgentState T) {event : ReplyEvent}
    (hevent : event ≠ .replayComplete) :
    Quiet claude (claude.note sid (.replyEvent sid event)) := by
  rw [note_reply, observeReplyRun]
  split
  case isTrue => exact .refl _
  case isFalse =>
    obtain ⟨hno, hquiet⟩ := claude.applyReplyEvent_quiet hevent
    have hrun : claude.applyReplyEvents [event] = ((claude.applyReplyEvent event).1, false) := by
      rw [applyReplyEvents_cons, hno]
      rfl
    rw [hrun]
    exact hquiet

/-- The notifications of an item that ends neither a turn nor a replay. -/
theorem reads_moves (hvalid : item.Valid) (hend : item.isTurnEnd = false)
    (hreplay : item.isReplayEnd = false) (h : Reads sid (item.notes sid) claude claude') :
    Moves item claude claude' := by
  obtain ⟨generation, turn, seq, fact⟩ := item
  have hevent : ∀ kind, isBoundary kind = false → ∀ c : AgentState T,
      Moves ⟨generation, turn, seq, fact⟩ c
        (c.note sid (LogItem.agent ⟨generation, turn, seq, fact⟩ sid kind)) :=
    fun kind hkind c => c.note_agent_moves hkind
  have hagent : ∀ kind, isBoundary kind = false →
      Reads sid [LogItem.agent ⟨generation, turn, seq, fact⟩ sid kind] claude claude' →
      Moves ⟨generation, turn, seq, fact⟩ claude claude' := by
    intro kind hkind h
    obtain ⟨before, hbefore, hafter⟩ := h.one
    exact ((hevent kind hkind before).before hafter).after hbefore
  have hquiet : ∀ n, (∀ c : AgentState T, Quiet c (c.note sid n)) →
      Reads sid [n] claude claude' → Moves ⟨generation, turn, seq, fact⟩ claude claude' := by
    intro n hn h
    obtain ⟨before, hbefore, hafter⟩ := h.one
    exact .inl ((hbefore.trans (hn before)).trans hafter)
  cases fact with
  | opened resumed => exact hagent _ rfl h
  | compacted throughTurn summary => exact hagent _ rfl h
  | attached acpSessionId =>
      refine hquiet _ (fun c => ?_) h
      rw [note_other c rfl]
      simp only [observe, if_true]
      exact ⟨rfl, rfl, rfl, rfl, rfl, rfl, fun _ => rfl⟩
  | detached reason =>
      refine hquiet _ (fun c => ?_) h
      rw [note_other c rfl]
      simp only [observe, if_true]
      exact ⟨rfl, rfl, rfl, rfl, rfl, rfl, fun _ => rfl⟩
  | prompt text =>
      obtain ⟨before, between, hbefore, hbetween, hafter⟩ := h.two
      have hprompt : Quiet before (before.note sid (.userPrompt sid text)) := by
        rw [note_other before rfl]
        simp only [observe, if_true]
        exact before.insertUserTurn_quiet text .echo false nofun
      have hmoves := hevent (.userMessage text) rfl between
      exact (hmoves.before hafter).after ((hbefore.trans hprompt).trans hbetween)
  | content event =>
      obtain ⟨kind, hkind⟩ := Option.isSome_iff_exists.1 hvalid
      have hplain : isBoundary kind = false ∧ event ≠ .replayComplete := by
        cases event <;> cases hkind <;> exact ⟨rfl, nofun⟩
      simp only [LogItem.notes, hkind] at h
      obtain ⟨before, between, hbefore, hbetween, hafter⟩ := h.two
      have hmoves := hevent kind hplain.1 before
      have hreply : Quiet between (between.note sid (.replyEvent sid event)) :=
        between.note_reply_quiet hplain.2
      exact (hmoves.before ((hbetween.trans hreply).trans hafter)).after hbefore
  | turnEnd outcome => cases hend
  | replayEnd => cases hreplay

/-! ### The end of a replay -/

/-- `ReplayComplete` behind the gate. -/
theorem note_reply_inert {claude : AgentState T} (hgate : claude.agentStreamAuthoritative = true)
    (event : ReplyEvent) : claude.note sid (.replyEvent sid event) = claude := by
  rw [note_reply, observeReplyRun, hgate, Bool.or_true]
  rfl

/-- The settlement of a replayed prefix is no business of the ledger. -/
theorem settle_replayEnded (claude : AgentState T) :
    Quiet claude (claude.settleAgentEffect .replayEnded) := by
  unfold settleAgentEffect finalizeReplayPrefix
  by_cases hdone : claude.replayPrefixFinalized = true
  · simp only [if_pos hdone]
    exact .refl _
  · simp only [if_neg hdone]
    split <;> exact ⟨rfl, rfl, rfl, rfl, rfl, rfl, fun _ => rfl⟩

/-- An `Agent` event of the tile's own generation. -/
def takes (claude : AgentState T) (item : LogItem) (kind : AgentEventKind) : AgentState T :=
  let applied := claude.applyAgentKind item.generation item.turn kind
  applied.1.settleAgentEffect applied.2

/-- A boundary passes the gate. -/
theorem note_boundary (claude : AgentState T) (item : LogItem) (outcome : TurnOutcome) :
    claude.note sid (item.agent sid (.turnEnded outcome)) =
      if claude.generation < item.generation then
        (claude.rebased item.generation).takes item (.turnEnded outcome)
      else if item.generation < claude.generation then claude
      else claude.takes item (.turnEnded outcome) := by
  rw [note_agent, observeAgentEvent, if_pos (by simp [isBoundary])]
  simp only [applyAgentEvent]
  split
  · rfl
  · split <;> rfl

/-- `ReplayEnd` opens the gate, and nothing more. -/
theorem takes_replayEnd (claude : AgentState T) (item : LogItem)
    (hmanaged : claude.serverManaged = true) :
    let after := claude.takes item replayEndKind
    after.agentStreamAuthoritative = true ∧ after.serverManaged = claude.serverManaged ∧
      after.generation = claude.generation ∧ after.finalized = claude.finalized ∧
      after.settled = claude.settled ∧ after.replayTurns.replayTurn = 0 := by
  have hquiet := settle_replayEnded
    (claude.applyAgentKind item.generation item.turn replayEndKind).1
  refine ⟨hquiet.authoritative, hquiet.serverManaged, hquiet.generation, hquiet.finalized,
    hquiet.settled, ?_⟩
  exact congrArg ReplayTurns.replayTurn (hquiet.cursor hmanaged)

/-- `ReplayComplete` before the gate is filed under the generation of the
tile and its settled count. -/
theorem note_replayComplete (claude : AgentState T) (hgate : claude.agentStreamAuthoritative = false)
    (hmanaged : claude.serverManaged = true) (hdown : claude.replayTurns.replayTurn = 0) :
    let after := claude.note sid (.replyEvent sid .replayComplete)
    let key := (claude.generation, claude.replayTurns.lastSeen)
    after.serverManaged = true ∧ after.generation = claude.generation ∧
      after.agentStreamAuthoritative = false ∧ after.replayTurns = claude.replayTurns ∧
      after.settled = claude.settled ∧ key ∈ after.finalized ∧
      ∀ k ∈ after.finalized, k ∈ claude.finalized ∨ k = key := by
  obtain ⟨hflag, hreplied⟩ := claude.applyReplyEvents_spec [.replayComplete]
  have hcomplete := hflag.2 (List.mem_singleton.2 rfl)
  have hturns := hreplied.cursor hmanaged hdown
  rw [note_reply, observeReplyRun, hgate]
  generalize claude.applyReplyEvents [.replayComplete] = applied at hcomplete hreplied hturns ⊢
  obtain ⟨after, complete⟩ := applied
  dsimp only at hcomplete hreplied hturns
  subst hcomplete
  simp only [List.isEmpty_cons, Bool.or_false, Bool.false_eq_true, if_false, hreplied.generation,
    hturns]
  have hsettled := after.settleTurn_spec claude.generation claude.replayTurns.lastSeen false
  refine ⟨hsettled.serverManaged.trans (hreplied.serverManaged.trans hmanaged),
    hsettled.generation.trans hreplied.generation,
    hsettled.authoritative.trans (hreplied.authoritative.trans hgate),
    hsettled.replayTurns.trans hturns, ?_, hsettled.filed, fun k hk => ?_⟩
  · rw [hsettled.settled, hreplied.settled]
    simp
  · rw [← hreplied.finalized]
    exact hsettled.keys k hk

/-- The end of a replay, as the tile takes it. -/
theorem LedgerAt.replayEnd (h : LedgerAt G log claude) (hfact : item.fact = .replayEnd)
    (hlater : ∀ i ∈ log, i.generation ≤ item.generation)
    (hreads : Reads sid [item.agent sid replayEndKind, .replyEvent sid .replayComplete]
      claude claude') :
    LedgerAt G (log ++ [item]) claude' ∧ claude'.settled = claude.settled := by
  obtain ⟨before, between, hbefore, hbetween, hafter⟩ := hreads.two
  replace h := h.quiet hbefore
  have hend : item.isTurnEnd = false := by rw [LogItem.isTurnEnd, hfact]
  have hreplay : item.isReplayEnd = true := by rw [LogItem.isReplayEnd, hfact]; rfl
  have hitem : item ∈ log ++ [item] := List.mem_append_right _ (List.mem_singleton.2 rfl)
  -- Behind a `ReplayEnd` that was taken, `ReplayComplete` is inert.
  have htaken : ∀ c : AgentState T, LedgerAt G (log ++ [item]) c → G ≤ item.generation →
      before.note sid (item.agent sid replayEndKind) = c.takes item replayEndKind →
      c.settled = before.settled →
      LedgerAt G (log ++ [item]) claude' ∧ claude'.settled = claude.settled := by
    intro c hc hcurrent hnote hsettled
    obtain ⟨hgate, hmanaged, hgeneration, hfinalized, hkept, hdown⟩ := c.takes_replayEnd item hc.managed
    rw [hnote] at hbetween
    rw [note_reply_inert (hbetween.authoritative.trans hgate)] at hafter
    have hquiet := hbetween.trans hafter
    refine ⟨(hc.current ⟨item, hitem, hcurrent⟩ hmanaged hgeneration hfinalized hdown).quiet hquiet,
      ?_⟩
    rw [hquiet.settled, hkept, hsettled, hbefore.settled]
  have hnote : before.note sid (item.agent sid replayEndKind) = _ :=
    before.note_boundary item .replayEnd
  split at hnote
  case isTrue hnew =>
    exact htaken _ (h.rebase hnew) (Nat.le_trans h.grown (Nat.le_of_lt hnew)) hnote rfl
  case isFalse hnew =>
    split at hnote
    case isFalse hold =>
      have hcurrent : G ≤ item.generation := Nat.le_trans h.grown (Nat.not_lt.1 hold)
      exact htaken _ (h.skip hend fun _ => hcurrent) hcurrent hnote rfl
    case isTrue hold =>
      -- Dropped: `ReplayComplete` is filed under the settled count.
      obtain ⟨hgeneration, hstale, hgate, hlast⟩ := h.behind hlater hold
      rw [hnote] at hbetween
      replace h := h.quiet hbetween
      obtain ⟨hmanaged, hsame, hshut, hturns, hsettled, hkey, hkeys⟩ :=
        between.note_replayComplete (hbetween.authoritative.trans hgate) h.managed h.down
      rw [hbetween.lastSeen, hlast, hbetween.generation, hgeneration] at hkey hkeys
      have hfiled := h.file hfact hstale (hsame.trans (hbetween.generation.trans hgeneration))
        hmanaged hshut hturns hkey hkeys
      refine ⟨hfiled.quiet hafter, ?_⟩
      rw [hafter.settled, hsettled, hbetween.settled, hbefore.settled]

/-! ### The end of a turn -/

/-- `TurnEnded` of a live turn, in the tile's own generation. -/
theorem takes_turnEnd (claude : AgentState T) (item : LogItem) {outcome : TurnOutcome}
    (hlive : outcome ≠ .replayEnd) :
    ∃ c : AgentState T, claude.takes item (turnEndedKind outcome) =
        c.settleTurn item.generation item.turn true ∧
      c.serverManaged = claude.serverManaged ∧ c.generation = claude.generation ∧
      c.finalized = claude.finalized ∧ c.settled = claude.settled ∧
      c.replayTurns.replayTurn = claude.replayTurns.replayTurn := by
  cases outcome with
  | replayEnd => exact absurd rfl hlive
  | _ => exact ⟨_, rfl, rfl, rfl, rfl, rfl, rfl⟩

/-- The older `TurnEnded`. -/
theorem note_turnEnded (claude : AgentState T) (turn generation : Nat) :
    ∃ c : AgentState T, claude.note sid (.turnEnded sid (turn + 1) generation) =
        c.settleTurn (if 0 < generation then generation else claude.generation) turn true ∧
      c.serverManaged = claude.serverManaged ∧ c.generation = claude.generation ∧
      c.finalized = claude.finalized ∧ c.settled = claude.settled ∧
      c.agentStreamAuthoritative = claude.agentStreamAuthoritative ∧
      c.turnPhase = claude.turnPhase ∧
      c.replayTurns = { claude.replayTurns with lastSeen := turn + 1 } := by
  rw [note_other claude rfl]
  simp only [observe, if_true]
  exact ⟨_, rfl, rfl, rfl, rfl, rfl, rfl, rfl, rfl⟩

/-- Both members of a turn end. The tile rests behind them when nothing
came in between. -/
theorem LedgerAt.turnEnd (h : LedgerAt G log claude) {outcome : TurnOutcome}
    (hfact : item.fact = .turnEnd outcome) (hlive : outcome ≠ .replayEnd)
    (hlater : ∀ i ∈ log, i.generation ≤ item.generation) (hturn : settledTurns log ≤ item.turn)
    {between : AgentState T}
    (hbetween : Quiet (claude.note sid (item.agent sid (turnEndedKind outcome))) between) :
    let after := between.note sid (.turnEnded sid (item.turn + 1) item.generation)
    LedgerAt G (log ++ [item]) after ∧
      after.settled = claude.settled ++ (if Blocked G log item then [] else [item.turn]) ∧
      (between.turnPhase = (claude.note sid (item.agent sid (turnEndedKind outcome))).turnPhase →
        ¬ Blocked G log item → after.turnPhase = .idle) := by
  intro after
  have hend : item.isTurnEnd = true := by rw [LogItem.isTurnEnd, hfact]
  have hitem : item ∈ log ++ [item] := List.mem_append_right _ (List.mem_singleton.2 rfl)
  have hlegacy : ∃ c : AgentState T, after = _ ∧ _ := between.note_turnEnded item.turn item.generation
  obtain ⟨last, hafter, hlastManaged, hlastGen, hlastKeys, hlastSettled, hlastGate, hlastPhase,
    hlastTurns⟩ := hlegacy
  have hspec := last.settleTurn_spec
    (if 0 < item.generation then item.generation else between.generation) item.turn true
  rw [← hafter] at hspec
  -- The `Agent` event settles when the generations agree, and its twin finds the key.
  have hcurrent : ∀ c : AgentState T, c.serverManaged = true → c.replayTurns.replayTurn = 0 →
      c.generation = item.generation → c.settled = claude.settled →
      (∀ k ∈ c.finalized, k.2 ≤ item.turn) → G ≤ item.generation →
      ((item.generation, item.turn) ∈ c.finalized ↔ Blocked G log item) →
      claude.note sid (item.agent sid (turnEndedKind outcome)) =
        c.takes item (turnEndedKind outcome) →
      LedgerAt G (log ++ [item]) after ∧
        after.settled = claude.settled ++ (if Blocked G log item then [] else [item.turn]) ∧
        (between.turnPhase =
            (claude.note sid (item.agent sid (turnEndedKind outcome))).turnPhase →
          ¬ Blocked G log item → after.turnPhase = .idle) := by
    intro c hmanaged hdown hgeneration hkept hkeys hgrown hblocked hnote
    obtain ⟨d, htakes, hdManaged, hdGen, hdKeys, hdSettled, hdTurns⟩ := c.takes_turnEnd item hlive
    have hfirst := d.settleTurn_spec item.generation item.turn true
    rw [← htakes, ← hnote] at hfirst
    have hsame : between.generation = item.generation := by
      rw [hbetween.generation, hfirst.generation, hdGen, hgeneration]
    have hmanaged' : between.serverManaged = true := by
      rw [hbetween.serverManaged, hfirst.serverManaged, hdManaged, hmanaged]
    have hkey : (if 0 < item.generation then item.generation else between.generation) =
        item.generation := by
      rw [hsame, ite_self]
    have hfiled : (item.generation, item.turn) ∈ last.finalized := by
      rw [hlastKeys, hbetween.finalized]
      exact hfirst.filed
    rw [hkey] at hspec
    have hlast : after = last := hspec.old hfiled
    refine ⟨.ended hend ?_ ?_ ?_ ?_ (fun hlt => absurd hlt (Nat.not_lt.2 hgrown)) fun k hk => ?_,
      ?_, fun hphase hfree => ?_⟩
    · rw [hlast, hlastManaged, hmanaged']
    · rw [hlast, hlastTurns]
      show between.replayTurns.replayTurn = 0
      have hmanaged'' : (claude.note sid
          (item.agent sid (turnEndedKind outcome))).serverManaged = true := by
        rw [hfirst.serverManaged, hdManaged, hmanaged]
      rw [hbetween.cursor hmanaged'', hfirst.replayTurns, hdTurns, hdown]
    · rw [hlast, hlastGen, hsame]
      exact hgrown
    · rw [hlast, hlastGen, hsame]
      exact .inr ⟨item, hitem, rfl⟩
    · rw [hlast, hlastKeys, hbetween.finalized] at hk
      rcases hfirst.keys k hk with hk | rfl
      · rw [hdKeys] at hk
        exact hkeys k hk
      · exact Nat.le_refl _
    · rw [hlast, hlastSettled, hbetween.settled, hfirst.settled, hdSettled, hkept, hdKeys]
      by_cases hb : Blocked G log item
      · simp [hb, hblocked.2 hb]
      · simp [hb, mt hblocked.1 hb]
    · rw [hlast, hlastPhase, hphase]
      refine hfirst.idle ?_
      rw [hdKeys, hblocked]
      exact hfree
  have hnote : claude.note sid (item.agent sid (turnEndedKind outcome)) = _ :=
    claude.note_boundary item outcome
  split at hnote
  case isTrue hnew =>
    -- A newer generation: the ledger is empty.
    have hgrown : G < item.generation := Nat.lt_of_le_of_lt h.grown hnew
    refine hcurrent (claude.rebased item.generation) h.managed rfl rfl rfl nofun
      (Nat.le_of_lt hgrown) (iff_of_false nofun ?_) hnote
    rintro ⟨-, -, hgen⟩
    omega
  case isFalse hnew =>
    have hbound : ∀ k ∈ claude.finalized, k.2 ≤ item.turn := by
      intro k hk
      rcases h.keys k hk with hlt | ⟨-, rfl, -⟩
      · exact Nat.le_trans (Nat.le_of_lt hlt) hturn
      · exact hturn
    split at hnote
    case isFalse hold =>
      have hsame : claude.generation = item.generation := by omega
      have hgrown : G ≤ item.generation := by
        rw [← hsame]
        exact h.grown
      refine hcurrent claude h.managed h.down hsame rfl hbound hgrown ?_ hnote
      rw [h.taken_iff hturn hsame, Blocked]
      have hzero : item.generation = G ∨ item.generation = 0 ↔ item.generation = G := by
        omega
      rw [hzero]
      tauto
    case isTrue hold =>
      -- Dropped: only the older `TurnEnded` settles.
      obtain ⟨hgeneration, hstale, hgate, hlastSeen⟩ := h.behind hlater hold
      rw [hnote] at hbetween
      replace hgeneration : between.generation = G := hbetween.generation.trans hgeneration
      replace h := h.quiet hbetween
      have htaken : (if 0 < item.generation then item.generation else between.generation,
          item.turn) ∈ last.finalized ↔ Blocked G log item := by
        rw [hlastKeys, Blocked]
        by_cases hzero : item.generation = 0
        · rw [if_neg (by omega), h.taken_iff hturn rfl, hgeneration]
          tauto
        · rw [if_pos (by omega)]
          refine iff_of_false (fun hmem => ?_) fun hblocked => ?_
          · rcases h.keys _ hmem with hlt | ⟨-, heq, -⟩
            · exact absurd hturn (Nat.not_le.2 hlt)
            · have : item.generation = G := congrArg Prod.fst heq
              omega
          · rcases hblocked.2.2 with hgen | hgen <;> omega
      refine ⟨.ended hend ?_ ?_ ?_ ?_ (fun _ => ?_) fun k hk => ?_, ?_, fun _ hfree => ?_⟩
      · rw [hspec.serverManaged, hlastManaged, h.managed]
      · rw [hspec.replayTurns, hlastTurns]
        exact h.down
      · rw [hspec.generation, hlastGen]
        exact h.grown
      · rw [hspec.generation, hlastGen]
        exact .inl hgeneration
      · refine ⟨?_, ?_, ?_⟩
        · rw [hspec.generation, hlastGen, hgeneration]
        · rw [hspec.authoritative, hlastGate, hbetween.authoritative, hgate]
        · rw [hspec.replayTurns, hlastTurns]
      · rcases hspec.keys k hk with hk | rfl
        · rw [hlastKeys, hbetween.finalized] at hk
          exact hbound k hk
        · exact Nat.le_refl _
      · rw [hspec.settled, hlastSettled, hbetween.settled]
        by_cases hb : Blocked G log item
        · simp [hb, htaken.2 hb]
        · simp [hb, mt htaken.1 hb]
      · exact hspec.idle (mt htaken.1 hfree)

/-! ### Whole logs -/

/-- A fresh tile of a managed session, or one that was just reset. -/
inductive Started : AgentState T → Prop
  | fresh : Started (fresh true)
  | reset (claude : AgentState T) : claude.serverManaged = true → Started claude.resetForReplay

theorem Started.ledger (h : Started claude) : LedgerAt claude.generation [] claude := by
  cases h with
  | fresh => exact ⟨rfl, rfl, Nat.le_refl _, .inl rfl, fun _ => ⟨rfl, rfl, rfl⟩, nofun, nofun⟩
  | reset claude hmanaged =>
      exact ⟨hmanaged, rfl, Nat.le_refl _, .inl rfl, fun _ => ⟨rfl, rfl, rfl⟩, nofun, nofun⟩

/-- The ledger behind a log, and what was settled on the way. -/
theorem ledger_reads {log : List LogItem} (hlog : Recorded log) (hstart : LedgerAt G [] claude)
    (hreads : Reads sid (logNotes sid log) claude claude') :
    LedgerAt G log claude' ∧ claude'.settled = claude.settled ++ settledFrom G [] log := by
  induction log using List.reverseRecOn generalizing claude' with
  | nil =>
      obtain ⟨hquiet⟩ : Reads sid [] claude claude' := hreads
      exact ⟨hstart.quiet hquiet, hquiet.settled.trans (List.append_nil _).symm⟩
  | append_singleton log item ih =>
      obtain ⟨hinit, hvalid, hlater, hturn⟩ := hlog.init
      rw [logNotes, List.flatMap_append, List.flatMap_singleton] at hreads
      obtain ⟨before, hbefore, hitem⟩ := hreads.split
      obtain ⟨h, hsettled⟩ := ih hinit hbefore
      rw [settledFrom_snoc, List.nil_append, ← List.append_assoc, ← hsettled]
      by_cases hend : item.isTurnEnd = true
      · obtain ⟨outcome, hfact⟩ : ∃ outcome, item.fact = .turnEnd outcome := by
          revert hend
          rw [LogItem.isTurnEnd]
          split
          · exact fun _ => ⟨_, ‹_›⟩
          · exact fun h => absurd h Bool.false_ne_true
        have hlive : outcome ≠ .replayEnd := by
          rw [LogItem.Valid, hfact] at hvalid
          exact hvalid
        rw [LogItem.notes, hfact] at hitem
        obtain ⟨first, between, hfirst, hbetween, hafter⟩ := hitem.two
        obtain ⟨hledger, hkept, -⟩ :=
          (h.quiet hfirst).turnEnd hfact hlive hlater (hturn hend) hbetween
        refine ⟨hledger.quiet hafter, ?_⟩
        rw [hafter.settled, hkept, hfirst.settled]
        by_cases hb : Blocked G log item <;> simp [hb, hend]
      · rw [Bool.not_eq_true] at hend
        rw [if_neg (by simp [hend]), List.append_nil]
        by_cases hreplay : item.isReplayEnd = true
        · have hfact : item.fact = .replayEnd := by
            rw [LogItem.isReplayEnd, beq_iff_eq] at hreplay
            exact hreplay
          rw [LogItem.notes, hfact] at hitem
          exact h.replayEnd hfact hlater hitem
        · rw [Bool.not_eq_true] at hreplay
          exact h.moves hend hreplay (reads_moves hvalid hend hreplay hitem)

/-- Every live turn end of the log is settled once, in order, and nothing
else is. -/
def SettlesEachOnce (sid : ServerSessionId) (claude : AgentState T) (as : List TileAct)
    (log : List LogItem) : Prop :=
  (claude.acts sid as).settled =
    claude.settled ++ (log.filter LogItem.isTurnEnd).map (·.turn)

/-- The tile rests behind a turn end, unless a submit came after its
first member. -/
def RestsAfterEach (sid : ServerSessionId) (claude : AgentState T) (as : List TileAct)
    (log : List LogItem) : Prop :=
  ∀ front tail rest pre item post, as = front ++ tail ++ rest → log = pre ++ item :: post →
    item.isTurnEnd = true → delivered (front ++ tail) = logNotes sid (pre ++ [item]) →
    (∀ a ∈ tail, ∃ ns, a = .batch ns) → 2 ≤ (delivered tail).length →
    (claude.acts sid (front ++ tail)).turnPhase = .idle

/-- Batches alone, one notification at a time. -/
theorem acts_batches {tail : List TileAct} (hbatches : ∀ a ∈ tail, ∃ ns, a = .batch ns)
    (hruns : NoRuns (delivered tail)) (claude : AgentState T) :
    claude.acts sid tail = (delivered tail).foldl (note sid) claude := by
  induction tail generalizing claude with
  | nil => rfl
  | cons a tail ih =>
      obtain ⟨ns, rfl⟩ := hbatches a List.mem_cons_self
      have hns : NoRuns (ns ++ delivered tail) := hruns
      show (claude.applyServerBatch sid ns).acts sid tail = (ns ++ delivered tail).foldl _ _
      rw [ih (fun b hb => hbatches b (List.mem_cons_of_mem _ hb)) hns.right, List.foldl_append,
        applyServerBatch_eq_foldl hns.left]

/-- The last two notifications of a delivery that ends in a turn end. -/
theorem rests_after {log : List LogItem} (hlog : Recorded (log ++ [item]))
    (hstart : LedgerAt G [] claude) (hend : item.isTurnEnd = true) (hfree : ¬ Blocked G log item)
    {front tail : List TileAct}
    (hdelivered : delivered (front ++ tail) = logNotes sid (log ++ [item]))
    (hbatches : ∀ a ∈ tail, ∃ ns, a = .batch ns) (htwo : 2 ≤ (delivered tail).length) :
    (claude.acts sid (front ++ tail)).turnPhase = .idle := by
  obtain ⟨hinit, hvalid, hlater, hturn⟩ := hlog.init
  obtain ⟨outcome, hfact⟩ : ∃ outcome, item.fact = .turnEnd outcome := by
    revert hend
    rw [LogItem.isTurnEnd]
    split
    · exact fun _ => ⟨_, ‹_›⟩
    · nofun
  have hlive : outcome ≠ .replayEnd := by
    rw [LogItem.Valid, hfact] at hvalid
    exact hvalid
  have hruns : NoRuns (delivered front ++ delivered tail) := by
    rw [← delivered_append, hdelivered]
    exact noRuns_logNotes sid hlog.valid
  rw [logNotes, List.flatMap_append, List.flatMap_singleton, LogItem.notes, hfact,
    delivered_append] at hdelivered
  -- The tail ends in both members.
  obtain ⟨early, hearly, hboth⟩ : ∃ early, delivered tail = early ++
      [item.agent sid (turnEndedKind outcome),
        .turnEnded sid (item.turn + 1) item.generation] ∧
      delivered front ++ early = logNotes sid log := by
    rcases List.append_eq_append_iff.1 hdelivered with ⟨early, hlogNotes, htail⟩ | ⟨late, hfront, hpair⟩
    · exact ⟨early, htail, hlogNotes.symm⟩
    · have hnil : late = [] := by
        have hlength := congrArg List.length hpair
        rw [List.length_append] at hlength
        exact List.eq_nil_of_length_eq_zero (by simp at hlength; omega)
      rw [hnil] at hfront hpair
      exact ⟨[], hpair.symm, (List.append_nil _).trans (hfront.trans (List.append_nil _))⟩
  have hreads : Reads sid (logNotes sid log) claude
      (early.foldl (note sid) (claude.acts sid front)) := by
    rw [← hboth]
    exact (reads_delivered hruns.left claude).append (reads_foldl early _)
  obtain ⟨h, -⟩ := ledger_reads hinit hstart hreads
  rw [acts, List.foldl_append]
  show ((claude.acts sid front).acts sid tail).turnPhase = .idle
  rw [acts_batches hbatches hruns.right, hearly, List.foldl_append]
  exact (h.turnEnd hfact hlive hlater (hturn hend) (.refl _)).2.2 rfl hfree

/-- The live turns of a recorded log are settled once each, and the tile
rests behind each, exactly when none has the key that the end of an
older replay was filed under. -/
theorem live_turns_settle_iff (sid : ServerSessionId) (claude : AgentState T)
    (hstarted : Started claude) (log : List LogItem) (hlog : Recorded log) (as : List TileAct)
    (hdelivered : delivered as = logNotes sid log) :
    SettlesEachOnce sid claude as log ∧ RestsAfterEach sid claude as log ↔
      ∀ pre item post, log = pre ++ item :: post → item.isTurnEnd = true →
        ¬ Blocked claude.generation pre item := by
  have hruns : NoRuns (delivered as) := by
    rw [hdelivered]
    exact noRuns_logNotes sid hlog.valid
  have hreads : Reads sid (delivered as) claude (claude.acts sid as) :=
    reads_delivered hruns claude
  rw [hdelivered] at hreads
  obtain ⟨-, hsettled⟩ := ledger_reads hlog hstarted.ledger hreads
  have honce : SettlesEachOnce sid claude as log ↔ ∀ pre item post, log = pre ++ item :: post →
      item.isTurnEnd = true → ¬ Blocked claude.generation pre item := by
    rw [SettlesEachOnce, hsettled, List.append_cancel_left_eq, settledFrom_eq_iff]
    rfl
  rw [honce]
  refine and_iff_left_of_imp fun hfree => ?_
  rintro front tail rest pre item post rfl rfl hend hpart hbatches htwo
  have hlog' : Recorded (pre ++ [item]) := by
    have hsub : (pre ++ [item]).Sublist (pre ++ item :: post) := by
      have hsplit : pre ++ item :: post = pre ++ [item] ++ post := by simp
      rw [hsplit]
      exact List.sublist_append_left _ _
    exact ⟨fun i hi => hlog.valid i (hsub.subset hi), hlog.generations.sublist hsub,
      hlog.turns.sublist (hsub.filter _)⟩
  exact rests_after hlog' hstarted.ledger hend (hfree pre item post rfl hend) hpart hbatches htwo

end reducers

end AgentState

/-! ### A reconnect behind two restarts -/

namespace Sample

/-- One turn, and two restarts that replay it. -/
def restarted : List LogItem :=
  [⟨0, 0, 0, .opened false⟩, ⟨0, 0, 1, .turnEnd .completed⟩,
    ⟨1, 1, 0, .opened true⟩, ⟨1, 1, 1, .replayEnd⟩,
    ⟨2, 1, 0, .opened true⟩, ⟨2, 1, 1, .replayEnd⟩]

/-- The turn behind them. -/
def nextTurn : LogItem := ⟨2, 1, 2, .turnEnd .completed⟩

theorem recorded_restarted : Recorded (restarted ++ [nextTurn]) :=
  ⟨by decide, by decide, by decide⟩

/-- A tile that has seen the second restart, after a reset. -/
def reconnected : AgentState Unit :=
  ({ AgentState.fresh true with generation := 2 } : AgentState Unit).resetForReplay

/-- The replayed log, a submit, and the end of the turn it starts. -/
def reconnectActs : List TileAct :=
  [.batch (logNotes "s" restarted), .submit "go on", .batch (logNotes "s" [nextTurn])]

end Sample

namespace AgentState

/-- The older stream filed the end of the first restart's replay under
the generation of the tile. The next live turn finds its key taken, and
the tile goes on awaiting it. -/
theorem reconnect_strands_turn :
    ¬ ∀ (sid : ServerSessionId) (claude : AgentState Unit), Started claude →
      ∀ log, Recorded log → ∀ as, delivered as = logNotes sid log →
        SettlesEachOnce sid claude as log ∧ RestsAfterEach sid claude as log := by
  intro h
  have hrests := (h "s" Sample.reconnected (.reset _ rfl) _ Sample.recorded_restarted
    Sample.reconnectActs (by decide)).2
  have hidle := hrests (Sample.reconnectActs.take 2) (Sample.reconnectActs.drop 2) []
    Sample.restarted Sample.nextTurn [] rfl rfl rfl (by decide)
    (fun a ha => ⟨_, List.mem_singleton.1 ha⟩) (by decide)
  have hphase : (Sample.reconnected.acts "s"
      (Sample.reconnectActs.take 2 ++ Sample.reconnectActs.drop 2)).turnPhase = .awaiting := by
    decide
  rw [hphase] at hidle
  cases hidle

/-- A fresh tile reads the same log. -/
theorem live_turns_settle_sample :
    (((fresh true : AgentState Unit).acts "s" Sample.reconnectActs).settled = [0, 1]) ∧
      (SettlesEachOnce "s" (fresh true : AgentState Unit) Sample.reconnectActs
          (Sample.restarted ++ [Sample.nextTurn]) ∧
        RestsAfterEach "s" (fresh true : AgentState Unit) Sample.reconnectActs
          (Sample.restarted ++ [Sample.nextTurn]) ↔
      ∀ pre item post, Sample.restarted ++ [Sample.nextTurn] = pre ++ item :: post →
        item.isTurnEnd = true → ¬ Blocked (fresh true : AgentState Unit).generation pre item) :=
  ⟨by decide, live_turns_settle_iff "s" (fresh true) .fresh _ Sample.recorded_restarted
    Sample.reconnectActs (by decide)⟩

end AgentState

end Yaldabaoth
