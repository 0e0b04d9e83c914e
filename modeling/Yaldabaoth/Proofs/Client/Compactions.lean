import Yaldabaoth.Proofs.Client.Traces
import Yaldabaoth.Proofs.Client.TurnEnds

/-!
# `Yaldabaoth.Proofs.Client.Compactions`: where a compaction is shown

The marker of a compacted prefix has no twin on the older stream. It is
shown only when the `Agent` arm lets it through, which is when it is of a
newer generation or the gate has flipped, and when it is not of an older
generation. `GateAt` ties both to the events before it, and
`compaction_noted_iff` says when the note stands between what precedes
the marker and what follows it.
-/

set_option autoImplicit false

namespace Yaldabaoth

namespace AgentState

/-- The `Agent` events of a session. -/
def agentEvents (sid : ServerSessionId) (ns : List Notification) : List AgentEvent :=
  ns.filterMap fun
    | .agent event => if event.sessionId = sid then some event else none
    | _ => none

section gate

variable {T : Type} [Screen T] {sid : ServerSessionId} {claude claude' : AgentState T} {G : Nat}
  {events : List AgentEvent}

/-- The generation and the gate of a tile that started in generation `G`
and got `events`. -/
structure GateAt (G : Nat) (events : List AgentEvent) (claude : AgentState T) : Prop where
  grown : G ≤ claude.generation
  bound : ∀ event ∈ events, event.generation ≤ claude.generation
  attained : claude.generation = G ∨ ∃ event ∈ events, event.generation = claude.generation
  gate : claude.agentStreamAuthoritative = true ↔
    ∃ event ∈ events, event.generation = claude.generation ∧ isBoundary event.kind = true

omit [Screen T] in
theorem GateAt.of_eq (h : GateAt G events claude)
    (hgeneration : claude'.generation = claude.generation)
    (hgate : claude'.agentStreamAuthoritative = claude.agentStreamAuthoritative) :
    GateAt G events claude' := by
  obtain ⟨hgrown, hbound, hattained, hflipped⟩ := h
  rw [← hgeneration] at hgrown hattained hflipped
  rw [← hgate] at hflipped
  refine ⟨hgrown, fun event hevent => ?_, hattained, hflipped⟩
  rw [hgeneration]
  exact hbound event hevent

theorem settleAgentEffect_gate (claude : AgentState T) (effect : AgentEventEffect) :
    (claude.settleAgentEffect effect).generation = claude.generation ∧
      (claude.settleAgentEffect effect).agentStreamAuthoritative =
        claude.agentStreamAuthoritative := by
  cases effect with
  | none => exact ⟨rfl, rfl⟩
  | turnEnded generation turn =>
      have h := claude.settleTurn_spec generation turn true
      exact ⟨h.generation, h.authoritative⟩
  | replayEnded =>
      simp only [settleAgentEffect, finalizeReplayPrefix]
      by_cases hprefix : claude.replayPrefixFinalized = true
      · simp only [if_pos hprefix, and_self]
      · simp only [if_neg hprefix]
        split <;> exact ⟨rfl, rfl⟩

theorem applyAgentKind_gate (claude : AgentState T) (generation turn : Nat) (kind : AgentEventKind) :
    (claude.applyAgentKind generation turn kind).1.generation = claude.generation ∧
      (claude.applyAgentKind generation turn kind).1.agentStreamAuthoritative =
        (claude.agentStreamAuthoritative || isBoundary kind) := by
  cases kind with
  | userMessage text =>
      have h := claude.echo_quiet text
      exact ⟨h.generation, h.authoritative.trans (Bool.or_false _).symm⟩
  | turnEnded outcome => cases outcome <;> exact ⟨rfl, (Bool.or_true _).symm⟩
  | _ => exact ⟨rfl, (Bool.or_false _).symm⟩

/-- An event of a newer generation rebaselines, whatever it is. -/
theorem observeAgentEvent_newer {event : AgentEvent} (h : claude.generation < event.generation) :
    (claude.observeAgentEvent event).generation = event.generation ∧
      (claude.observeAgentEvent event).agentStreamAuthoritative = isBoundary event.kind := by
  have hlet : (claude.agentStreamAuthoritative || isBoundary event.kind ||
      decide (claude.generation < event.generation)) = true := by simp [h]
  rw [observeAgentEvent, if_pos hlet, applyAgentEvent, if_pos h]
  obtain ⟨hgeneration, hgate⟩ := applyAgentKind_gate
    { claude.beginServerGeneration with generation := event.generation }
    event.generation event.turn event.kind
  have hsettle := settleAgentEffect_gate
    (applyAgentKind { claude.beginServerGeneration with generation := event.generation }
      event.generation event.turn event.kind).1
    (applyAgentKind { claude.beginServerGeneration with generation := event.generation }
      event.generation event.turn event.kind).2
  exact ⟨hsettle.1.trans hgeneration, hsettle.2.trans hgate⟩

/-- An event of an older generation is dropped. -/
theorem observeAgentEvent_older {event : AgentEvent} (h : event.generation < claude.generation) :
    claude.observeAgentEvent event = claude := by
  rw [observeAgentEvent]
  split
  · rw [applyAgentEvent, if_neg (Nat.not_lt.2 (Nat.le_of_lt h)), if_pos h]
    rfl
  · rfl

theorem observeAgentEvent_same {event : AgentEvent} (h : event.generation = claude.generation) :
    (claude.observeAgentEvent event).generation = claude.generation ∧
      (claude.observeAgentEvent event).agentStreamAuthoritative =
        (claude.agentStreamAuthoritative || isBoundary event.kind) := by
  have hnewer : ¬ claude.generation < event.generation := by omega
  have holder : ¬ event.generation < claude.generation := by omega
  rw [observeAgentEvent]
  by_cases hlet : (claude.agentStreamAuthoritative || isBoundary event.kind) = true
  · rw [if_pos (by rw [hlet, Bool.true_or]), applyAgentEvent, if_neg hnewer, if_neg holder]
    obtain ⟨hgeneration, hgate⟩ :=
      claude.applyAgentKind_gate event.generation event.turn event.kind
    have hsettle := settleAgentEffect_gate
      (claude.applyAgentKind event.generation event.turn event.kind).1
      (claude.applyAgentKind event.generation event.turn event.kind).2
    exact ⟨hsettle.1.trans hgeneration, hsettle.2.trans hgate⟩
  · rw [Bool.not_eq_true] at hlet
    have hshut : claude.agentStreamAuthoritative = false := (Bool.or_eq_false_iff.1 hlet).1
    rw [hlet, Bool.false_or, if_neg (by simp [hnewer])]
    exact ⟨rfl, hshut⟩

theorem GateAt.agent (h : GateAt G events claude) (event : AgentEvent) :
    GateAt G (events ++ [event]) (claude.observeAgentEvent event) := by
  obtain ⟨hgrown, hbound, hattained, hgate⟩ := h
  rcases Nat.lt_trichotomy claude.generation event.generation with hnewer | hsame | holder
  · obtain ⟨hgeneration, hflipped⟩ := observeAgentEvent_newer hnewer
    refine ⟨by omega, fun e he => ?_, .inr ⟨event, by simp, hgeneration.symm⟩, ?_⟩
    · rcases List.mem_append.1 he with he | he
      · have := hbound e he
        omega
      · rw [List.mem_singleton.1 he]
        omega
    · -- nothing before the event is of its generation
      rw [hflipped, hgeneration]
      constructor
      · intro hboundary
        exact ⟨event, by simp, rfl, hboundary⟩
      · rintro ⟨e, he, heq, hboundary⟩
        rcases List.mem_append.1 he with he | he
        · have := hbound e he
          omega
        · rw [List.mem_singleton.1 he] at hboundary
          exact hboundary
  · obtain ⟨hgeneration, hflipped⟩ := observeAgentEvent_same hsame.symm
    rw [← hgeneration] at hgrown hattained hgate hsame
    refine ⟨hgrown, fun e he => ?_, ?_, ?_⟩
    · rcases List.mem_append.1 he with he | he
      · have := hbound e he
        omega
      · rw [List.mem_singleton.1 he]
        omega
    · refine hattained.imp_right ?_
      rintro ⟨e, he, heq⟩
      exact ⟨e, List.mem_append_left _ he, heq⟩
    · rw [hflipped, Bool.or_eq_true, hgate]
      constructor
      · rintro (⟨e, he, heq, hboundary⟩ | hboundary)
        · exact ⟨e, List.mem_append_left _ he, heq, hboundary⟩
        · exact ⟨event, by simp, hsame.symm, hboundary⟩
      · rintro ⟨e, he, heq, hboundary⟩
        rcases List.mem_append.1 he with he | he
        · exact .inl ⟨e, he, heq, hboundary⟩
        · rw [List.mem_singleton.1 he] at hboundary
          exact .inr hboundary
  · rw [observeAgentEvent_older holder]
    refine ⟨hgrown, fun e he => ?_, ?_, ?_⟩
    · rcases List.mem_append.1 he with he | he
      · exact hbound e he
      · rw [List.mem_singleton.1 he]
        omega
    · refine hattained.imp_right ?_
      rintro ⟨e, he, heq⟩
      exact ⟨e, List.mem_append_left _ he, heq⟩
    · rw [hgate]
      constructor
      · rintro ⟨e, he, heq, hboundary⟩
        exact ⟨e, List.mem_append_left _ he, heq, hboundary⟩
      · rintro ⟨e, he, heq, hboundary⟩
        rcases List.mem_append.1 he with he | he
        · exact ⟨e, he, heq, hboundary⟩
        · rw [List.mem_singleton.1 he] at heq
          omega

theorem GateAt.replyRun (h : GateAt G events claude) (run : List ReplyEvent) :
    GateAt G events (claude.observeReplyRun run) := by
  rw [observeReplyRun]
  split
  · exact h
  · obtain ⟨-, hreplied⟩ := claude.applyReplyEvents_spec run
    generalize claude.applyReplyEvents run = replied at hreplied ⊢
    obtain ⟨claude', complete⟩ := replied
    have hafter : GateAt G events claude' := h.of_eq hreplied.generation hreplied.authoritative
    cases complete with
    | false => exact hafter
    | true =>
        have hsettle := claude'.settleTurn_spec claude'.generation claude'.replayTurns.lastSeen false
        exact hafter.of_eq hsettle.generation hsettle.authoritative

theorem GateAt.observe (h : GateAt G events claude) (sid : ServerSessionId) (n : Notification) :
    GateAt G (events ++ agentEvents sid [n]) (claude.observe sid n) := by
  have hnone : GateAt G (events ++ []) claude := by
    rw [List.append_nil]
    exact h
  cases n with
  | agent event =>
      rw [AgentState.observe]
      by_cases hsid : event.sessionId = sid
      · rw [if_pos hsid]
        have hone : agentEvents sid [.agent event] = [event] := by simp [agentEvents, hsid]
        rw [hone]
        exact h.agent event
      · rw [if_neg hsid]
        have hzero : agentEvents sid [.agent event] = [] := by simp [agentEvents, hsid]
        rw [hzero]
        exact hnone
  | turnEnded sessionId turnCount generation =>
      rw [AgentState.observe]
      split
      · have hsettle := settleTurn_spec
          { claude with
            reconciler := claude.reconciler.noteTurnProgressed
            replayTurns := { claude.replayTurns with lastSeen := turnCount } }
          (if 0 < generation then generation else claude.generation) (turnCount - 1) true
        exact hnone.of_eq hsettle.generation hsettle.authoritative
      · exact hnone
  | userPrompt sessionId text =>
      rw [AgentState.observe]
      split
      · have hquiet := claude.insertUserTurn_quiet text .echo false (absurd · Bool.false_ne_true)
        exact hnone.of_eq hquiet.generation hquiet.authoritative
      · exact hnone
  | sessionAttached sessionId acpSessionId =>
      simp only [AgentState.observe]
      split
      · exact hnone.of_eq rfl rfl
      · exact hnone
  | sessionDetached sessionId reason =>
      simp only [AgentState.observe]
      split
      · exact hnone.of_eq rfl rfl
      · exact hnone
  | promptRejected sessionId reason blocks =>
      simp only [AgentState.observe]
      split
      · exact hnone.of_eq rfl rfl
      · exact hnone
  | _ => exact hnone

theorem GateAt.drain (h : GateAt G events claude) (ns : List Notification) (run : List ReplyEvent) :
    GateAt G (events ++ agentEvents sid ns) (claude.drain sid run ns) := by
  induction ns generalizing claude events run with
  | nil =>
      rw [agentEvents, List.filterMap_nil, List.append_nil]
      exact h.replyRun run
  | cons n ns ih =>
      have hsplit : agentEvents sid (n :: ns) = agentEvents sid [n] ++ agentEvents sid ns := by
        rw [agentEvents, ← List.singleton_append, List.filterMap_append]
        rfl
      cases n with
      | replyEvent sessionId event =>
          rw [AgentState.drain]
          split
          · exact ih h (run ++ [event])
          · exact ih (h.replyRun run) []
      | _ =>
          rw [hsplit, ← List.append_assoc]
          exact ih ((h.replyRun run).observe sid _) []

theorem GateAt.acts (h : GateAt G events claude) (as : List TileAct) :
    GateAt G (events ++ agentEvents sid (delivered as)) (claude.acts sid as) := by
  induction as generalizing claude events with
  | nil => exact (List.append_nil events).symm ▸ h
  | cons a as ih =>
      cases a with
      | submit text =>
          have hquiet := claude.submit_quiet text
          exact ih (h.of_eq hquiet.generation hquiet.authoritative)
      | batch ns =>
          have hsplit : agentEvents sid (delivered (.batch ns :: as)) =
              agentEvents sid ns ++ agentEvents sid (delivered as) := List.filterMap_append
          rw [hsplit, ← List.append_assoc]
          exact ih (h.drain ns [])

end gate

/-! ### The marker -/

theorem Started.gateAt {T : Type} [Screen T] {claude : AgentState T} (h : Started claude) :
    GateAt claude.generation [] claude := by
  have hshut : claude.agentStreamAuthoritative = false := by cases h <;> rfl
  refine ⟨Nat.le_refl _, nofun, .inl rfl, ?_⟩
  rw [hshut]
  exact iff_of_false nofun fun ⟨_, hnone, _⟩ => nomatch hnone

/-- The notification that stands for a compacted prefix. -/
def marker (sid : ServerSessionId) (generation turn seq throughTurn : Nat) (summary : String) :
    Notification :=
  .agent ⟨sid, generation, turn, seq, .compactedSummary throughTurn summary⟩

/-- What a batch does up to a notification that is no reply. -/
theorem drain_append_cons {T : Type} [Screen T] (sid : ServerSessionId) (claude : AgentState T)
    (run : List ReplyEvent) (b b' : List Notification) {n : Notification}
    (hn : n.isReply = false) :
    claude.drain sid run (b ++ n :: b') =
      ((claude.drain sid run b).observe sid n).drain sid [] b' := by
  induction b generalizing claude run with
  | nil =>
      cases n with
      | replyEvent sessionId event => cases hn
      | _ => rfl
  | cons first b ih =>
      rw [List.cons_append]
      cases first with
      | replyEvent sessionId event =>
          simp only [drain]
          split
          · exact ih claude (run ++ [event])
          · exact ih (claude.observeReplyRun run) []
      | _ => exact ih _ []

/-- The events before a marker of generation `g` let it through, for a
tile that started in generation `G`: they and `G` are older, or none is
newer and a boundary of generation `g` is among them. -/
def LetsThrough (G : Nat) (events : List AgentEvent) (g : Nat) : Prop :=
  (G < g ∧ ∀ event ∈ events, event.generation < g) ∨
    (G ≤ g ∧ (∀ event ∈ events, event.generation ≤ g) ∧
      ∃ event ∈ events, event.generation = g ∧ isBoundary event.kind = true)

instance (G : Nat) (events : List AgentEvent) (g : Nat) :
    Decidable (LetsThrough G events g) := by
  unfold LetsThrough
  infer_instance

/-- A marker is shown when it is newer than the tile, or of its generation
behind the gate. -/
theorem observe_marker (sid : ServerSessionId) (claude : AgentState (List ScreenOp))
    (g turn seq throughTurn : Nat) (summary : String) :
    (claude.observe sid (marker sid g turn seq throughTurn summary)).screen = claude.screen ++
      if claude.generation < g ∨ claude.generation = g ∧ claude.agentStreamAuthoritative = true
      then [.systemNotice (compactedNote throughTurn summary)] else [] := by
  rw [marker, observe, if_pos rfl]
  rcases Nat.lt_trichotomy claude.generation g with hnewer | hsame | holder
  · rw [if_pos (.inl hnewer), observeAgentEvent, if_pos (by simp [hnewer]), applyAgentEvent,
      if_pos hnewer]
    rfl
  · have hnot : ¬ claude.generation < g := by omega
    have hnot' : ¬ g < claude.generation := by omega
    cases hgate : claude.agentStreamAuthoritative with
    | true =>
        rw [if_pos (.inr ⟨hsame, rfl⟩), observeAgentEvent, if_pos (by simp [hgate]),
          applyAgentEvent, if_neg hnot, if_neg hnot']
        rfl
    | false =>
        rw [if_neg (by simp [hnot]), List.append_nil, observeAgentEvent,
          if_neg (by simp [hgate, hnot, isBoundary])]
  · rw [if_neg (by omega), List.append_nil, observeAgentEvent_older holder]

/-- `as` reaches the tile, and on its screen the note stands between what
precedes the marker and what follows it. -/
def NotedBetween (sid : ServerSessionId) (claude : AgentState (List ScreenOp))
    (front : List TileAct) (b : List Notification) (n : Notification) (note : String)
    (b' : List Notification) (rest : List TileAct) : Prop :=
  let before := claude.acts sid (front ++ [.batch b])
  let after := before.note sid n
  (claude.acts sid (front ++ .batch (b ++ n :: b') :: rest)).screen =
    before.screen ++ .systemNotice note :: after.shown sid (.batch b' :: rest)

/-- However a log with a marker is delivered, the note is on the screen
between what precedes and what follows exactly when the events before let
the marker through. -/
theorem compaction_noted_iff (sid : ServerSessionId) (claude : AgentState (List ScreenOp))
    (hstarted : Started claude) (front rest : List TileAct) (b b' : List Notification)
    (g turn seq throughTurn : Nat) (summary : String) :
    NotedBetween sid claude front b (marker sid g turn seq throughTurn summary)
        (compactedNote throughTurn summary) b' rest ↔
      LetsThrough claude.generation
        (agentEvents sid (delivered (front ++ [.batch b]))) g := by
  have hgate : GateAt claude.generation
      ([] ++ agentEvents sid (delivered (front ++ [.batch b])))
      (claude.acts sid (front ++ [.batch b])) := hstarted.gateAt.acts (front ++ [.batch b])
  rw [List.nil_append] at hgate
  generalize hbefore : claude.acts sid (front ++ [.batch b]) = before at hgate
  -- the marker splits its batch
  have hnote : before.note sid (marker sid g turn seq throughTurn summary) =
      before.observe sid (marker sid g turn seq throughTurn summary) := note_other _ rfl
  have hall : claude.acts sid
      (front ++ .batch (b ++ marker sid g turn seq throughTurn summary :: b') :: rest) =
      (before.observe sid (marker sid g turn seq throughTurn summary)).acts sid
        (.batch b' :: rest) := by
    rw [← hbefore]
    simp only [acts, List.foldl_append, List.foldl_cons, List.foldl_nil]
    congr 1
    exact drain_append_cons sid _ [] b b' rfl
  rw [NotedBetween]
  simp only [hbefore, hnote, hall]
  rw [acts_screen_eq_append, observe_marker, List.append_assoc, List.append_cancel_left_eq]
  -- whether the marker is let through, in terms of the tile and of the events
  have hthrough : (before.generation < g ∨
      before.generation = g ∧ before.agentStreamAuthoritative = true) ↔
      LetsThrough claude.generation (agentEvents sid (delivered (front ++ [.batch b]))) g := by
    obtain ⟨hgrown, hbound, hattained, hflipped⟩ := hgate
    rw [hflipped, LetsThrough]
    constructor
    · rintro (hnewer | ⟨rfl, hboundary⟩)
      · refine .inl ⟨by omega, fun event hevent => ?_⟩
        have := hbound event hevent
        omega
      · exact .inr ⟨hgrown, hbound, hboundary⟩
    · rintro (⟨hstart, hall⟩ | ⟨hstart, hall, event, hevent, hsame, hboundary⟩)
      · rcases hattained with hkept | ⟨event, hevent, hreached⟩
        · exact .inl (by omega)
        · have := hall event hevent
          exact .inl (by omega)
      · have heq : before.generation = g := by
          have hle := hbound event hevent
          rcases hattained with hkept | ⟨reached, hmem, hreached⟩
          · omega
          · have := hall reached hmem
            omega
        exact .inr ⟨heq, event, hevent, hsame.trans heq.symm, hboundary⟩
  rw [← hthrough]
  split
  case isTrue hlet => exact iff_of_true rfl hlet
  case isFalse hlet =>
    refine iff_of_false (fun heq => ?_) hlet
    have := congrArg List.length heq
    simp at this

/-- A turn of generation 0 ends, and its events are compacted behind it. -/
theorem compaction_noted_sample :
    NotedBetween "s" (fresh true) []
      [.agent ⟨"s", 0, 0, 0, .turnEnded .completed⟩, .turnEnded "s" 1 0]
      (marker "s" 0 0 1 0 "2 events") (compactedNote 0 "2 events") [.userPrompt "s" "go on"] [] :=
  (compaction_noted_iff "s" (fresh true) .fresh [] [] _ _ 0 0 1 0 "2 events").2 (by decide)

/-- A session that was never restarted is compacted, and a fresh tile
attaches from the base of its log. The marker comes first, under
generation 0. -/
theorem compaction_is_a_silent_gap :
    ¬ ∀ (sid : ServerSessionId) (claude : AgentState (List ScreenOp)), Started claude →
      ∀ front b g turn seq throughTurn summary b' rest,
        NotedBetween sid claude front b (marker sid g turn seq throughTurn summary)
          (compactedNote throughTurn summary) b' rest := by
  intro h
  have hgap := h "s" (fresh true) .fresh [] [] 0 3 90 3 "90 events"
    [.userPrompt "s" "go on"] []
  -- only the prompt is on the screen
  exact absurd (congrArg List.length hgap) (by decide)

end AgentState

end Yaldabaoth
