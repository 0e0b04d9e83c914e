import Yaldabaoth.Model.AgentState

/-!
# `Yaldabaoth.Proofs.Client.Reducers`: what the reducers leave alone

Most of what a session reports concerns the screen only. `Quiet` says
that two states agree on the turn ledger and on what it is keyed by;
`applyReplyEvents_spec` says it of a run of replies, up to the fold of the
replay cursor at a `ReplayComplete`.
-/

set_option autoImplicit false

namespace Yaldabaoth

namespace AgentState

variable {T : Type} {claude claude' claude'' : AgentState T}

/-- The ledger, its keys and the gate are the same. The replay cursor
moves for a direct channel only. -/
structure Quiet (claude claude' : AgentState T) : Prop where
  serverManaged : claude'.serverManaged = claude.serverManaged
  generation : claude'.generation = claude.generation
  finalized : claude'.finalized = claude.finalized
  settled : claude'.settled = claude.settled
  authoritative : claude'.agentStreamAuthoritative = claude.agentStreamAuthoritative
  lastSeen : claude'.replayTurns.lastSeen = claude.replayTurns.lastSeen
  cursor : claude.serverManaged = true → claude'.replayTurns = claude.replayTurns

theorem Quiet.refl (claude : AgentState T) : Quiet claude claude :=
  ⟨rfl, rfl, rfl, rfl, rfl, rfl, fun _ => rfl⟩

theorem Quiet.trans (h : Quiet claude claude') (h' : Quiet claude' claude'') :
    Quiet claude claude'' where
  serverManaged := h'.serverManaged.trans h.serverManaged
  generation := h'.generation.trans h.generation
  finalized := h'.finalized.trans h.finalized
  settled := h'.settled.trans h.settled
  authoritative := h'.authoritative.trans h.authoritative
  lastSeen := h'.lastSeen.trans h.lastSeen
  cursor hmanaged := by
    have hmanaged' : claude'.serverManaged = true := h.serverManaged.trans hmanaged
    rw [h'.cursor hmanaged', h.cursor hmanaged]

/-- What a run of replies does to the ledger and its keys. -/
structure Replied (complete : Prop) (claude claude' : AgentState T) : Prop where
  serverManaged : claude'.serverManaged = claude.serverManaged
  generation : claude'.generation = claude.generation
  finalized : claude'.finalized = claude.finalized
  settled : claude'.settled = claude.settled
  authoritative : claude'.agentStreamAuthoritative = claude.agentStreamAuthoritative
  le_lastSeen : claude.replayTurns.lastSeen ≤ claude'.replayTurns.lastSeen
  lastSeen : ¬ complete → claude'.replayTurns.lastSeen = claude.replayTurns.lastSeen
  /-- The cursor of a managed session stays down. -/
  cursor : claude.serverManaged = true → claude.replayTurns.replayTurn = 0 →
    claude'.replayTurns = claude.replayTurns

theorem Quiet.replied {complete : Prop} (h : Quiet claude claude') :
    Replied complete claude claude' where
  serverManaged := h.serverManaged
  generation := h.generation
  finalized := h.finalized
  settled := h.settled
  authoritative := h.authoritative
  le_lastSeen := Nat.le_of_eq h.lastSeen.symm
  lastSeen _ := h.lastSeen
  cursor hmanaged _ := h.cursor hmanaged

theorem Replied.trans {first rest complete : Prop} (hfirst : first → complete)
    (hrest : rest → complete) (h : Replied first claude claude')
    (h' : Replied rest claude' claude'') : Replied complete claude claude'' where
  serverManaged := h'.serverManaged.trans h.serverManaged
  generation := h'.generation.trans h.generation
  finalized := h'.finalized.trans h.finalized
  settled := h'.settled.trans h.settled
  authoritative := h'.authoritative.trans h.authoritative
  le_lastSeen := Nat.le_trans h.le_lastSeen h'.le_lastSeen
  lastSeen hno := (h'.lastSeen (mt hrest hno)).trans (h.lastSeen (mt hfirst hno))
  cursor hmanaged hdown := by
    have hmid : claude'.replayTurns = claude.replayTurns := h.cursor hmanaged hdown
    have hmanaged' : claude'.serverManaged = true := h.serverManaged.trans hmanaged
    rw [h'.cursor hmanaged' (by rw [hmid]; exact hdown), hmid]

/-! ### User turns -/

/-- A user turn steps the replay cursor when it is told to. -/
theorem registerUserTurn_quiet (claude : AgentState T) (text : String) (origin : UserTurnOrigin) (advance : Bool)
    (hadvance : advance = true → claude.serverManaged = false) :
    Quiet claude (claude.registerUserTurn text origin advance).1 := by
  have hkind : ∀ b, (claude.reconciler.reconcile origin text advance).2 = .insert b →
      b = true → advance = true := by
    intro b hb htrue
    subst htrue
    cases origin with
    | localSubmit => cases hb
    | echo =>
        simp only [UserTurnReconciler.reconcile, UserTurnReconciler.reconcileNormalized] at hb
        split at hb
        · cases hb
        · split at hb
          · cases hb
          · exact UserTurnAction.insert.inj hb
  simp only [registerUserTurn]
  generalize claude.reconciler.reconcile origin text advance = reconciled at hkind ⊢
  obtain ⟨reconciler, action⟩ := reconciled
  cases action with
  | skip => exact ⟨rfl, rfl, rfl, rfl, rfl, rfl, fun _ => rfl⟩
  | insert b =>
      cases b with
      | false =>
          simp only [Bool.false_eq_true, if_false]
          split <;> exact ⟨rfl, rfl, rfl, rfl, rfl, rfl, fun _ => rfl⟩
      | true =>
          have hdirect : claude.serverManaged = false := hadvance (hkind true rfl rfl)
          have hcursor : ∀ claude' : AgentState T,
              claude.serverManaged = true → claude'.replayTurns = claude.replayTurns := by
            intro _ hmanaged
            rw [hdirect] at hmanaged
            cases hmanaged
          simp only [if_true]
          split <;> exact ⟨rfl, rfl, rfl, rfl, rfl, rfl, hcursor _⟩

section reducers

variable [Screen T]

theorem insertUserTurn_quiet (claude : AgentState T) (text : String) (origin : UserTurnOrigin) (advance : Bool)
    (hadvance : advance = true → claude.serverManaged = false) :
    Quiet claude (claude.insertUserTurn text origin advance) := by
  have h := claude.registerUserTurn_quiet text origin advance hadvance
  simp only [insertUserTurn]
  generalize claude.registerUserTurn text origin advance = registered at h ⊢
  obtain ⟨claude', k⟩ := registered
  cases k with
  | none => exact h
  | some k => exact ⟨h.serverManaged, h.generation, h.finalized, h.settled, h.authoritative,
      h.lastSeen, h.cursor⟩

theorem submit_quiet (claude : AgentState T) (text : String) : Quiet claude (claude.submit text) := by
  have h := claude.insertUserTurn_quiet text .localSubmit false nofun
  exact ⟨h.serverManaged, h.generation, h.finalized, h.settled, h.authoritative, h.lastSeen,
    h.cursor⟩

/-- An echo advances the replay boundary of direct channels. -/
theorem echo_quiet (claude : AgentState T) (text : String) :
    Quiet claude (claude.insertUserTurn text .echo (!claude.serverManaged)) := by
  refine claude.insertUserTurn_quiet text .echo _ fun hadvance => ?_
  rw [Bool.not_eq_true'] at hadvance
  exact hadvance

/-! ### Replies -/

/-- A reply that is not the end of the replay. -/
theorem applyReplyEvent_quiet (claude : AgentState T) {event : ReplyEvent} (hevent : event ≠ .replayComplete) :
    (claude.applyReplyEvent event).2 = false ∧ Quiet claude (claude.applyReplyEvent event).1 := by
  cases event with
  | replayComplete => exact absurd rfl hevent
  | userMessage text => exact ⟨rfl, claude.echo_quiet text⟩
  | _ => exact ⟨rfl, rfl, rfl, rfl, rfl, rfl, rfl, fun _ => rfl⟩

theorem ReplayTurns.finishReplay_of_down {r : ReplayTurns} (h : r.replayTurn = 0) :
    r.finishReplay = r := by
  obtain ⟨lastSeen, replayTurn⟩ := r
  subst h
  simp [ReplayTurns.finishReplay]

theorem applyReplyEvent_replied (claude : AgentState T) (event : ReplyEvent) :
    ((claude.applyReplyEvent event).2 = true ↔ event = .replayComplete) ∧
      Replied (event = .replayComplete) claude (claude.applyReplyEvent event).1 := by
  by_cases hevent : event = .replayComplete
  · subst hevent
    refine ⟨iff_of_true rfl rfl, rfl, rfl, rfl, rfl, rfl, ?_, fun h => absurd rfl h, ?_⟩
    · exact Nat.le_max_right _ _
    · exact fun _ hdown => ReplayTurns.finishReplay_of_down hdown
  · obtain ⟨hno, hquiet⟩ := claude.applyReplyEvent_quiet hevent
    rw [hno]
    exact ⟨iff_of_false Bool.false_ne_true hevent, hquiet.replied⟩

theorem applyReplyEvents_cons (claude : AgentState T) (event : ReplyEvent) (events : List ReplyEvent) :
    claude.applyReplyEvents (event :: events) =
      (((claude.applyReplyEvent event).1.applyReplyEvents events).1,
        (claude.applyReplyEvent event).2 ||
          ((claude.applyReplyEvent event).1.applyReplyEvents events).2) := by
  -- The flag is an accumulator: start it anywhere.
  have hflag : ∀ (es : List ReplyEvent) (c : AgentState T) (b : Bool),
      es.foldl (fun (acc : AgentState T × Bool) event =>
        ((acc.1.applyReplyEvent event).1, acc.2 || (acc.1.applyReplyEvent event).2)) (c, b) =
      ((c.applyReplyEvents es).1, b || (c.applyReplyEvents es).2) := by
    intro es
    induction es with
    | nil =>
        intro c b
        simp [applyReplyEvents]
    | cons e es ih =>
        intro c b
        rw [applyReplyEvents, List.foldl_cons, List.foldl_cons, ih, ih]
        simp [Bool.or_assoc]
  rw [applyReplyEvents, List.foldl_cons, hflag]
  simp

theorem applyReplyEvents_spec (claude : AgentState T) (events : List ReplyEvent) :
    ((claude.applyReplyEvents events).2 = true ↔ .replayComplete ∈ events) ∧
      Replied (.replayComplete ∈ events) claude (claude.applyReplyEvents events).1 := by
  induction events generalizing claude with
  | nil =>
      refine ⟨iff_of_false Bool.false_ne_true List.not_mem_nil, ?_⟩
      exact (Quiet.refl claude).replied
  | cons event events ih =>
      obtain ⟨hflag, hfirst⟩ := claude.applyReplyEvent_replied event
      obtain ⟨hflags, hrest⟩ := ih (claude.applyReplyEvent event).1
      rw [applyReplyEvents_cons]
      refine ⟨?_, hfirst.trans (fun h => ?_) (fun h => ?_) hrest⟩
      · rw [Bool.or_eq_true, hflag, hflags, List.mem_cons, eq_comm]
      · rw [h]
        exact List.mem_cons_self
      · exact List.mem_cons_of_mem _ h

/-! ### Turn ends -/

/-- A turn end whose key is new. -/
theorem settleTurn_new {generation turn : Nat} {raiseUnread : Bool}
    (h : (generation, turn) ∉ claude.finalized) :
    claude.settleTurn generation turn raiseUnread =
      { claude.onScreen Screen.endTurn with
          finalized := (generation, turn) :: claude.finalized
          unread := claude.unread || raiseUnread
          settled := if raiseUnread then claude.settled ++ [turn] else claude.settled
          turnPhase := .idle } := by
  simp only [settleTurn, finalizeAgentTurnIdem, if_neg h]
  rfl

theorem settleTurn_old {generation turn : Nat} {raiseUnread : Bool}
    (h : (generation, turn) ∈ claude.finalized) :
    claude.settleTurn generation turn raiseUnread = claude := by
  simp only [settleTurn, finalizeAgentTurnIdem, if_pos h]

/-- A turn end, new or not. -/
structure Settled (claude : AgentState T) (key : Nat × Nat) (raiseUnread : Bool)
    (after : AgentState T) : Prop where
  serverManaged : after.serverManaged = claude.serverManaged
  generation : after.generation = claude.generation
  authoritative : after.agentStreamAuthoritative = claude.agentStreamAuthoritative
  replayTurns : after.replayTurns = claude.replayTurns
  filed : key ∈ after.finalized
  keys : ∀ k ∈ after.finalized, k ∈ claude.finalized ∨ k = key
  settled : after.settled =
    claude.settled ++ if raiseUnread ∧ key ∉ claude.finalized then [key.2] else []
  old : key ∈ claude.finalized → after = claude
  idle : key ∉ claude.finalized → after.turnPhase = .idle

theorem settleTurn_spec (claude : AgentState T) (generation turn : Nat) (raiseUnread : Bool) :
    Settled claude (generation, turn) raiseUnread
      (claude.settleTurn generation turn raiseUnread) := by
  by_cases hkey : (generation, turn) ∈ claude.finalized
  · rw [settleTurn_old hkey]
    refine ⟨rfl, rfl, rfl, rfl, hkey, fun _ => .inl, ?_, fun _ => rfl, fun hno => absurd hkey hno⟩
    rw [if_neg fun hand => hand.2 hkey, List.append_nil]
  · rw [settleTurn_new hkey]
    refine ⟨rfl, rfl, rfl, rfl, List.mem_cons_self, fun k hk => ?_, ?_, fun hyes => absurd hyes hkey,
      fun _ => rfl⟩
    · exact (List.mem_cons.1 hk).symm
    · cases raiseUnread
      · simp
      · simp [hkey]

end reducers

end AgentState

/-- A screen that shows nothing. -/
instance : Screen Unit where
  blank := ()
  chunk _ _ := id
  toolCallStarted _ _ := id
  toolCallUpdated _ _ := id
  systemNotice _ := id
  userTurn _ _ := id
  endTurn := id

end Yaldabaoth
