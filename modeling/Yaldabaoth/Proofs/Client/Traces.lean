import Yaldabaoth.Proofs.Client.Deliveries

/-!
# `Yaldabaoth.Proofs.Client.Traces`: the screen as a list of operations

The reducers do not look at what a tile shows. So a map of screens that
keeps the operations commutes with every reducer (`acts_mapScreen`), and
there is a freest screen, the list of the operations it was handed.
What is shown on any other screen is that list replayed
(`acts_screen_eq_replay`), which is why a statement about the order of
what a tile shows is made about the trace.
-/

set_option autoImplicit false

namespace Yaldabaoth

/-- One operation of `Screen`. -/
inductive ScreenOp where
  | chunk (turn : Nat) (text : String)
  | toolCallStarted (turn : Nat) (toolCall : ToolCall)
  | toolCallUpdated (turn : Nat) (update : ToolCallUpdate)
  | systemNotice (msg : String)
  | userTurn (turn : Nat) (text : String)
  | endTurn
deriving Repr, DecidableEq

/-- The operations in the order in which they came. -/
instance : Screen (List ScreenOp) where
  blank := []
  chunk turn text ops := ops ++ [.chunk turn text]
  toolCallStarted turn toolCall ops := ops ++ [.toolCallStarted turn toolCall]
  toolCallUpdated turn update ops := ops ++ [.toolCallUpdated turn update]
  systemNotice msg ops := ops ++ [.systemNotice msg]
  userTurn turn text ops := ops ++ [.userTurn turn text]
  endTurn ops := ops ++ [.endTurn]

/-- A map that keeps the operations. It may move the blank screen. -/
structure Screen.Hom {T T' : Type} [Screen T] [Screen T'] (f : T → T') : Prop where
  chunk : ∀ turn text x, f (Screen.chunk turn text x) = Screen.chunk turn text (f x)
  toolCallStarted : ∀ turn toolCall x,
    f (Screen.toolCallStarted turn toolCall x) = Screen.toolCallStarted turn toolCall (f x)
  toolCallUpdated : ∀ turn update x,
    f (Screen.toolCallUpdated turn update x) = Screen.toolCallUpdated turn update (f x)
  systemNotice : ∀ msg x, f (Screen.systemNotice msg x) = Screen.systemNotice msg (f x)
  userTurn : ∀ turn text x, f (Screen.userTurn turn text x) = Screen.userTurn turn text (f x)
  endTurn : ∀ x, f (Screen.endTurn x) = Screen.endTurn (f x)

namespace ScreenOp

variable {T : Type} [Screen T]

def perform : ScreenOp → T → T
  | .chunk turn text => Screen.chunk turn text
  | .toolCallStarted turn toolCall => Screen.toolCallStarted turn toolCall
  | .toolCallUpdated turn update => Screen.toolCallUpdated turn update
  | .systemNotice msg => Screen.systemNotice msg
  | .userTurn turn text => Screen.userTurn turn text
  | .endTurn => Screen.endTurn

/-- A trace, performed on a fresh tile. -/
def replay (ops : List ScreenOp) : T := ops.foldl (fun x op => op.perform x) Screen.blank

theorem replay_hom : Screen.Hom (replay : List ScreenOp → T) where
  chunk _ _ _ := by simp [replay, Screen.chunk, perform]
  toolCallStarted _ _ _ := by simp [replay, Screen.toolCallStarted, perform]
  toolCallUpdated _ _ _ := by simp [replay, Screen.toolCallUpdated, perform]
  systemNotice _ _ := by simp [replay, Screen.systemNotice, perform]
  userTurn _ _ _ := by simp [replay, Screen.userTurn, perform]
  endTurn _ := by simp [replay, Screen.endTurn, perform]

/-- What came before a trace does not change it. -/
theorem append_hom (before : List ScreenOp) : Screen.Hom (before ++ ·) where
  chunk _ _ _ := (List.append_assoc _ _ _).symm
  toolCallStarted _ _ _ := (List.append_assoc _ _ _).symm
  toolCallUpdated _ _ _ := (List.append_assoc _ _ _).symm
  systemNotice _ _ := (List.append_assoc _ _ _).symm
  userTurn _ _ _ := (List.append_assoc _ _ _).symm
  endTurn _ := (List.append_assoc _ _ _).symm

end ScreenOp

namespace AgentState

section map

variable {T T' : Type} {f : T → T'}

def mapScreen (f : T → T') (claude : AgentState T) : AgentState T' :=
  { claude with screen := f claude.screen }

variable (claude : AgentState T)

theorem registerUserTurn_mapScreen (text : String) (origin : UserTurnOrigin) (advance : Bool) :
    (claude.mapScreen f).registerUserTurn text origin advance =
      ((claude.registerUserTurn text origin advance).1.mapScreen f,
        (claude.registerUserTurn text origin advance).2) := by
  rcases hreconcile : claude.reconciler.reconcile origin text advance with ⟨reconciler, action⟩
  simp only [registerUserTurn, mapScreen, currentTurn, nextUnusedUserTurn, hreconcile]
  cases action with
  | skip => rfl
  | insert b =>
      cases b
      case false =>
        cases claude.userTurnKs.max? <;>
        · simp only [Bool.false_eq_true, if_false]
          split <;> rfl
      case true =>
        simp only [if_true]
        split <;> rfl

variable [Screen T] [Screen T'] (hf : Screen.Hom f)

include hf

theorem insertUserTurn_mapScreen (text : String) (origin : UserTurnOrigin) (advance : Bool) :
    (claude.mapScreen f).insertUserTurn text origin advance =
      (claude.insertUserTurn text origin advance).mapScreen f := by
  rw [insertUserTurn, insertUserTurn, registerUserTurn_mapScreen]
  cases claude.registerUserTurn text origin advance with
  | mk claude k =>
      cases k with
      | none => rfl
      | some k => simp only [mapScreen, onScreen, hf.userTurn]

theorem finalizeAgentTurnIdem_mapScreen (generation turn : Nat) (raiseUnread : Bool) :
    (claude.mapScreen f).finalizeAgentTurnIdem generation turn raiseUnread =
      ((claude.finalizeAgentTurnIdem generation turn raiseUnread).1.mapScreen f,
        (claude.finalizeAgentTurnIdem generation turn raiseUnread).2) := by
  simp only [finalizeAgentTurnIdem, mapScreen, onScreen, ← hf.endTurn]
  split <;> rfl

theorem settleTurn_mapScreen (generation turn : Nat) (raiseUnread : Bool) :
    (claude.mapScreen f).settleTurn generation turn raiseUnread =
      (claude.settleTurn generation turn raiseUnread).mapScreen f := by
  rw [settleTurn, settleTurn, finalizeAgentTurnIdem_mapScreen claude hf]
  rcases claude.finalizeAgentTurnIdem generation turn raiseUnread with ⟨claude, b⟩
  cases b <;> rfl

theorem settleAgentEffect_mapScreen (effect : AgentEventEffect) :
    (claude.mapScreen f).settleAgentEffect effect =
      (claude.settleAgentEffect effect).mapScreen f := by
  cases effect with
  | none => rfl
  | turnEnded generation turn => exact claude.settleTurn_mapScreen hf generation turn true
  | replayEnded =>
      simp only [settleAgentEffect, finalizeReplayPrefix, mapScreen, onScreen, ← hf.endTurn]
      by_cases hprefix : claude.replayPrefixFinalized = true
      · simp only [if_pos hprefix]
      · simp only [if_neg hprefix]
        split <;> rfl

theorem applyReplyEvent_mapScreen (event : ReplyEvent) :
    (claude.mapScreen f).applyReplyEvent event =
      ((claude.applyReplyEvent event).1.mapScreen f, (claude.applyReplyEvent event).2) := by
  cases event with
  | userMessage text =>
      exact congrArg (·, false) (claude.insertUserTurn_mapScreen hf text .echo _)
  | _ =>
      simp only [applyReplyEvent, mapScreen, onScreen, currentTurn, finishReplay, hf.chunk,
        hf.toolCallStarted, hf.toolCallUpdated, hf.systemNotice]

theorem applyReplyEvents_mapScreen (events : List ReplyEvent) :
    (claude.mapScreen f).applyReplyEvents events =
      ((claude.applyReplyEvents events).1.mapScreen f, (claude.applyReplyEvents events).2) := by
  induction events generalizing claude with
  | nil => rfl
  | cons event events ih =>
      rw [applyReplyEvents_cons, applyReplyEvents_cons, applyReplyEvent_mapScreen claude hf, ih]

theorem applyAgentKind_mapScreen (generation turn : Nat) (kind : AgentEventKind) :
    (claude.mapScreen f).applyAgentKind generation turn kind =
      ((claude.applyAgentKind generation turn kind).1.mapScreen f,
        (claude.applyAgentKind generation turn kind).2) := by
  cases kind with
  | userMessage text =>
      exact congrArg (·, AgentEventEffect.none) (claude.insertUserTurn_mapScreen hf text .echo _)
  | turnEnded outcome => cases outcome <;> rfl
  | _ =>
      simp only [applyAgentKind, mapScreen, onScreen, hf.chunk, hf.toolCallStarted,
        hf.toolCallUpdated, hf.systemNotice]

theorem observeAgentEvent_mapScreen (event : AgentEvent) :
    (claude.mapScreen f).observeAgentEvent event = (claude.observeAgentEvent event).mapScreen f := by
  have happly : (claude.mapScreen f).applyAgentEvent event =
      ((claude.applyAgentEvent event).1.mapScreen f, (claude.applyAgentEvent event).2) := by
    simp only [applyAgentEvent]
    show (if claude.generation < event.generation then
      ({ claude.beginServerGeneration with
          generation := event.generation } : AgentState T).mapScreen f |>.applyAgentKind
        event.generation event.turn event.kind
      else if event.generation < claude.generation then (claude.mapScreen f, .none)
      else (claude.mapScreen f).applyAgentKind event.generation event.turn event.kind) = _
    rw [applyAgentKind_mapScreen _ hf, applyAgentKind_mapScreen _ hf]
    split
    · rfl
    · split <;> rfl
  simp only [observeAgentEvent, happly]
  rw [settleAgentEffect_mapScreen _ hf]
  show (if claude.agentStreamAuthoritative || isBoundary event.kind ||
    decide (claude.generation < event.generation) then _ else _) = _
  split <;> rfl

theorem observeReplyRun_mapScreen (run : List ReplyEvent) :
    (claude.mapScreen f).observeReplyRun run = (claude.observeReplyRun run).mapScreen f := by
  simp only [observeReplyRun, applyReplyEvents_mapScreen claude hf]
  show (if run.isEmpty || claude.agentStreamAuthoritative then _ else _) = _
  split
  · rfl
  · rcases claude.applyReplyEvents run with ⟨claude, complete⟩
    cases complete with
    | false => rfl
    | true => exact claude.settleTurn_mapScreen hf _ _ _

theorem noteStatus_mapScreen (msg : String) :
    (claude.mapScreen f).noteStatus msg = (claude.noteStatus msg).mapScreen f := by
  simp only [noteStatus, mapScreen, onScreen, hf.systemNotice]

theorem observe_mapScreen (sid : ServerSessionId) (n : Notification) :
    (claude.mapScreen f).observe sid n = (claude.observe sid n).mapScreen f := by
  cases n with
  | agent event =>
      simp only [observe, claude.observeAgentEvent_mapScreen hf]
      split <;> rfl
  | turnEnded sessionId turnCount generation =>
      simp only [observe, observeTurnEnded]
      split
      · exact settleTurn_mapScreen
          { claude with
            reconciler := claude.reconciler.noteTurnProgressed
            replayTurns := { claude.replayTurns with lastSeen := turnCount } } hf _ _ _
      · rfl
  | userPrompt sessionId text =>
      simp only [observe, claude.insertUserTurn_mapScreen hf]
      split <;> rfl
  | sessionAttached sessionId acpSessionId =>
      simp only [observe, noteStatus_mapScreen claude hf]
      split <;> rfl
  | sessionDetached sessionId reason =>
      simp only [observe, noteStatus_mapScreen claude hf]
      split <;> rfl
  | promptRejected sessionId reason blocks =>
      simp only [observe, noteStatus_mapScreen claude hf]
      split <;> rfl
  | _ => rfl

theorem drain_mapScreen (sid : ServerSessionId) (ns : List Notification) (run : List ReplyEvent) :
    (claude.mapScreen f).drain sid run ns = (claude.drain sid run ns).mapScreen f := by
  induction ns generalizing claude run with
  | nil => exact claude.observeReplyRun_mapScreen hf run
  | cons n ns ih =>
      cases n with
      | replyEvent sessionId event =>
          simp only [drain, observeReplyRun_mapScreen claude hf, ih]
          split <;> rfl
      | _ => simp only [drain, observeReplyRun_mapScreen claude hf, observe_mapScreen _ hf, ih]

end map

section acts

variable {T T' : Type} [Screen T] [Screen T'] {f : T → T'} (hf : Screen.Hom f)

include hf

/-- A map that keeps the operations commutes with everything that reaches
a tile. -/
theorem acts_mapScreen (claude : AgentState T) (sid : ServerSessionId) (as : List TileAct) :
    (claude.mapScreen f).acts sid as = (claude.acts sid as).mapScreen f := by
  induction as generalizing claude with
  | nil => rfl
  | cons a as ih =>
      rw [acts, acts, List.foldl_cons, List.foldl_cons]
      cases a with
      | batch ns =>
          show (((claude.mapScreen f).drain sid [] ns).acts sid as) = _
          rw [drain_mapScreen claude hf, ih]
          rfl
      | submit text =>
          show (((claude.mapScreen f).submit text).acts sid as) = _
          rw [submit, insertUserTurn_mapScreen claude hf]
          exact ih (claude.submit text)

end acts

/-- What a fresh tile shows is its trace, replayed. -/
theorem acts_screen_eq_replay {T : Type} [Screen T] (serverManaged : Bool) (sid : ServerSessionId)
    (as : List TileAct) :
    ((fresh serverManaged : AgentState T).acts sid as).screen =
      ScreenOp.replay ((fresh serverManaged : AgentState (List ScreenOp)).acts sid as).screen :=
  congrArg screen (acts_mapScreen ScreenOp.replay_hom (fresh serverManaged) sid as)

/-- The trace that `as` adds to the screen of a tile. -/
def shown (sid : ServerSessionId) (claude : AgentState (List ScreenOp)) (as : List TileAct) :
    List ScreenOp :=
  ((claude.mapScreen fun _ => []).acts sid as).screen

/-- A tile only adds to what it shows. -/
theorem acts_screen_eq_append (claude : AgentState (List ScreenOp)) (sid : ServerSessionId)
    (as : List TileAct) :
    (claude.acts sid as).screen = claude.screen ++ claude.shown sid as := by
  have hcleared : (claude.mapScreen fun _ => []).mapScreen (claude.screen ++ ·) = claude := by
    simp [mapScreen]
  have hacts := acts_mapScreen (ScreenOp.append_hom claude.screen)
    (claude.mapScreen fun _ => []) sid as
  rw [hcleared] at hacts
  rw [hacts]
  rfl

end AgentState

end Yaldabaoth
