import Yaldabaoth.Model.Pump

/-!
# `Yaldabaoth.Proofs.Pump.Delivery`: what becomes of an emitted reply

Every reply a worker emits, `TurnSettled` apart, is at any moment in
one of three places: kept back by the replay fence, recorded, or still
held by the pump or the reply queue. `Accounted` says so with the order
of emission, and `accounted` proves it of every run.

A pump that keeps running sends what it holds (`sends_held`). The one
way out of its loop is the liveness check, which comes before the
drain: what the queue holds when the check fails is dropped with the
client. `intact_iff` says that this is the only loss, run by run: a
run loses nothing exactly when the queue is empty of replies at the
moment the pump finds its worker gone.
-/

set_option autoImplicit false

namespace Yaldabaoth

/-- The replies a transcript is made of: all but `TurnSettled`. -/
def liveReplies (events : List ReplyEvent) : List ReplyEvent :=
  events.filter (!·.isTurnSettled)

@[simp] theorem liveReplies_append (events events' : List ReplyEvent) :
    liveReplies (events ++ events') = liveReplies events ++ liveReplies events' :=
  List.filter_append ..

theorem liveReplies_eq_nil {events : List ReplyEvent} :
    liveReplies events = [] ↔ ∀ event ∈ events, event.isTurnSettled = true := by
  simp [liveReplies, List.filter_eq_nil_iff]

namespace PumpSend

/-- The reply a `Record` command carries. -/
@[simp] def recorded? : PumpSend → Option ReplyEvent
  | .record event => some event
  | _ => none

end PumpSend

/-- The recorded replies, in the order they were sent. -/
def recordedOf (sends : List PumpSend) : List ReplyEvent := sends.filterMap PumpSend.recorded?

@[simp] theorem recordedOf_append (sends sends' : List PumpSend) :
    recordedOf (sends ++ sends') = recordedOf sends ++ recordedOf sends' :=
  List.filterMap_append ..

@[simp] theorem recordedOf_record (events : List ReplyEvent) :
    recordedOf (events.map .record) = events := by
  induction events with
  | nil => rfl
  | cons event events ih => simpa [recordedOf] using ih

theorem recordedOf_replayDone (sends : List PumpSend) :
    recordedOf (.replayDone :: sends) = recordedOf sends := rfl

/-! ### One cycle -/

/-- The three things a raised fence does with a batch. -/
theorem ReplayFence.onBatch_cases (events : List ReplyEvent) (liveTurnEnded : Bool) :
    (∃ markerIndex, ReplayFence.onBatch { up := true } events liveTurnEnded =
        ({ up := false }, some (.clearAtMarker markerIndex))) ∨
      ReplayFence.onBatch { up := true } events liveTurnEnded =
        ({ up := false }, some .forceClear) ∨
      ReplayFence.onBatch { up := true } events liveTurnEnded =
        ({ up := true }, some .discard) := by
  unfold ReplayFence.onBatch
  cases hfind : events.findIdx? ReplyEvent.isReplayComplete with
  | some markerIndex => exact .inl ⟨markerIndex, by simp⟩
  | none =>
      cases liveTurnEnded with
      | true => exact .inr (.inl (by simp))
      | false => exact .inr (.inr (by simp))

namespace Pump

variable (pump : Pump)

/-- Forwarding records the batch and its tail. -/
theorem forward_recorded (events tailEvents : List ReplyEvent) (turnEnded : Bool)
    (currentTurns : Nat) (htail : turnEnded = false → tailEvents = []) :
    recordedOf (pump.forward events tailEvents turnEnded currentTurns).2 =
      events ++ tailEvents := by
  unfold forward
  cases turnEnded with
  | true =>
      rw [if_pos rfl]
      simp only [recordedOf_append, recordedOf_record]
      simp [recordedOf]
  | false =>
      rw [if_neg Bool.false_ne_true, htail rfl]
      simp

/-- Forwarding leaves the fence alone. -/
theorem forward_fence (events tailEvents : List ReplyEvent) (turnEnded : Bool)
    (currentTurns : Nat) :
    (pump.forward events tailEvents turnEnded currentTurns).1.fence = pump.fence := by
  unfold forward
  cases turnEnded <;> rfl

/-- Forwarding never reports a disconnect. -/
theorem forward_stays (events tailEvents : List ReplyEvent) (turnEnded : Bool)
    (currentTurns : Nat) :
    PumpSend.agentDisconnected ∉ (pump.forward events tailEvents turnEnded currentTurns).2 := by
  unfold forward
  cases turnEnded <;> simp

/-- What a batch comes to: first what the fence kept back, then what is
recorded. A fence that is down keeps nothing back and stays down, and
one that stays up lets nothing through. -/
structure Settles (pump : Pump) (batch : List ReplyEvent) (ending : CycleEnd) : Prop where
  split : batch = ending.discarded ++ recordedOf ending.sends
  lowered : pump.fence.up = false → ending.discarded = [] ∧ ending.pump.fence.up = false
  raised : ending.pump.fence.up = true → recordedOf ending.sends = []
  stays : PumpSend.agentDisconnected ∉ ending.sends

/-- Every batch is settled, whatever the fence does with it. -/
theorem pastFence_settles (events tailEvents : List ReplyEvent) (turnEnded : Bool)
    (currentTurns : Nat) (htail : turnEnded = false → tailEvents = []) :
    Settles pump (events ++ tailEvents)
      (pump.pastFence events tailEvents turnEnded currentTurns) := by
  obtain ⟨turnBase, lastTurns, outcomes, ⟨up⟩⟩ := pump
  have hnil : turnEnded = false → ([] : List ReplyEvent) = [] := fun _ => rfl
  unfold pastFence
  cases up with
  | false =>
      simp only [ReplayFence.isUp, Bool.false_eq_true, if_false]
      refine ⟨?_, fun _ => ⟨rfl, ?_⟩, ?_, forward_stays _ _ _ _ _⟩
      · rw [forward_recorded _ _ _ _ _ htail, List.nil_append]
      · rw [forward_fence]
      · intro hup
        rw [forward_fence] at hup
        cases hup
  | true =>
      simp only [ReplayFence.isUp, if_true]
      obtain ⟨markerIndex, hfence⟩ | hfence | hfence :=
        ReplayFence.onBatch_cases (events ++ tailEvents) turnEnded
      -- the marker is in the batch
      · simp only [hfence]
        refine ⟨?_, nofun, ?_, ?_⟩
        · have hrecorded := forward_recorded
            ⟨turnBase, lastTurns, outcomes, ⟨false⟩⟩
            ((events ++ tailEvents).drop markerIndex) [] turnEnded currentTurns hnil
          rw [List.append_nil] at hrecorded
          rw [recordedOf_replayDone, hrecorded]
          exact (List.take_append_drop ..).symm
        · intro hup
          rw [forward_fence] at hup
          cases hup
        · simp [forward_stays]
      -- a turn ended without it
      · simp only [hfence]
        refine ⟨?_, nofun, ?_, ?_⟩
        · have hrecorded := forward_recorded
            ⟨turnBase, lastTurns, outcomes, ⟨false⟩⟩
            (events ++ tailEvents) [] turnEnded currentTurns hnil
          rw [List.append_nil] at hrecorded
          rw [recordedOf_replayDone, hrecorded]
          rfl
        · intro hup
          rw [forward_fence] at hup
          cases hup
        · simp [forward_stays]
      -- the replay goes on
      · simp only [hfence]
        exact ⟨by simp [recordedOf], nofun, fun _ => rfl, by simp⟩

/-- A cycle settles all it drained. -/
theorem finish_settles (events tailEvents : List ReplyEvent) (morePending : Bool)
    (currentTurns : Nat)
    (htail : pump.turnEnded morePending currentTurns = false → tailEvents = []) :
    Settles pump (liveReplies (events ++ tailEvents))
      (pump.finish events tailEvents morePending currentTurns) := by
  unfold finish
  rw [liveReplies_append]
  have htail' : pump.turnEnded morePending currentTurns = false → liveReplies tailEvents = [] := by
    intro h
    rw [htail h]
    rfl
  obtain ⟨hsplit, hlowered, hraised, hstays⟩ := pastFence_settles
    { pump with settledOutcomes := (pump.settledOutcomes.absorb events).absorb tailEvents }
    (liveReplies events) (liveReplies tailEvents) (pump.turnEnded morePending currentTurns)
    currentTurns htail'
  exact ⟨hsplit, hlowered, hraised, hstays⟩

end Pump

/-! ### A run of the pump and its worker -/

namespace PumpRun

/-- The replies a pump drained and has not settled yet. -/
def batch (s : PumpRun) : List ReplyEvent :=
  match s.phase with
  | .draining events => events
  | .counting events _ => events
  | .tailing events _ tailEvents => events ++ tailEvents
  | _ => []

/-- The live replies that are neither kept back nor sent: the drained
ones, then those in the queue. -/
def held (s : PumpRun) : List ReplyEvent := liveReplies (s.batch ++ s.link.replies)

/-- Where every emitted reply is, and what the fence and the phase say
about what was sent. -/
structure Accounted (s : PumpRun) : Prop where
  emitted : liveReplies s.emitted = s.discarded ++ recordedOf s.sent ++ s.held
  fence : s.pump.fence.up = true → recordedOf s.sent = []
  running : s.phase ≠ .done → PumpSend.agentDisconnected ∉ s.sent
  stopped : s.phase = .done → s.link.connected = false ∧
    ∃ sends, s.sent = sends ++ [.agentDisconnected] ∧ PumpSend.agentDisconnected ∉ sends
  tailing : ∀ {events currentTurns tailEvents}, s.phase = .tailing events currentTurns tailEvents →
    s.pump.turnEnded false currentTurns = true

theorem accounted_start (initialReplayFence turnBase : Nat) :
    Accounted (start initialReplayFence turnBase) where
  emitted := rfl
  fence _ := rfl
  running _ := by simp [start]
  stopped := nofun
  tailing := nofun

/-- Settling a batch moves it out of the pump's hands. -/
theorem accounted_finish {s : PumpRun} (h : Accounted s) (hphase : s.phase ≠ .done)
    {events tailEvents : List ReplyEvent} {morePending : Bool} {currentTurns : Nat}
    (hbatch : s.batch = events ++ tailEvents)
    (htail : s.pump.turnEnded morePending currentTurns = false → tailEvents = []) :
    Accounted (s.finish events tailEvents morePending currentTurns) := by
  obtain ⟨hsplit, hlowered, hraised, hstays⟩ :=
    s.pump.finish_settles events tailEvents morePending currentTurns htail
  have hheld : s.held = liveReplies (events ++ tailEvents) ++ liveReplies s.link.replies := by
    rw [held, hbatch, liveReplies_append]
  refine ⟨?_, ?_, ?_, nofun, nofun⟩
  · have hemitted := h.emitted
    rw [hheld, hsplit] at hemitted
    simp only [finish, held, batch, List.nil_append, recordedOf_append]
    rw [hemitted]
    cases hup : s.pump.fence.up with
    | true => simp [h.fence hup]
    | false => simp [(hlowered hup).1]
  · intro hup
    simp only [finish, recordedOf_append] at hup ⊢
    cases hbefore : s.pump.fence.up with
    | true => rw [h.fence hbefore, hraised hup]; rfl
    | false => rw [(hlowered hbefore).2] at hup; cases hup
  · intro _
    simp only [finish, List.mem_append, not_or]
    exact ⟨h.running hphase, hstays⟩

/-- A step that hands replies on without settling any. -/
theorem accounted_of_held {s s' : PumpRun} (h : Accounted s) (hphase : s.phase ≠ .done)
    (hphase' : s'.phase ≠ .done) (hemitted : s'.emitted = s.emitted) (hpump : s'.pump = s.pump)
    (hsent : s'.sent = s.sent) (hdiscarded : s'.discarded = s.discarded)
    (hheld : s'.batch ++ s'.link.replies = s.batch ++ s.link.replies)
    (htailing : ∀ {events currentTurns tailEvents},
      s'.phase = .tailing events currentTurns tailEvents →
        s.pump.turnEnded false currentTurns = true) : Accounted s' where
  emitted := by rw [hemitted, hdiscarded, hsent, held, hheld]; exact h.emitted
  fence := by rw [hpump, hsent]; exact h.fence
  running _ := by rw [hsent]; exact h.running hphase
  stopped hdone := absurd hdone hphase'
  tailing h' := by rw [hpump]; exact htailing h'

/-- One read of the pump. -/
theorem accounted_cycle {s s' : PumpRun} (h : Accounted s) (hs : s.cycle = some s') :
    Accounted s' := by
  unfold cycle at hs
  cases hphase : s.phase with
  | top =>
      have hrunning : s.phase ≠ .done := by rw [hphase]; exact PumpPhase.noConfusion
      simp only [hphase] at hs
      split at hs
      · rename_i hgone
        cases hs
        refine ⟨?_, ?_, fun hne => absurd rfl hne, fun _ => ⟨by simpa using hgone, ?_⟩, nofun⟩
        · have hemitted := h.emitted
          simp only [held, batch, hphase] at hemitted ⊢
          rw [hemitted, recordedOf_append]
          simp [recordedOf]
        · intro hup
          rw [recordedOf_append, h.fence hup]
          rfl
        · exact ⟨s.sent, rfl, h.running hrunning⟩
      · cases hs
        exact accounted_of_held h hrunning PumpPhase.noConfusion rfl rfl rfl rfl
          (by simp [batch, hphase]) nofun
  | draining events =>
      have hrunning : s.phase ≠ .done := by rw [hphase]; exact PumpPhase.noConfusion
      simp only [hphase] at hs
      split at hs
      · cases hs
        exact accounted_of_held h hrunning PumpPhase.noConfusion rfl rfl rfl rfl
          (by simp [batch, hphase]) nofun
      · rename_i event replies hreplies
        split at hs
        all_goals
          cases hs
          exact accounted_of_held h hrunning PumpPhase.noConfusion rfl rfl rfl rfl
            (by simp [batch, hphase, hreplies]) nofun
  | counting events morePending =>
      have hrunning : s.phase ≠ .done := by rw [hphase]; exact PumpPhase.noConfusion
      simp only [hphase] at hs
      split at hs
      · rename_i hended
        cases hs
        refine accounted_of_held h hrunning PumpPhase.noConfusion rfl rfl rfl rfl
          (by simp [batch, hphase]) ?_
        intro _ _ _ htailing
        -- only the last cycle of a turn gets here, and there nothing was left to drain
        cases morePending with
        | true => simp [Pump.turnEnded] at hended
        | false => cases htailing; exact hended
      · cases hs
        exact accounted_finish h hrunning (by simp [batch, hphase]) fun _ => rfl
  | tailing events currentTurns tailEvents =>
      have hrunning : s.phase ≠ .done := by rw [hphase]; exact PumpPhase.noConfusion
      simp only [hphase] at hs
      split at hs
      · cases hs
        refine accounted_finish h hrunning (by simp [batch, hphase]) fun hnone => ?_
        rw [h.tailing hphase] at hnone
        cases hnone
      · rename_i event replies hreplies
        cases hs
        refine accounted_of_held h hrunning PumpPhase.noConfusion rfl rfl rfl rfl
          (by simp [batch, hphase, hreplies]) ?_
        intro _ _ _ htailing
        cases htailing
        exact h.tailing hphase
  | done => simp [hphase] at hs

/-- One step of either thread keeps the account. -/
theorem accounted_step {s s' : PumpRun} {a : PumpAct} (h : Accounted s)
    (hs : s.step a = some s') : Accounted s' := by
  cases a with
  | cycle => exact accounted_cycle h hs
  | emit event =>
      simp only [step, Option.ite_none_right_eq_some] at hs
      obtain ⟨hconnected, hs⟩ := hs
      cases hs
      refine ⟨?_, h.fence, h.running, fun hdone => ?_, h.tailing⟩
      · have hemitted := h.emitted
        simp only [held, batch, liveReplies_append] at hemitted ⊢
        rw [hemitted]
        simp only [List.append_assoc]
      · rw [(h.stopped hdone).1] at hconnected
        cases hconnected
  | countTurn =>
      simp only [step, Option.ite_none_right_eq_some] at hs
      obtain ⟨-, hs⟩ := hs
      cases hs
      exact ⟨h.emitted, h.fence, h.running, h.stopped, h.tailing⟩
  | disconnect =>
      simp only [step, Option.ite_none_right_eq_some] at hs
      obtain ⟨-, hs⟩ := hs
      cases hs
      exact ⟨h.emitted, h.fence, h.running, fun hdone => ⟨rfl, (h.stopped hdone).2⟩, h.tailing⟩

/-- Every run accounts for every reply. -/
theorem accounted_run {acts : List PumpAct} {s s' : PumpRun} (h : Accounted s)
    (hrun : machine.run s acts = some s') : Accounted s' := by
  induction acts generalizing s with
  | nil =>
      cases hrun
      exact h
  | cons a rest ih =>
      obtain ⟨next, hnext, hrest⟩ := Option.bind_eq_some_iff.1 hrun
      exact ih (accounted_step h hnext) hrest

/-- No reply is lost: all were recorded once and in order, or kept back
by the fence, or are still on their way to a pump that is running; and
nothing is sent behind `AgentDisconnected`. -/
structure Intact (s : PumpRun) : Prop where
  replies : liveReplies s.emitted =
    s.discarded ++ recordedOf s.sent ++ (if s.phase = .done then [] else s.held)
  last : ∀ sends rest, s.sent = sends ++ .agentDisconnected :: rest → rest = []

/-- When the liveness check fails, the queue holds no reply. -/
def LeavesNothing (s : PumpRun) (a : PumpAct) : Prop :=
  a = .cycle → s.phase = .top → s.link.connected = false →
    ∀ event ∈ s.link.replies, event.isTurnSettled = true

instance (s : PumpRun) (a : PumpAct) : Decidable (s.LeavesNothing a) :=
  inferInstanceAs (Decidable (a = .cycle → s.phase = .top → s.link.connected = false →
    ∀ event ∈ s.link.replies, event.isTurnSettled = true))

/-- Only what is still held when the pump is done is lost. -/
theorem intact_of_accounted {s : PumpRun} (h : Accounted s) :
    s.Intact ↔ (s.phase = .done → s.held = []) := by
  constructor
  · intro hintact hdone
    have hreplies := hintact.replies
    rw [if_pos hdone, h.emitted, List.append_nil] at hreplies
    exact List.append_cancel_left (hreplies.trans (List.append_nil _).symm)
  · intro hheld
    refine ⟨?_, ?_⟩
    · rw [h.emitted]
      by_cases hdone : s.phase = .done
      · rw [if_pos hdone, hheld hdone]
      · rw [if_neg hdone]
    · intro sends rest hsent
      by_cases hdone : s.phase = .done
      · obtain ⟨-, before, hbefore, hnot⟩ := h.stopped hdone
        -- the command is the last one, and there is no other
        rw [hbefore] at hsent
        cases hrest : rest.reverse with
        | nil => exact List.reverse_eq_nil_iff.1 hrest
        | cons x xs =>
            have hx : rest = xs.reverse ++ [x] := by
              rw [← List.reverse_reverse rest, hrest, List.reverse_cons]
            rw [hx, ← List.cons_append, ← List.append_assoc] at hsent
            have hprev := List.append_inj_left' hsent rfl
            exact absurd (hprev ▸ by simp) hnot
      · exact absurd (hsent ▸ by simp) (h.running hdone)

/-- A pump is done by a failed liveness check and in no other way. -/
theorem exit_of_done {s s' : PumpRun} {a : PumpAct} (h : Accounted s)
    (hs : s.step a = some s') (hdone : s'.phase = .done) :
    a = .cycle ∧ s.phase = .top ∧ s.link.connected = false := by
  have hlive : s.link.connected = true → s.phase ≠ .done := by
    intro hconnected hphase
    rw [(h.stopped hphase).1] at hconnected
    cases hconnected
  cases a with
  | cycle =>
      refine ⟨rfl, ?_⟩
      simp only [step, cycle] at hs
      cases hphase : s.phase with
      | top =>
          refine ⟨rfl, ?_⟩
          simp only [hphase] at hs
          split at hs
          · rename_i hgone
            simpa using hgone
          · cases hs
            cases hdone
      | draining events =>
          simp only [hphase] at hs
          split at hs
          · cases hs
            cases hdone
          · split at hs <;> cases hs <;> cases hdone
      | counting events morePending =>
          simp only [hphase] at hs
          split at hs <;> cases hs <;> cases hdone
      | tailing events currentTurns tailEvents =>
          simp only [hphase] at hs
          split at hs <;> cases hs <;> cases hdone
      | done => simp [hphase] at hs
  | emit event =>
      simp only [step, Option.ite_none_right_eq_some] at hs
      obtain ⟨hconnected, hs⟩ := hs
      cases hs
      exact absurd hdone (hlive hconnected)
  | countTurn =>
      simp only [step, Option.ite_none_right_eq_some] at hs
      obtain ⟨hconnected, hs⟩ := hs
      cases hs
      exact absurd hdone (hlive hconnected)
  | disconnect =>
      simp only [step, Option.ite_none_right_eq_some] at hs
      obtain ⟨hconnected, hs⟩ := hs
      cases hs
      exact absurd hdone (hlive hconnected)

/-- A step loses a reply exactly when it is the failed liveness check
with a reply in the queue. -/
theorem intact_step {s s' : PumpRun} {a : PumpAct} (h : Accounted s)
    (hs : s.step a = some s') : s'.Intact ↔ s.LeavesNothing a := by
  rw [intact_of_accounted (accounted_step h hs)]
  by_cases hexit : a = .cycle ∧ s.phase = .top ∧ s.link.connected = false
  · obtain ⟨rfl, hphase, hgone⟩ := hexit
    simp only [step, cycle, hphase, hgone, Bool.not_false, if_true, Option.some.injEq] at hs
    subst hs
    simp [LeavesNothing, hphase, hgone, held, batch, liveReplies_eq_nil]
  · have hleaves : s.LeavesNothing a := fun ha hphase hgone =>
      absurd ⟨ha, hphase, hgone⟩ hexit
    exact ⟨fun _ => hleaves, fun _ hdone => absurd (exit_of_done h hs hdone) hexit⟩

/-- A run loses nothing exactly when every failed liveness check of it
finds the queue empty of replies. -/
theorem intact_run {acts : List PumpAct} {s s' : PumpRun} (h : Accounted s)
    (hrun : machine.run s acts = some s') :
    s'.Intact ↔ s.Intact ∧ machine.Obeys LeavesNothing s acts := by
  induction acts generalizing s with
  | nil =>
      cases hrun
      exact ⟨fun hintact => ⟨hintact, trivial⟩, And.left⟩
  | cons a rest ih =>
      obtain ⟨next, hnext, hrest⟩ := Option.bind_eq_some_iff.1 hrun
      rw [ih (accounted_step h hnext) hrest, intact_step h hnext]
      have hrunning : s.phase ≠ .done := by
        intro hdone
        have hgone := (h.stopped hdone).1
        cases a <;> simp [machine, step, cycle, hdone, hgone] at hnext
      have hintact : s.Intact := (intact_of_accounted h).2 fun hdone => absurd hdone hrunning
      constructor
      · rintro ⟨hleaves, hobeys⟩
        refine ⟨hintact, hleaves, fun t ht => ?_⟩
        rw [Option.mem_def, hnext] at ht
        cases ht
        exact hobeys
      · rintro ⟨-, hleaves, hobeys⟩
        exact ⟨hleaves, hobeys next hnext⟩

/-! ### Nothing stays held -/

/-- How far a pump is from having drained its queue. -/
def weight (s : PumpRun) : Nat :=
  4 * s.link.replies.length +
    match s.phase with
    | .draining _ => 4
    | .counting _ _ => 3
    | .tailing _ _ _ => 2
    | _ => 1

/-- Left alone with a live worker, a pump settles all it holds. -/
theorem drains {s : PumpRun} (hphase : s.phase ≠ .done) (hconnected : s.link.connected = true) :
    ∃ n s', machine.run s (List.replicate n .cycle) = some s' ∧ s'.emitted = s.emitted ∧
      s'.phase = .top ∧ s'.link.replies = [] := by
  induction hn : s.weight using Nat.strongRecOn generalizing s with
  | ind w ih =>
    -- one read that brings the pump closer, and the rest by induction
    have next {t : PumpRun} (ht : s.cycle = some t) (hlt : t.weight < w) (htphase : t.phase ≠ .done)
        (htconnected : t.link.connected = true) (htemitted : t.emitted = s.emitted) :
        ∃ n s', machine.run s (List.replicate n .cycle) = some s' ∧ s'.emitted = s.emitted ∧
          s'.phase = .top ∧ s'.link.replies = [] := by
      obtain ⟨n, s', hrun, hemitted, hend⟩ := ih _ hlt htphase htconnected rfl
      refine ⟨n + 1, s', ?_, hemitted.trans htemitted, hend⟩
      rw [List.replicate_succ, Machine.run, show machine.step s .cycle = some t from ht]
      exact hrun
    subst hn
    cases hp : s.phase with
    | done => exact absurd hp hphase
    | top =>
        cases hreplies : s.link.replies with
        | nil => exact ⟨0, s, rfl, rfl, hp, hreplies⟩
        | cons event replies =>
            -- the check and the first receive together bring it closer
            let t : PumpRun := { s with
              link := { s.link with replies }, phase := .draining [event] }
            have hlt : t.weight < s.weight := by
              simp only [weight, t, hp, hreplies, List.length_cons]
              omega
            obtain ⟨n, s', hrun, hend⟩ := ih (s := t) _ hlt PumpPhase.noConfusion hconnected rfl
            refine ⟨n + 2, s', ?_, hend⟩
            have hcheck : machine.step s .cycle = some { s with phase := .draining [] } := by
              simp [machine, step, cycle, hp, hconnected]
            have hfirst : machine.step { s with phase := .draining [] } .cycle = some t := by
              simp [machine, step, cycle, hreplies, pumpEventBudget, t]
            rw [List.replicate_succ, List.replicate_succ, Machine.run, hcheck]
            simp only [Option.bind_some]
            rw [Machine.run, hfirst]
            exact hrun
    | draining events =>
        cases hreplies : s.link.replies with
        | nil =>
            refine next (t := { s with phase := .counting events false }) ?_ ?_
              PumpPhase.noConfusion hconnected rfl
            · simp [cycle, hp, hreplies]
            · simp [weight, hp]
        | cons event replies =>
            by_cases hbudget : events.length < pumpEventBudget
            · refine next (t := { s with
                link := { s.link with replies }, phase := .draining (events ++ [event]) }) ?_ ?_
                PumpPhase.noConfusion hconnected rfl
              · simp [cycle, hp, hreplies, hbudget]
              · simp only [weight, hp, hreplies, List.length_cons]
                omega
            · refine next (t := { s with
                link := { s.link with replies }, phase := .counting (events ++ [event]) true }) ?_ ?_
                PumpPhase.noConfusion hconnected rfl
              · simp [cycle, hp, hreplies, hbudget]
              · simp only [weight, hp, hreplies, List.length_cons]
                omega
    | counting events morePending =>
        cases hended : s.pump.turnEnded morePending s.link.turns with
        | true =>
            refine next (t := { s with phase := .tailing events s.link.turns [] }) ?_ ?_
              PumpPhase.noConfusion hconnected rfl
            · simp [cycle, hp, hended]
            · simp [weight, hp]
        | false =>
            refine next (t := s.finish events [] morePending s.link.turns) ?_ ?_
              PumpPhase.noConfusion hconnected rfl
            · simp [cycle, hp, hended]
            · simp [weight, hp, finish]
    | tailing events currentTurns tailEvents =>
        cases hreplies : s.link.replies with
        | nil =>
            refine next (t := s.finish events tailEvents false currentTurns) ?_ ?_
              PumpPhase.noConfusion hconnected rfl
            · simp [cycle, hp, hreplies]
            · simp [weight, hp, finish]
        | cons event replies =>
            refine next (t := { s with
              link := { s.link with replies }
              phase := .tailing events currentTurns (tailEvents ++ [event]) }) ?_ ?_
              PumpPhase.noConfusion hconnected rfl
            · simp [cycle, hp, hreplies]
            · simp only [weight, hp, hreplies, List.length_cons]
              omega

/-- From any state with a live worker the pump settles all that was
emitted so far, if it gets to run. -/
theorem sends_held {s : PumpRun} (h : Accounted s) (hconnected : s.link.connected = true) :
    ∃ n s', machine.run s (List.replicate n .cycle) = some s' ∧
      liveReplies s.emitted = s'.discarded ++ recordedOf s'.sent := by
  have hrunning : s.phase ≠ .done := by
    intro hdone
    rw [(h.stopped hdone).1] at hconnected
    cases hconnected
  obtain ⟨n, s', hrun, hemitted, hphase, hreplies⟩ := drains hrunning hconnected
  refine ⟨n, s', hrun, ?_⟩
  have haccount := (accounted_run h hrun).emitted
  rw [← hemitted, haccount]
  simp [held, batch, hphase, hreplies, liveReplies]

/-! ### No live event is lost -/

/-- Over a run of a fresh pump, whatever its fence, turn base and
worker do: no reply is lost exactly when each failed liveness check of
the run finds no reply in the queue; and as long as the worker lives,
the pump needs only to go on to have settled all that was emitted. -/
theorem intact_iff (initialReplayFence turnBase : Nat) (acts : List PumpAct) {s : PumpRun}
    (hrun : machine.run (start initialReplayFence turnBase) acts = some s) :
    (s.Intact ↔ machine.Obeys LeavesNothing (start initialReplayFence turnBase) acts) ∧
      (s.link.connected = true → ∃ n s', machine.run s (List.replicate n .cycle) = some s' ∧
        liveReplies s.emitted = s'.discarded ++ recordedOf s'.sent) := by
  have hstart := accounted_start initialReplayFence turnBase
  refine ⟨?_, sends_held (accounted_run hstart hrun)⟩
  rw [intact_run hstart hrun]
  have hintact : (start initialReplayFence turnBase).Intact :=
    (intact_of_accounted hstart).2 nofun
  exact and_iff_right hintact

/-- A turn of a resumed session: a replayed reply, the marker, a live
reply, the turn end, and the worker's exit after the pump came round. -/
def resumedTurn : List PumpAct :=
  [.emit (.chunk "old"), .emit .replayComplete, .emit (.chunk "new"), .countTurn,
    .emit (.turnSettled 1 .completed)] ++ List.replicate 8 .cycle ++ [.disconnect, .cycle]

theorem intact_iff_resumedTurn :
    ∃ s, machine.run (start 1 1) resumedTurn = some s ∧ s.Intact ∧
      s.discarded = [.chunk "old"] ∧
      s.sent = [.replayDone, .record .replayComplete, .record (.chunk "new"),
        .turnCount 2 .completed, .agentDisconnected] := by
  exact ⟨_, rfl, (intact_iff 1 1 resumedTurn rfl).1.2 (by decide), rfl, rfl⟩

/-- A worker that reports an error and goes away between two cycles:
the pump finds it gone and never looks at the queue. -/
theorem last_reply_lost :
    ∃ s, machine.run (start 0 0) [.emit (.notice "agent error: gone"), .disconnect, .cycle] =
        some s ∧
      s.sent = [.agentDisconnected] ∧ s.discarded = [] ∧
      s.emitted = [.notice "agent error: gone"] ∧ ¬ s.Intact := by
  refine ⟨_, rfl, rfl, rfl, rfl, fun h => ?_⟩
  exact absurd h.replies (by decide)

end PumpRun
end Yaldabaoth
