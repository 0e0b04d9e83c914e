import Yaldabaoth.Model.Server
import Yaldabaoth.Proofs.Pump.Delivery

/-!
# `Yaldabaoth.Proofs.Pump.Stamp`: the pump behind its stamp

The actor knows a pump by its stamp: a generation, and the turn count
it reported last. The server's machine lets a stamp send what
`PumpStamp.sends` allows. `sends_allowed` proves that the pump thread,
cycling beside its worker, never sends anything else: its turn counts
start above the turn base it was published with and increase, however
many turns the worker counts between two cycles, and
`AgentDisconnected` comes last. The worker is one that ends no live
turn with the marker of a replay.
-/

set_option autoImplicit false

namespace Yaldabaoth

/-! ### What a stamp allows -/

/-- A stamp may send a list, and this is the stamp behind it: none once
the pump is gone. -/
def PumpStamp.Allows (stamp : PumpStamp) : List PumpSend → Option PumpStamp → Prop
  | [], after => after = some stamp
  | send :: rest, after => stamp.sends send ∧
      match stamp.after send with
      | none => rest = [] ∧ after = none
      | some stamp' => Allows stamp' rest after

namespace PumpStamp

variable {stamp stamp' : PumpStamp}

theorem Allows.append {sends sends' : List PumpSend} {after : Option PumpStamp}
    (h : stamp.Allows sends (some stamp')) (h' : stamp'.Allows sends' after) :
    stamp.Allows (sends ++ sends') after := by
  induction sends generalizing stamp with
  | nil =>
      cases h
      exact h'
  | cons send rest ih =>
      obtain ⟨hsends, hrest⟩ := h
      refine ⟨hsends, ?_⟩
      cases hafter : stamp.after send with
      | none =>
          rw [hafter] at hrest
          cases hrest.2
      | some next =>
          rw [hafter] at hrest
          exact ih hrest

theorem allows_records (stamp : PumpStamp) (events : List ReplyEvent) :
    stamp.Allows (events.map .record) (some stamp) := by
  induction events with
  | nil => rfl
  | cons event rest ih => exact ⟨trivial, ih⟩

theorem allows_turnCount {turns : Nat} {outcome : TurnOutcome} (hlater : stamp.reported < turns)
    (hlive : outcome ≠ .replayEnd) :
    stamp.Allows [.turnCount turns outcome] (some { stamp with reported := turns }) :=
  ⟨⟨hlater, hlive⟩, rfl⟩

end PumpStamp

/-! ### Outcomes of live turns -/

/-- A reply that ends no live turn as a replay. -/
def ReplyEvent.Live (event : ReplyEvent) : Prop := ∀ count, event ≠ .turnSettled count .replayEnd

namespace SettledOutcomes

/-- No outcome is that of a replay. -/
def Live (outcomes : SettledOutcomes) : Prop := ∀ entry ∈ outcomes, entry.2 ≠ .replayEnd

theorem Live.insert {outcomes : SettledOutcomes} (h : outcomes.Live) (count : Nat)
    {outcome : TurnOutcome} (hlive : outcome ≠ .replayEnd) : (outcomes.insert count outcome).Live := by
  intro entry hentry
  rcases List.mem_cons.1 hentry with rfl | hentry
  · exact hlive
  · exact h entry (List.mem_of_mem_filter hentry)

theorem Live.absorb {outcomes : SettledOutcomes} (h : outcomes.Live) {events : List ReplyEvent}
    (hevents : ∀ event ∈ events, event.Live) : (outcomes.absorb events).Live := by
  induction events generalizing outcomes with
  | nil => exact h
  | cons event rest ih =>
      have hrest : ∀ event ∈ rest, event.Live := fun e he => hevents e (List.mem_cons_of_mem event he)
      cases event with
      | turnSettled count outcome =>
          have hlive : outcome ≠ .replayEnd := by
            rintro rfl
            exact hevents _ List.mem_cons_self count rfl
          exact ih (h.insert count hlive) hrest
      | _ => exact ih h hrest

/-- The outcome taken for a boundary is a live one, and live ones are
left. -/
theorem Live.take {outcomes : SettledOutcomes} (h : outcomes.Live) (previousTurns currentTurns : Nat) :
    (takeSettledOutcome outcomes previousTurns currentTurns).1 ≠ .replayEnd ∧
      SettledOutcomes.Live (takeSettledOutcome outcomes previousTurns currentTurns).2 := by
  refine ⟨?_, fun entry hentry => h entry (List.mem_of_mem_filter hentry)⟩
  unfold takeSettledOutcome
  simp only
  split
  · cases hlookup : outcomes.lookup currentTurns with
    | none => exact nofun
    | some outcome =>
        have hmem : (currentTurns, outcome) ∈ outcomes := by
          obtain ⟨l, l', hsplit, -⟩ := List.lookup_eq_some_iff.1 hlookup
          rw [hsplit]
          exact List.mem_append_right l List.mem_cons_self
        exact h _ hmem
  · exact nofun

end SettledOutcomes

namespace Pump

variable (pump : Pump)

/-- The stamp of a pump of a generation. -/
def stamp (generation : Nat) : PumpStamp :=
  { generation, reported := pump.turnBase + pump.lastTurns }

/-- What a cycle sends is allowed, and leaves the stamp of the pump
behind it. -/
structure Stamped (generation : Nat) (pump pump' : Pump) (sends : List PumpSend) : Prop where
  allows : (pump.stamp generation).Allows sends (some (pump'.stamp generation))
  base : pump'.turnBase = pump.turnBase
  live : pump'.settledOutcomes.Live

theorem forward_stamped (generation : Nat) (hlive : pump.settledOutcomes.Live)
    (events tailEvents : List ReplyEvent) (turnEnded : Bool) (currentTurns : Nat)
    (hcounted : turnEnded = true → pump.lastTurns < currentTurns) :
    Stamped generation pump (pump.forward events tailEvents turnEnded currentTurns).1
      (pump.forward events tailEvents turnEnded currentTurns).2 := by
  unfold forward
  cases turnEnded with
  | false => exact ⟨PumpStamp.allows_records _ events, rfl, hlive⟩
  | true =>
      obtain ⟨houtcome, hkept⟩ := hlive.take pump.lastTurns currentTurns
      have hlater : (pump.stamp generation).reported < pump.turnBase + currentTurns :=
        Nat.add_lt_add_left (hcounted rfl) pump.turnBase
      refine ⟨?_, rfl, hkept⟩
      have hrecords := (PumpStamp.allows_records (pump.stamp generation) events).append
        (PumpStamp.allows_records _ tailEvents)
      exact hrecords.append (PumpStamp.allows_turnCount hlater houtcome)

theorem pastFence_stamped (generation : Nat) (hlive : pump.settledOutcomes.Live)
    (events tailEvents : List ReplyEvent) (turnEnded : Bool) (currentTurns : Nat)
    (hcounted : turnEnded = true → pump.lastTurns < currentTurns) :
    Stamped generation pump (pump.pastFence events tailEvents turnEnded currentTurns).pump
      (pump.pastFence events tailEvents turnEnded currentTurns).sends := by
  obtain ⟨turnBase, lastTurns, outcomes, ⟨up⟩⟩ := pump
  unfold pastFence
  cases up with
  | false =>
      simp only [ReplayFence.isUp, Bool.false_eq_true, if_false]
      exact forward_stamped _ generation hlive events tailEvents turnEnded currentTurns hcounted
  | true =>
      simp only [ReplayFence.isUp, if_true]
      have hforward (events : List ReplyEvent) := forward_stamped
        ⟨turnBase, lastTurns, outcomes, ⟨false⟩⟩ generation hlive events [] turnEnded currentTurns
        hcounted
      obtain ⟨markerIndex, hfence⟩ | hfence | hfence :=
        ReplayFence.onBatch_cases (events ++ tailEvents) turnEnded
      · simp only [hfence]
        have hrest := hforward ((events ++ tailEvents).drop markerIndex)
        exact ⟨⟨trivial, hrest.allows⟩, hrest.base, hrest.live⟩
      · simp only [hfence]
        have hrest := hforward (events ++ tailEvents)
        exact ⟨⟨trivial, hrest.allows⟩, hrest.base, hrest.live⟩
      · simp only [hfence]
        exact ⟨rfl, rfl, hlive⟩

theorem finish_stamped (generation : Nat) (hlive : pump.settledOutcomes.Live)
    {events tailEvents : List ReplyEvent} (hevents : ∀ event ∈ events, event.Live)
    (htail : ∀ event ∈ tailEvents, event.Live) (morePending : Bool) (currentTurns : Nat) :
    Stamped generation pump (pump.finish events tailEvents morePending currentTurns).pump
      (pump.finish events tailEvents morePending currentTurns).sends := by
  have hcounted : pump.turnEnded morePending currentTurns = true → pump.lastTurns < currentTurns := by
    unfold turnEnded
    simp
  obtain ⟨hallows, hbase, hkept⟩ := pastFence_stamped
    { pump with settledOutcomes := (pump.settledOutcomes.absorb events).absorb tailEvents }
    generation ((hlive.absorb hevents).absorb htail) (liveReplies events) (liveReplies tailEvents)
    (pump.turnEnded morePending currentTurns) currentTurns hcounted
  exact ⟨hallows, hbase, hkept⟩

end Pump

namespace PumpRun

/-- What a pump published with this turn base has sent is what its stamp
allows, and no reply on its way ends a live turn as a replay. -/
structure Stamped (generation turnBase : Nat) (s : PumpRun) : Prop where
  allows : PumpStamp.Allows { generation, reported := turnBase } s.sent
    (if s.phase = .done then none else some (s.pump.stamp generation))
  live : s.pump.settledOutcomes.Live
  pending : ∀ event ∈ s.batch ++ s.link.replies, event.Live

variable {generation turnBase : Nat} {s s' : PumpRun}

theorem stamped_start (generation initialReplayFence turnBase : Nat) :
    Stamped generation turnBase (start initialReplayFence turnBase) where
  allows := rfl
  live := nofun
  pending := nofun

/-- A step that sends nothing and moves replies within the pump. -/
theorem stamped_of_moved (h : Stamped generation turnBase s) (hphase : s.phase ≠ .done)
    (hphase' : s'.phase ≠ .done) (hpump : s'.pump = s.pump) (hsent : s'.sent = s.sent)
    (hpending : s'.batch ++ s'.link.replies ⊆ s.batch ++ s.link.replies) :
    Stamped generation turnBase s' := by
  have hallows := h.allows
  rw [if_neg hphase] at hallows
  refine ⟨?_, hpump ▸ h.live, fun event hevent => h.pending event (hpending hevent)⟩
  rw [if_neg hphase', hsent, hpump]
  exact hallows

/-- A step that finishes a cycle. -/
theorem stamped_finish (h : Stamped generation turnBase s) (hphase : s.phase ≠ .done)
    {events tailEvents : List ReplyEvent} (hbatch : s.batch = events ++ tailEvents)
    (morePending : Bool) (currentTurns : Nat) :
    Stamped generation turnBase (s.finish events tailEvents morePending currentTurns) := by
  have hallows := h.allows
  rw [if_neg hphase] at hallows
  have hpending := h.pending
  rw [hbatch] at hpending
  have hfinish := s.pump.finish_stamped generation h.live
    (fun e he => hpending e (List.mem_append_left _ (List.mem_append_left _ he)))
    (fun e he => hpending e (List.mem_append_left _ (List.mem_append_right _ he)))
    morePending currentTurns
  exact ⟨hallows.append hfinish.allows, hfinish.live,
    fun e he => hpending e (List.mem_append_right _ he)⟩

theorem stamped_cycle (h : Stamped generation turnBase s) (hs : s.cycle = some s') :
    Stamped generation turnBase s' := by
  unfold cycle at hs
  cases hphase : s.phase with
  | top =>
      have hrunning : s.phase ≠ .done := by rw [hphase]; exact PumpPhase.noConfusion
      simp only [hphase] at hs
      split at hs
      · -- the worker is gone
        cases hs
        have hallows := h.allows
        rw [if_neg hrunning] at hallows
        refine ⟨?_, h.live, fun e he => h.pending e (List.mem_append_right _ he)⟩
        exact hallows.append ⟨trivial, rfl, rfl⟩
      · cases hs
        exact stamped_of_moved h hrunning PumpPhase.noConfusion rfl rfl (by simp [batch, hphase])
  | draining events =>
      have hrunning : s.phase ≠ .done := by rw [hphase]; exact PumpPhase.noConfusion
      simp only [hphase] at hs
      split at hs
      · cases hs
        exact stamped_of_moved h hrunning PumpPhase.noConfusion rfl rfl (by simp [batch, hphase])
      · rename_i event replies hreplies
        split at hs
        all_goals
          cases hs
          exact stamped_of_moved h hrunning PumpPhase.noConfusion rfl rfl
            (by simp [batch, hphase, hreplies])
  | counting events morePending =>
      have hrunning : s.phase ≠ .done := by rw [hphase]; exact PumpPhase.noConfusion
      simp only [hphase] at hs
      split at hs
      · cases hs
        exact stamped_of_moved h hrunning PumpPhase.noConfusion rfl rfl (by simp [batch, hphase])
      · cases hs
        exact stamped_finish h hrunning (by simp [batch, hphase]) morePending s.link.turns
  | tailing events currentTurns tailEvents =>
      have hrunning : s.phase ≠ .done := by rw [hphase]; exact PumpPhase.noConfusion
      simp only [hphase] at hs
      split at hs
      · cases hs
        exact stamped_finish h hrunning (by simp [batch, hphase]) false currentTurns
      · rename_i event replies hreplies
        cases hs
        exact stamped_of_moved h hrunning PumpPhase.noConfusion rfl rfl
          (by simp [batch, hphase, hreplies])
  | done => simp [hphase] at hs

theorem stamped_step {a : PumpAct} (h : Stamped generation turnBase s)
    (hlive : ∀ event, a = .emit event → event.Live) (hs : s.step a = some s') :
    Stamped generation turnBase s' := by
  cases a with
  | cycle => exact stamped_cycle h hs
  | emit event =>
      simp only [step, Option.ite_none_right_eq_some] at hs
      obtain ⟨-, hs⟩ := hs
      cases hs
      refine ⟨h.allows, h.live, fun e he => ?_⟩
      rw [← List.append_assoc] at he
      rcases List.mem_append.1 he with he | he
      · exact h.pending e he
      · rw [List.mem_singleton.1 he]
        exact hlive event rfl
  | countTurn =>
      simp only [step, Option.ite_none_right_eq_some] at hs
      obtain ⟨-, hs⟩ := hs
      cases hs
      exact ⟨h.allows, h.live, h.pending⟩
  | disconnect =>
      simp only [step, Option.ite_none_right_eq_some] at hs
      obtain ⟨-, hs⟩ := hs
      cases hs
      exact ⟨h.allows, h.live, h.pending⟩

/-- Whatever the pump has sent, its stamp allowed it. -/
theorem sends_allowed (generation initialReplayFence turnBase : Nat) {acts : List PumpAct}
    (hlive : ∀ event, .emit event ∈ acts → event.Live)
    (hrun : machine.run (start initialReplayFence turnBase) acts = some s) :
    PumpStamp.Allows { generation, reported := turnBase } s.sent
      (if s.phase = .done then none else some (s.pump.stamp generation)) := by
  have hstart := stamped_start generation initialReplayFence turnBase
  generalize start initialReplayFence turnBase = s₀ at hstart hrun
  refine Stamped.allows (s := s) ?_
  induction acts generalizing s₀ with
  | nil =>
      cases hrun
      exact hstart
  | cons a rest ih =>
      obtain ⟨next, hnext, hrest⟩ := Option.bind_eq_some_iff.1 hrun
      refine ih (fun event he => hlive event (List.mem_cons_of_mem a he)) next ?_ hrest
      refine stamped_step hstart (fun event ha => hlive event ?_) hnext
      rw [ha]
      exact List.mem_cons_self

/-- A worker that counts two turns before the pump looks, and then goes away. -/
def skippingActs : List PumpAct :=
  [.emit (.turnSettled 1 .completed), .countTurn, .emit (.chunk "late"), .countTurn] ++
    List.replicate 6 .cycle ++ [.disconnect, .cycle]

theorem sends_allowed_sample :
    PumpStamp.Allows ⟨3, 4⟩ [.record (.chunk "late"),
      .turnCount 6 (.failed "provider turn counter skipped a correlatable boundary"),
      .agentDisconnected] none := by
  have hlive : ∀ event, .emit event ∈ skippingActs → event.Live := by
    intro event hevent
    simp only [skippingActs, List.replicate, List.cons_append, List.nil_append, List.mem_cons,
      PumpAct.emit.injEq, reduceCtorEq, List.not_mem_nil, false_or, or_false] at hevent
    rcases hevent with rfl | rfl <;>
    · intro count heq
      cases heq
  have hrun := Option.some_get (show (machine.run (start 0 4) skippingActs).isSome = true by decide)
  exact sends_allowed 3 0 4 hlive hrun.symm

end PumpRun

end Yaldabaoth
