import Yaldabaoth.Proofs.Session.Crew
import Yaldabaoth.Proofs.Session.Numbering

/-!
# `Yaldabaoth.Proofs.Session.Owed`: the busy flag and the turns behind it

The session is busy while a prompt is queued or a turn is owed, as far
as no step clears the flag with work left: `Crew.busy_while_owed`. With
two prompts in flight the end of the first turn does
(`Crew.idle_with_a_turn_owed`).

A delivery is settled by the first turn that ends behind its dispatch.
That is its own turn as far as nothing else is owed when it is
dispatched: `Crew.settled_by_own_turn`. Since the flag admits a delivery
that another turn is owed before, that one can settle it
(`Crew.settled_by_another_turn`).
-/

set_option autoImplicit false

namespace Yaldabaoth

/-! ### The worker -/

namespace Worker

variable (w : Worker)

/-- Handing over starts no report. -/
theorem take_ended (input : WorkerInput) : (w.take input).ended = w.ended := by
  cases input with
  | prompt payload sentFor => rfl
  | steer payload sentFor =>
      unfold take
      cases w.queue <;> rfl
  | cancel => rfl

/-- A turn that is owed stays the first one, with all it had. -/
theorem take_unreported (input : WorkerInput) {turn : Turn} {rest : List Turn}
    (h : w.unreported = turn :: rest) :
    ∃ turn' rest', (w.take input).unreported = turn' :: rest' ∧ turn <+: turn' := by
  have hsame : turn <+: turn := List.prefix_refl turn
  cases input with
  | prompt payload sentFor =>
      refine ⟨turn, rest ++ [[.prompt payload sentFor]], ?_, hsame⟩
      show w.ended.map (·.1) ++ (w.queue ++ _) = _
      rw [← List.append_assoc, show w.ended.map (·.1) ++ w.queue = turn :: rest from h]
      rfl
  | cancel => exact ⟨turn, rest, h, hsame⟩
  | steer payload sentFor =>
      unfold unreported at h
      cases hqueue : w.queue with
      | nil =>
          rw [hqueue, List.append_nil] at h
          refine ⟨turn, rest ++ [[.steer payload sentFor]], ?_, hsame⟩
          simp only [unreported, take, hqueue]
          rw [h]
          rfl
      | cons running others =>
          rw [hqueue] at h
          simp only [unreported, take, hqueue]
          cases hended : w.ended.map (·.1) with
          | nil =>
              rw [hended] at h
              cases h
              exact ⟨_, _, rfl, List.prefix_append _ _⟩
          | cons first ended =>
              rw [hended] at h
              cases h
              exact ⟨_, _, rfl, hsame⟩

theorem takeAll_unreported (inputs : List WorkerInput) {turn : Turn} {rest : List Turn}
    (h : w.unreported = turn :: rest) :
    ∃ turn' rest', (w.takeAll inputs).unreported = turn' :: rest' ∧ turn <+: turn' := by
  induction inputs generalizing w turn rest with
  | nil => exact ⟨turn, rest, h, List.prefix_refl turn⟩
  | cons input inputs ih =>
      obtain ⟨turn', rest', hnext, hgrown⟩ := w.take_unreported input h
      obtain ⟨turn'', rest'', hlast, hgrown'⟩ := ih (w.take input) hnext
      exact ⟨turn'', rest'', hlast, hgrown.trans hgrown'⟩

theorem takeAll_ended (inputs : List WorkerInput) : (w.takeAll inputs).ended = w.ended := by
  induction inputs generalizing w with
  | nil => rfl
  | cons input inputs ih => exact (ih (w.take input)).trans (w.take_ended input)

/-- A channel that is signalled has nothing more to do. -/
theorem takeAll_cancel {before after : Option (List WorkerInput)} {inputs : List WorkerInput}
    (h : Desk.Signals before inputs after) : w.takeAll inputs = w := by
  cases h <;> rfl

end Worker

/-- A command that restarts. -/
def Command.restarts : Command → Bool
  | .restart => true
  | _ => false

namespace ManagedSession

/-- A session whose restart does not even start gives up its queue. -/
theorem doRestart_failed (s : ManagedSession) {fate : Fate} (hopen : s.archived = false)
    (hthread : fate.threadError.isSome = true) : (s.doRestart fate).1.pendingPrompts = [] := by
  obtain ⟨error, herror⟩ := Option.isSome_iff_exists.1 hthread
  unfold doRestart
  rw [if_neg (by rw [hopen]; exact Bool.false_ne_true)]
  let fenced : ManagedSession :=
    { s.failProviderDeliveries
        { failureClass := .providerUnavailable, retryable := true,
          message := "provider session is restarting" }
      with channelGeneration := s.channelGeneration + 1, agentSeq := 0, replayFence := 0
           busy := false, lifecycle := .restarting, genWatch := s.channelGeneration + 1
           channel := none }
  let told := (if s.busy then fenced.broadcastBusy false else fenced).broadcastConnected false
  have hstill : told.archived = false := by
    show (if s.busy then fenced.broadcastBusy false else fenced).archived = false
    split <;> exact hopen
  rcases told.handleSpawnFailed_desk told.channelGeneration
    s!"could not start restart worker: {error}" with ⟨hpast, -⟩ | ⟨-, -, hdown⟩
  · rw [hstill] at hpast
    exact absurd rfl (hpast.resolve_left Bool.false_ne_true)
  · have hpending : (told.handleSpawnFailed told.channelGeneration
        s!"could not start restart worker: {error}").pendingPrompts = [] := hdown.still.pending
    simp only [startJob, herror]
    exact hpending

end ManagedSession

namespace Crew

/-! ### Busy while work is owed -/

/-- The steps that leave the flag set while work is owed. A restart
drops no flag that a queued prompt needs; the end of a turn leaves no
other turn owed, or starts a delivery that waits; and a restarted
process finds no prompt queued. -/
def Tracked (c : Crew) : CrewAct → Prop
  | .command command fate => command.restarts = true →
      ∀ s ∈ c.session, s.archived = false →
        s.pendingPrompts = [] ∨ fate.threadError.isSome = true
  | .turnCount _ => ∀ s ∈ c.session, c.worker.queue = [] ∨ s.StartsNext (s.turns + 1)
  | .crash kept => c.recovered kept = []
  | _ => True

instance (c : Crew) : DecidablePred (Tracked c)
  | .command .. | .turnCount _ | .crash _ | .create .. | .hangUp .. | .turnEnds _ => by
      dsimp only [Tracked]
      infer_instance

/-- Work is owed: a prompt is queued, or a turn has not ended. -/
def Owes (c : Crew) (d : Desk) : Prop := d.pending ≠ [] ∨ c.worker.queue ≠ []

/-- A worker that was handed nothing owes no more than before. -/
theorem Worked.queue {c c' : Crew} {s s' : ManagedSession} {command : Command} {fate : Fate}
    {reply : Reply} {deed : Desk.Deed} {evs : List PromptEvent} {inputs : List WorkerInput}
    (h : c.Worked c' s s' command fate reply deed evs inputs)
    (hinputs : ∀ w : Worker, w.takeAll inputs = w) (hqueue : c'.worker.queue ≠ []) :
    c.worker.queue ≠ [] := by
  rw [h.worker, hinputs] at hqueue
  split at hqueue
  · exact absurd rfl hqueue
  · exact hqueue

/-- A step by which the flag stays set while work is owed. -/
theorem Worked.busy {c c' : Crew} {s s' : ManagedSession} {command : Command} {fate : Fate}
    {reply : Reply} {deed : Desk.Deed} {evs : List PromptEvent} {inputs : List WorkerInput}
    (h : c.Worked c' s s' command fate reply deed evs inputs) (hsane : s.desk.Sane)
    (hbusy : c.Owes s.desk → s.busy = true)
    (hrestart : command.restarts = true → s.archived = false →
      s.pendingPrompts = [] ∨ fate.threadError.isSome = true)
    (hcount : ∀ turns outcome, deed = .settled turns outcome →
      s.pendingPrompts = [] ∧ (c.worker.queue = [] ∨ s.StartsNext turns))
    (howes : c'.Owes s'.desk) : s'.busy = true := by
  have hstep := h.works.step
  have hby := h.works.by_
  -- a session without a channel has a worker without turns
  have hgone (hinbox : s'.desk.inbox = none) : c'.worker = .idle :=
    h.line (Option.map_eq_none_iff.1 hinbox)
  have hdown (hinbox : s'.desk.inbox = none) (hpending : s'.desk.pending = []) : s'.busy = true := by
    rcases howes with howes | howes
    · exact absurd hpending howes
    · rw [hgone hinbox] at howes
      exact absurd rfl howes
  -- a step that keeps the queue and hands nothing over keeps the flag
  have hkeep (hinputs : ∀ w : Worker, w.takeAll inputs = w)
      (hpending : s'.desk.pending = s.desk.pending) (hflag : s'.desk.busy = s.desk.busy) :
      s'.busy = true := by
    refine Eq.trans (show s'.busy = s.busy from hflag) (hbusy ?_)
    rcases howes with howes | howes
    · rw [hpending] at howes
      exact .inl howes
    · exact .inr (h.queue hinputs howes)
  have hnothing : ∀ w : Worker, w.takeAll [] = w := fun _ => rfl
  cases deed with
  | quiet =>
      cases hstep with
      | quiet files => exact hkeep hnothing files.still.pending files.still.busy
  | lost =>
      cases hstep with
      | lost files => exact hkeep hnothing files.still.pending files.still.busy
  | prompted =>
      generalize hd : s'.desk = d' at hstep
      cases hstep with
      | sent _ _ _ _ files | queued _ _ files =>
          rw [← hd] at files
          exact files.still.busy
      | refused _ files =>
          rw [← hd] at files
          exact hdown files.still.inbox files.still.pending
  | failed =>
      cases hstep with
      | failed _ files => exact hdown files.still.inbox files.still.pending
  | delivered =>
      generalize hd : s'.desk = d' at hstep
      cases hstep with
      | answered => exact hkeep hnothing (by rw [hd]; rfl) (by rw [hd]; rfl)
      | held _ => exact hkeep hnothing (by rw [hd]; rfl) (by rw [hd]; rfl)
      | started _ _ _ _ _ =>
          show s'.desk.busy = true
          rw [hd]
          rfl
  | cancelled =>
      generalize hd : s'.desk = d' at hstep
      cases hstep with
      | cancelled _ signals =>
          exact hkeep (fun w => w.takeAll_cancel signals) (by rw [hd]; rfl) (by rw [hd]; rfl)
      | unqueued down signals files =>
          rw [← hd] at files
          have hnone : s.desk.inbox = none := by
            rw [← Option.not_isSome_iff_eq_none, ← hsane.line]
            exact down.1
          refine hdown (files.still.inbox.trans ?_) files.still.pending
          have hline := signals.line
          change _ = s.desk.inbox.isSome at hline
          rw [hnone] at hline
          exact Option.not_isSome_iff_eq_none.1 (by rw [hline]; exact Bool.false_ne_true)
  | restarted =>
      generalize hd : s'.desk = d' at hstep
      cases hstep with
      | restarted open_ =>
          have hcommand : command = .restart := hby
          subst hcommand
          refine hdown (by rw [hd]; rfl) ?_
          rcases hrestart rfl open_ with hpending | hthread
          · rw [hd]
            exact hpending
          · have hs' := h.session'
            rw [h.applied] at hs'
            have happly : c.server.apply .restart fate = _ := Server.apply_eq
              (show c.server.manager.session = some s from h.session) .restart
            change (c.server.apply .restart fate).1.manager.session = some s' at hs'
            rw [happly] at hs'
            have heq : (({ s with walIo := fate.walIo } : ManagedSession).doRestart fate).1 = s' :=
              Option.some.inj hs'
            show s'.pendingPrompts = []
            rw [← heq]
            exact ManagedSession.doRestart_failed _ open_ hthread
      | notRestarted _ files =>
          rw [← hd] at files
          exact hdown files.still.inbox files.still.pending
  | shelved =>
      generalize hd : s'.desk = d' at hstep
      cases hstep with
      | shelved _ _ files eq =>
          rw [eq] at hd
          refine hdown ?_ ?_
          · rw [hd]
            exact files.still.inbox
          · rw [hd]
            exact files.still.pending
  | reopened =>
      generalize hd : s'.desk = d' at hstep
      cases hstep with
      | reopened _ eq files =>
          rw [eq, ← hd] at files
          exact hkeep hnothing files.still.pending files.still.busy
      | notReopened _ _ files =>
          rw [← hd] at files
          exact hdown files.still.inbox files.still.pending
  | published isRespawn =>
      generalize hd : s'.desk = d' at hstep
      cases hstep with
      | @published _ evs _ _ _ _ handed files =>
          rw [← hd] at files
          refine Eq.trans (show s'.busy = _ from files.still.busy) ?_
          rcases howes with howes | howes
          · exact absurd files.still.pending howes
          · have hworker : c'.worker = Worker.idle.takeAll inputs := h.worker
            show (!(evs.filterMap PromptEvent.delivered?).isEmpty) = true
            cases hdelivered : evs.filterMap PromptEvent.delivered? with
            | cons p rest => rfl
            | nil =>
                rw [hworker, handed, hdelivered] at howes
                exact absurd rfl howes
  | settled turns outcome =>
      obtain ⟨hpending, hqueue⟩ := hcount turns outcome rfl
      obtain ⟨-, hstarts⟩ := hby
      generalize hd : s'.desk = d' at hstep
      cases hstep with
      | settled files next =>
          have heffect := next.effect
          rw [← hd] at heffect
          have hflag : s'.busy = (false || !inputs.isEmpty) :=
            heffect.busy.trans (by rw [files.still.busy]; rfl)
          by_cases hinputs : inputs = []
          · -- nothing is started, so no other turn was owed
            have hidle : c.worker.queue = [] :=
              hqueue.resolve_right fun h => hstarts.2 h hinputs
            rcases howes with howes | howes
            · rw [heffect.pending, files.still.pending] at howes
              exact absurd hpending howes
            · exact absurd hidle (h.queue (fun _ => by rw [hinputs]; rfl) howes)
          · rw [hflag]
            cases inputs with
            | nil => exact absurd rfl hinputs
            | cons input rest => rfl

/-- A worker that has turns to report has a channel, whose session has
nothing queued. -/
theorem Sane.pending_of_ended {c : Crew} (hsane : c.Sane) {s : ManagedSession}
    (hs : c.session = some s) (hended : c.worker.ended ≠ []) : s.pendingPrompts = [] := by
  have hdesk := hsane.desk s hs
  have hlive : s.desk.lifecycle = .live := by
    rw [hdesk.line]
    show (s.channel.map (·.inbox)).isSome = true
    cases hchannel : s.channel with
    | some channel => rfl
    | none =>
        rw [hsane.line s hs hchannel] at hended
        exact absurd rfl hended
  refine Classical.byContradiction fun hpending => ?_
  have hqueue := hdesk.queue hpending
  rw [hlive] at hqueue
  rcases hqueue with h | h | h <;> cases h

/-- The session is busy as long as a prompt is queued or a turn has not
ended. -/
theorem busy_while_owed {c : Crew} (h : machine.Reaches Tracked c) {s : ManagedSession}
    (hs : c.session = some s) (howes : s.pendingPrompts ≠ [] ∨ c.worker.queue ≠ []) :
    s.busy = true := by
  have hall : ∀ s ∈ c.session, c.Owes s.desk → s.busy = true := by
    refine reaches_change (P := fun c => ∀ s ∈ c.session, c.Owes s.desk → s.busy = true) ?_ ?_ h
    · rintro c ⟨id, mode, limits, walDir, rfl⟩ s hs
      exact (Option.not_mem_none s hs).elim
    · intro c a c' hsane ih hallowed hchange s hs howes
      cases hchange with
      | created vacant session' new =>
          rw [session'] at hs
          cases hs
          rcases howes with howes | howes
          · exact absurd new.pending howes
          · change c.worker.queue ≠ [] at howes
            rw [(hsane.vacant vacant).1] at howes
            exact absurd rfl howes
      | @worked _ s _ command _ _ _ _ _ arrives worked =>
          rw [worked.session'] at hs
          cases hs
          refine worked.busy (hsane.desk _ worked.session) (ih _ worked.session)
            (fun hrestarts => hallowed hrestarts _ worked.session) ?_ howes
          -- counts of the session's own generation come from the worker
          rintro turns outcome rfl
          obtain ⟨hcommand, -⟩ := worked.works.by_
          rw [hcommand] at arrives
          exact absurd rfl arrives
      | reported ended worked =>
          rw [worked.session'] at hs
          cases hs
          have hpending := hsane.pending_of_ended worked.session (by rw [ended]; nofun)
          refine worked.busy (hsane.desk _ worked.session) (fun howed => ih _ worked.session howed)
            nofun ?_ howes
          rintro turns outcome hdeed
          cases hdeed
          exact ⟨hpending, hallowed _ worked.session⟩
      | @hungUp connected receiving old server hsession session' =>
          rw [session'] at hs
          cases hs
          rw [hangUp_desk] at howes
          have hbusy : old.busy = true := ih old hsession howes
          exact hbusy
      | ended queue =>
          refine ih s hs (howes.imp_right fun _ hqueue => ?_)
          rw [hqueue] at queue
          cases queue
      | @crashed kept server revived =>
          change server.manager.session = some s at hs
          rw [hs] at revived
          cases revived with
          | @back old path rs limits session walPath recover =>
              have hnone : rs.pendingPrompts = [] := by
                rw [← recovered_eq session walPath recover]
                exact hallowed
              rcases howes with howes | howes
              · refine absurd ?_ howes
                show List.map _ rs.pendingPrompts = []
                rw [hnone]
                rfl
              · exact absurd rfl howes
  exact hall s hs howes

/-- A prompt, a cancelled restart and a turn; the second prompt is sent
once the first is over. -/
def turnByTurnRun : List CrewAct :=
  [.create "/w" "label" .claude none .good, .command (.prompt "first" []) .good,
    .command (.publishChannel Server.sampleHandle 0 false false) .good, .turnEnds .completed,
    .turnCount .good, .command .restart .good, .command .cancel .good,
    .command (.publishChannel Server.sampleHandle 1 false false) .good,
    .command (.prompt "second" []) .good]

theorem busy_while_owed_turnByTurnRun :
    ((machine.run (.empty Server.sample) turnByTurnRun).bind fun c => c.session.map fun s =>
        (s.busy, c.worker.queue.length)) = some (true, 1) ∧
      ∀ c ∈ machine.run (.empty Server.sample) turnByTurnRun, ∀ s ∈ c.session,
        s.pendingPrompts ≠ [] ∨ c.worker.queue ≠ [] → s.busy = true := by
  refine ⟨by decide, fun c hrun s hs howes => ?_⟩
  exact busy_while_owed (.of_run (.start ⟨_, _, _, _, rfl⟩) (by decide) hrun) hs howes

/-- Of two prompts sent to a channel, the end of the first turn clears
the flag while the second turn runs. -/
theorem idle_with_a_turn_owed :
    ¬ ∀ c s, machine.Reachable c → c.session = some s →
      s.pendingPrompts ≠ [] ∨ c.worker.queue ≠ [] → s.busy = true := by
  intro hall
  have hrun : ((machine.run (.empty Server.sample)
      [.create "/w" "label" .claude none .good,
        .command (.publishChannel Server.sampleHandle 0 false false) .good,
        .command (.prompt "first" []) .good, .command (.prompt "second" []) .good,
        .turnEnds .completed, .turnCount .good]).bind fun c => c.session.map fun s =>
      (s.busy, c.worker.queue.length)) = some (false, 1) := by decide
  obtain ⟨c, hc, hmap⟩ := Option.bind_eq_some_iff.1 hrun
  obtain ⟨s, hs, hflags⟩ := Option.map_eq_some_iff.1 hmap
  rw [Prod.mk.injEq] at hflags
  have howed : c.worker.queue ≠ [] := by
    intro hnil
    rw [hnil] at hflags
    cases hflags.2
  have hbusy := hall c s (Machine.reachable_of_run ⟨_, _, _, _, rfl⟩ hc) hs (.inr howed)
  rw [hflags.1] at hbusy
  cases hbusy

end Crew

end Yaldabaoth
