import Yaldabaoth.Proofs.Session.Owed

/-!
# `Yaldabaoth.Proofs.Session.Settlement`: which turn settles a delivery

A delivery is correlated with the first turn that ends behind its
dispatch. `Crew.Correlated` is the invariant that makes this its own
turn: the oldest turn that is not reported yet has consumed it. It
holds as far as a delivery is dispatched while nothing else is owed,
and steered while no report is due (`Crew.settled_by_own_turn`). The
busy flag does not ensure that (`Crew.settled_by_another_turn`).
-/

set_option autoImplicit false

namespace Yaldabaoth

/-- The turn consumed the payload of the delivery under this reply. -/
def Turn.Serves (turn : Turn) (reply : Nat) : Prop :=
  ∃ input ∈ turn, input.delivery? = some reply

instance (turn : Turn) (reply : Nat) : Decidable (turn.Serves reply) :=
  inferInstanceAs (Decidable (∃ input ∈ turn, input.delivery? = some reply))

theorem Turn.Serves.mono {turn turn' : Turn} {reply : Nat} (h : turn.Serves reply)
    (hgrown : turn <+: turn') : turn'.Serves reply := by
  obtain ⟨input, hinput, hreply⟩ := h
  exact ⟨input, hgrown.subset hinput, hreply⟩

namespace Desk

/-- What a search answers is failure. -/
theorem Next.answers {d d' : Desk} {inputs : List WorkerInput} (h : Next d inputs d') :
    ∃ failed, d'.answers = d.answers ++ failed ∧
      ∀ answer ∈ failed, ∃ failure, answer.2 = .failed failure := by
  induction h with
  | done _ => exact ⟨[], (List.append_nil _).symm, nofun⟩
  | @failed d _ pending _ failure _ _ _ _ ih =>
      obtain ⟨failed, hanswers, hfailed⟩ := ih
      refine ⟨(pending.reply, .failed failure) :: failed, ?_, ?_⟩
      · rw [hanswers]
        exact List.append_assoc d.answers [_] failed
      · intro answer hanswer
        rcases List.mem_cons.1 hanswer with rfl | hanswer
        · exact ⟨failure, rfl⟩
        · exact hfailed answer hanswer
  | started _ _ _ _ => exact ⟨[], (List.append_nil _).symm, nofun⟩

/-- What a step answers is failure, but for the delivery a turn count
settles. -/
theorem Step.answers {d d' : Desk} {deed : Deed} {evs : List PromptEvent}
    {inputs : List WorkerInput} (h : Step d deed evs inputs d') :
    ∃ settled failed, d'.answers = d.answers ++ settled ++ failed ∧
      (∀ answer ∈ failed, ∃ failure, answer.2 = .failed failure) ∧
      ∀ answer ∈ settled, ∃ turns outcome delivery, deed = .settled turns outcome ∧
        d.terminal turns = some delivery ∧
        answer = (delivery.reply, ManagedSession.settledResult delivery (turns - 1) outcome) := by
  have hnothing (hanswers : d'.answers = d.answers) :
      ∃ settled failed, d'.answers = d.answers ++ settled ++ failed ∧
        (∀ answer ∈ failed, ∃ failure, answer.2 = .failed failure) ∧
        ∀ answer ∈ settled, ∃ turns outcome delivery, deed = .settled turns outcome ∧
          d.terminal turns = some delivery ∧
          answer = (delivery.reply, ManagedSession.settledResult delivery (turns - 1) outcome) :=
    ⟨[], [], by rw [hanswers, List.append_nil, List.append_nil], nofun, nofun⟩
  have hfails (replies : List Nat) (failure : ProviderDeliveryFailure)
      (hanswers : d'.answers = d.answers ++ replies.map fun reply => (reply, .failed failure)) :
      ∃ settled failed, d'.answers = d.answers ++ settled ++ failed ∧
        (∀ answer ∈ failed, ∃ failure, answer.2 = .failed failure) ∧
        ∀ answer ∈ settled, ∃ turns outcome delivery, deed = .settled turns outcome ∧
          d.terminal turns = some delivery ∧
          answer = (delivery.reply, ManagedSession.settledResult delivery (turns - 1) outcome) := by
    refine ⟨[], replies.map fun reply => (reply, .failed failure), ?_, ?_, nofun⟩
    · rw [hanswers, List.append_nil]
    · intro answer hanswer
      obtain ⟨reply, -, rfl⟩ := List.mem_map.1 hanswer
      exact ⟨failure, rfl⟩
  have hcancels (hanswers : d'.answers = d.cancelActive.answers) :=
    hfails (d.active.toList.map (·.reply))
      { failureClass := .cancelled, retryable := false, message := "provider turn was cancelled" }
      (by rw [hanswers, List.map_map]; rfl)
  cases h with
  | quiet files | lost files | sent _ _ _ _ files | queued _ _ files =>
      exact hnothing files.still.answers
  | refused _ files | failed _ files => exact hfails d.owed _ files.still.answers
  | @answered reply failure => exact hfails [reply] failure rfl
  | held _ => exact hnothing rfl
  | started _ _ _ _ _ => exact hnothing rfl
  | cancelled _ _ => exact hcancels rfl
  | unqueued _ _ files => exact hcancels files.still.answers
  | restarted _ => exact hfails d.owed _ rfl
  | notRestarted _ files =>
      refine hfails d.owed
        { failureClass := .providerUnavailable, retryable := true,
          message := "provider session is restarting" } (files.still.answers.trans ?_)
      exact List.append_nil _
  | shelved _ _ files eq =>
      rw [eq] at hfails
      rw [eq]
      exact hfails d.owed _ files.still.answers
  | reopened _ eq files =>
      refine hnothing (files.still.answers.trans ?_)
      rw [eq]
  | notReopened _ eq files =>
      rw [eq] at files
      exact hfails d.owed _ files.still.answers
  | published _ _ _ files => exact hnothing files.still.answers
  | @settled _ _ turns outcome _ files next =>
      obtain ⟨failed, hanswers, hfailed⟩ := next.answers
      rw [files.still.answers] at hanswers
      refine ⟨_, failed, hanswers, hfailed, fun answer hanswer => ?_⟩
      obtain ⟨delivery, hdelivery, rfl⟩ := List.mem_map.1 hanswer
      exact ⟨turns, outcome, delivery, rfl, Option.mem_toList.1 hdelivery, rfl⟩

end Desk

namespace Crew

/-- The steps that keep deliveries with their own turns. One that is
dispatched as a prompt finds nothing else owed, and one that is steered
finds no report due; a turn count that starts a waiting delivery reports
the last turn owed; and no channel replaces, under the same generation,
one that runs a delivery. -/
def Exclusive (c : Crew) : CrewAct → Prop
  | .command (.cogDelivery request _) _ => ∀ s ∈ c.session,
      request.envelope.providerBlocks.isOk = true → s.Takes request →
        if s.busy then c.worker.ended = [] else c.worker.unreported = []
  | .command (.publishChannel _ generation isRespawn _) _ => ∀ s ∈ c.session,
      isRespawn = false → s.archived = false → generation = s.channelGeneration →
        ∀ delivery ∈ s.activeProviderDelivery, delivery.generation ≠ s.channelGeneration
  | .turnCount _ => ∀ s ∈ c.session, s.StartsNext (s.turns + 1) → c.worker.unreported.length ≤ 1
  | _ => True

instance (c : Crew) : DecidablePred (Exclusive c) := fun a => by
  match a with
  | .command command fate => cases command <;> dsimp only [Exclusive] <;> infer_instance
  | .turnCount _ | .crash _ | .create .. | .hangUp .. | .turnEnds _ =>
      dsimp only [Exclusive]
      infer_instance

/-- The active delivery is served by the oldest turn that is not
reported yet, and settled by its report. -/
structure Correlated (worker : Worker) (d : Desk) : Prop where
  past : ∀ delivery ∈ d.active, delivery.generation ≤ d.generation
  own : ∀ delivery ∈ d.active, delivery.generation = d.generation →
    delivery.targetTurnCount = d.turns + 1 ∧
      ∃ turn rest, worker.unreported = turn :: rest ∧ turn.Serves delivery.reply

theorem correlated_none {worker : Worker} {d : Desk} (h : d.active = none) :
    Correlated worker d := by
  constructor
  · rw [h]
    nofun
  · rw [h]
    nofun

/-- What leaves the active delivery alone leaves it correlated, however
much more the worker is handed. -/
theorem Correlated.handed {worker : Worker} {d d' : Desk} (h : Correlated worker d)
    (hactive : d'.active = d.active) (hgeneration : d'.generation = d.generation)
    (hturns : d'.turns = d.turns) (inputs : List WorkerInput) :
    Correlated (worker.takeAll inputs) d' := by
  constructor
  · rw [hactive, hgeneration]
    exact h.past
  · intro delivery hdelivery hcurrent
    rw [hactive] at hdelivery
    rw [hgeneration] at hcurrent
    obtain ⟨htarget, turn, rest, hunreported, hserves⟩ := h.own delivery hdelivery hcurrent
    obtain ⟨turn', rest', hnext, hgrown⟩ := worker.takeAll_unreported inputs hunreported
    rw [hturns]
    exact ⟨htarget, turn', rest', hnext, hserves.mono hgrown⟩

/-- A delivery that is handed to a worker with nothing else to report
is served by the next turn that is reported. -/
theorem correlated_started {worker : Worker} {d d' : Desk} {pending : PendingProviderDelivery}
    {delivery : ActiveProviderDelivery} {input : WorkerInput}
    (hcorrelates : d.Correlates pending delivery)
    (hinput : input.delivery? = some pending.reply) (hactive : d'.active = some delivery)
    (hgeneration : d'.generation = d.generation) (hturns : d'.turns = d.turns)
    (hworker : ∃ turn rest, (worker.take input).unreported = turn :: rest ∧ input ∈ turn) :
    Correlated (worker.takeAll [input]) d' := by
  obtain ⟨turn, rest, hunreported, hmem⟩ := hworker
  constructor
  · intro other hother
    rw [hactive] at hother
    cases hother
    rw [hgeneration, hcorrelates.generation]
  · intro other hother _
    rw [hactive] at hother
    cases hother
    rw [hturns]
    refine ⟨hcorrelates.target, turn, rest, hunreported, input, hmem, ?_⟩
    rw [hcorrelates.reply]
    exact hinput

/-- A prompt that is handed to a worker without turns is its own turn. -/
theorem take_prompt_unreported {worker : Worker} (h : worker.unreported = [])
    (payload : PromptPayload) (sentFor : Option Nat) :
    ∃ turn rest, (worker.take (.prompt payload sentFor)).unreported = turn :: rest ∧
      .prompt payload sentFor ∈ turn := by
  refine ⟨[.prompt payload sentFor], [], ?_, List.mem_cons_self⟩
  show worker.ended.map (·.1) ++ (worker.queue ++ _) = _
  rw [← List.append_assoc, show worker.ended.map (·.1) ++ worker.queue = [] from h]
  rfl

/-- A payload that is steered while no report is due joins the turn that
is reported next. -/
theorem take_steer_unreported {worker : Worker} (h : worker.ended = [])
    (payload : PromptPayload) (sentFor : Option Nat) :
    ∃ turn rest, (worker.take (.steer payload sentFor)).unreported = turn :: rest ∧
      .steer payload sentFor ∈ turn := by
  simp only [Worker.unreported, Worker.take]
  cases hqueue : worker.queue with
  | nil =>
      refine ⟨[.steer payload sentFor], [], ?_, List.mem_cons_self⟩
      simp only [h]
      rfl
  | cons running rest =>
      refine ⟨running ++ [.steer payload sentFor], rest, ?_, ?_⟩
      · simp only [h]
        rfl
      · exact List.mem_append_right _ List.mem_cons_self

/-- The search for a delivery starts one under the same conditions. -/
theorem Correlated.next {worker : Worker} {d d' : Desk} {inputs : List WorkerInput}
    (hnext : Desk.Next d inputs d') (h : Correlated worker d)
    (hidle : inputs ≠ [] → worker.unreported = []) : Correlated (worker.takeAll inputs) d' := by
  induction hnext with
  | done _ => exact h
  | failed idle _ _ ih => exact ih (correlated_none idle.1) hidle
  | started _ _ _ correlates =>
      exact correlated_started correlates rfl rfl rfl rfl
        (take_prompt_unreported (hidle (List.cons_ne_nil _ _)) _ _)

/-- An answer of success is for a turn that is over and completed. -/
def Vouched (c : Crew) (answers : List (Nat × ProviderDeliveryResult)) : Prop :=
  ∀ reply receipt, (reply, .succeeded receipt) ∈ answers →
    ∃ turn, (turn, TurnOutcome.completed) ∈ c.finished ∧ turn.Serves reply

/-- Failures vouch for nothing. -/
theorem Vouched.fail {c : Crew} {answers : List (Nat × ProviderDeliveryResult)}
    (h : c.Vouched answers) {failed : List (Nat × ProviderDeliveryResult)}
    (hfailed : ∀ answer ∈ failed, ∃ failure, answer.2 = .failed failure) :
    c.Vouched (answers ++ failed) := by
  intro reply receipt hmem
  rcases List.mem_append.1 hmem with hmem | hmem
  · exact h reply receipt hmem
  · obtain ⟨failure, hfailure⟩ := hfailed _ hmem
    cases hfailure

/-- A session without a channel runs no delivery. -/
theorem Worked.active_none {c c' : Crew} {s s' : ManagedSession} {command : Command} {fate : Fate}
    {reply : Reply} {deed : Desk.Deed} {evs : List PromptEvent} {inputs : List WorkerInput}
    (h : c.Worked c' s s' command fate reply deed evs inputs) (hsane : s.desk.Sane)
    (hchannel : s'.channel = none) : s'.desk.active = none := by
  have hdesk := (h.sane hsane).desk s' h.session'
  have hdown : s'.desk.lifecycle ≠ .live := by
    rw [Ne, hdesk.line]
    show ¬ (s'.channel.map (·.inbox)).isSome = true
    rw [hchannel]
    exact Bool.false_ne_true
  exact (hdesk.rest hdown).1

/-- A step that settles nothing keeps the active delivery with its turn. -/
theorem Worked.correlated {c c' : Crew} {s s' : ManagedSession} {command : Command} {fate : Fate}
    {reply : Reply} {deed : Desk.Deed} {evs : List PromptEvent} {inputs : List WorkerInput}
    (h : c.Worked c' s s' command fate reply deed evs inputs) (hsane : s.desk.Sane)
    (hcorrelated : Correlated c.worker s.desk) (hallowed : c.Exclusive (.command command fate))
    (hdeed : ∀ turns outcome, deed ≠ .settled turns outcome) :
    Correlated c'.worker s'.desk := by
  have hstep := h.works.step
  have hby := h.works.by_
  have hworker := h.worker
  cases hchannel : s'.channel with
  | none => exact correlated_none (h.active_none hsane hchannel)
  | some channel =>
      rw [hchannel, Option.isNone_some, Bool.or_false] at hworker
      -- the active delivery is left alone by a channel that goes on
      have hsame (hinstalls : deed.installs = false) (hactive : s'.desk.active = s.desk.active)
          (hgeneration : s'.desk.generation = s.desk.generation)
          (hturns : s'.desk.turns = s.desk.turns) : Correlated c'.worker s'.desk := by
        rw [hworker, hinstalls, if_neg Bool.false_ne_true]
        exact hcorrelated.handed hactive hgeneration hturns inputs
      generalize hd : s'.desk = d' at hstep hsame ⊢
      cases hstep with
      | quiet files | lost files | sent _ _ _ _ files | queued _ _ files =>
          exact hsame rfl files.still.active files.still.generation files.still.turns
      | refused _ files | failed _ files | unqueued _ _ files | notRestarted _ files
      | notReopened _ _ files => exact correlated_none files.still.active
      | answered => exact hsame rfl rfl rfl rfl
      | held _ => exact hsame rfl rfl rfl rfl
      | started _ _ _ input_eq correlates =>
          obtain ⟨request, reply, rfl, htakes⟩ := hby
          have hexclusive := hallowed s h.session (htakes (List.cons_ne_nil _ _)).1
            (htakes (List.cons_ne_nil _ _)).2
          rw [hworker]
          rcases input_eq with ⟨hidle, rfl⟩ | ⟨hbusy, rfl⟩
          · rw [if_neg (by rw [show s.busy = false from hidle]; exact Bool.false_ne_true)]
              at hexclusive
            exact correlated_started correlates rfl rfl rfl rfl
              (take_prompt_unreported hexclusive _ _)
          · rw [if_pos (show s.busy = true from hbusy)] at hexclusive
            exact correlated_started correlates rfl rfl rfl rfl
              (take_steer_unreported hexclusive _ _)
      | cancelled _ _ => exact correlated_none rfl
      | restarted _ => exact correlated_none rfl
      | shelved _ _ files eq =>
          rw [eq]
          exact correlated_none files.still.active
      | reopened _ eq files =>
          rw [eq] at files
          exact hsame rfl files.still.active files.still.generation files.still.turns
      | @published _ _ _ isRespawn open_ _ _ files =>
          obtain ⟨handle, resumed, rfl⟩ := hby
          have hactive : d'.active = s.desk.active := files.still.active
          cases isRespawn with
          | true =>
              -- the delivery of the old generation is past
              have hgeneration : d'.generation = s.desk.generation + 1 := files.still.generation
              constructor
              · intro delivery hdelivery
                rw [hactive] at hdelivery
                have hle := hcorrelated.past delivery hdelivery
                omega
              · intro delivery hdelivery hcurrent
                rw [hactive] at hdelivery
                have hle := hcorrelated.past delivery hdelivery
                omega
          | false =>
              have hnone := hallowed s h.session rfl open_ rfl
              have hgeneration : d'.generation = s.desk.generation := files.still.generation
              constructor
              · rw [hactive, hgeneration]
                exact hcorrelated.past
              · intro delivery hdelivery hcurrent
                rw [hactive] at hdelivery
                rw [hgeneration] at hcurrent
                exact absurd hcurrent (hnone delivery hdelivery)
      | settled _ _ => exact absurd rfl (hdeed _ _)

/-- Behind a turn count no delivery of the generation is active. -/
theorem Correlated.counted {worker : Worker} {d e : Desk} (h : Correlated worker d)
    (worker' : Worker) {outcome : TurnOutcome} {evs : List PromptEvent}
    (files : (d.settled (d.turns + 1) outcome).Files evs e) : Correlated worker' e := by
  have hactive : e.active = if (d.terminal (d.turns + 1)).isSome then none else d.active :=
    files.still.active
  cases hterminal : d.terminal (d.turns + 1) with
  | some delivery =>
      rw [hterminal] at hactive
      exact correlated_none hactive
  | none =>
      rw [hterminal] at hactive
      have hgeneration : e.generation = d.generation := files.still.generation
      constructor
      · rw [hactive, hgeneration]
        exact h.past
      · intro delivery hdelivery hcurrent
        rw [hactive] at hdelivery
        rw [hgeneration] at hcurrent
        -- a delivery of this generation would have been settled
        have htarget := (h.own delivery hdelivery hcurrent).1
        have hfilter := Option.filter_eq_none_iff.1 hterminal delivery hdelivery
        exact absurd (decide_eq_true ⟨hcurrent, Nat.le_of_eq htarget⟩) hfilter

/-- A turn count settles the delivery its turn served, and the one it
starts is served by the next. -/
theorem Worked.correlated_settled {c c' : Crew} {s s' : ManagedSession} {command : Command}
    {fate : Fate} {reply : Reply} {outcome : TurnOutcome} {evs : List PromptEvent}
    {inputs : List WorkerInput} {worker : Worker} {turn : Turn}
    (h : c.Worked c' s s' command fate reply (.settled (s.turns + 1) outcome) evs inputs)
    (hsane : s.desk.Sane) (hcorrelated : Correlated worker s.desk)
    (hworker : worker.unreported = turn :: c.worker.unreported)
    (hallowed : s.StartsNext (s.turns + 1) → worker.unreported.length ≤ 1) :
    Correlated c'.worker s'.desk ∧
      ∀ delivery, s.desk.terminal (s.turns + 1) = some delivery → turn.Serves delivery.reply := by
  have hserves : ∀ delivery, s.desk.terminal (s.turns + 1) = some delivery →
      turn.Serves delivery.reply := by
    intro delivery hterminal
    obtain ⟨hactive, hcurrent⟩ := Option.filter_eq_some_iff.1 hterminal
    obtain ⟨-, turn', rest, hunreported, hserves⟩ :=
      hcorrelated.own delivery hactive (of_decide_eq_true hcurrent).1
    rw [hworker] at hunreported
    cases hunreported
    exact hserves
  refine ⟨?_, hserves⟩
  cases hchannel : s'.channel with
  | none => exact correlated_none (h.active_none hsane hchannel)
  | some channel =>
      have hstep := h.works.step
      obtain ⟨-, hstarts⟩ := h.works.by_
      have hnext := h.worker
      rw [hchannel] at hnext
      change c'.worker = c.worker.takeAll inputs at hnext
      rw [hnext]
      generalize hd : s'.desk = d' at hstep ⊢
      cases hstep with
      | settled files next =>
          have hfaced : Correlated worker ({ s with walIo := fate.walIo } : ManagedSession).desk :=
            ⟨hcorrelated.past, hcorrelated.own⟩
          have hsettled := hfaced.counted c.worker files
          refine hsettled.next next fun hinputs => ?_
          have hlength := hallowed (hstarts.1 hinputs)
          rw [hworker, List.length_cons] at hlength
          exact List.length_eq_zero_iff.1 (by omega)

/-- What every state of a run of such steps has in common. -/
structure Settling (c : Crew) (s : ManagedSession) : Prop where
  correlated : Correlated c.worker s.desk
  reported : ∀ turn ∈ c.worker.ended, turn ∈ c.finished
  vouched : c.Vouched s.out.answers

theorem settledResult_succeeded {delivery : ActiveProviderDelivery} {turn : Nat}
    {outcome : TurnOutcome} {receipt : ProviderReceipt}
    (h : ManagedSession.settledResult delivery turn outcome = .succeeded receipt) :
    outcome = .completed := by
  cases outcome <;> first | rfl | cases h

theorem settling_of_reaches {c : Crew} (h : machine.Reaches Exclusive c) :
    ∀ s ∈ c.session, c.Settling s := by
  refine reaches_change (P := fun c => ∀ s ∈ c.session, c.Settling s) ?_ ?_ h
  · rintro c ⟨id, mode, limits, walDir, rfl⟩ s hs
    exact (Option.not_mem_none s hs).elim
  · intro c a c' hsane ih hallowed hchange s hs
    cases hchange with
    | created vacant session' new =>
        rw [session'] at hs
        cases hs
        have hidle := (hsane.vacant vacant).1
        refine ⟨correlated_none new.active, ?_, ?_⟩
        · show ∀ turn ∈ c.worker.ended, _
          rw [hidle]
          nofun
        · rw [show s.out.answers = [] from new.answers]
          nofun
    | @worked _ old _ command _ _ deed _ inputs arrives worked =>
        rw [worked.session'] at hs
        cases hs
        have hbefore := ih _ worked.session
        have hdeed : ∀ turns outcome, deed ≠ .settled turns outcome := by
          rintro turns outcome rfl
          obtain ⟨hcommand, -⟩ := worked.works.by_
          rw [hcommand] at arrives
          exact absurd rfl arrives
        obtain ⟨settled, failed, hanswers, hfailed, hsettled⟩ := worked.works.step.answers
        have hnone : settled = [] := by
          cases settled with
          | nil => rfl
          | cons answer rest =>
              obtain ⟨turns, outcome, -, hsettles, -⟩ := hsettled answer List.mem_cons_self
              exact absurd hsettles (hdeed turns outcome)
        refine ⟨worked.correlated (hsane.desk _ worked.session) hbefore.correlated hallowed hdeed,
          ?_, ?_⟩
        · rw [worked.worker, worked.finished, Worker.takeAll_ended]
          split
          · nofun
          · exact hbefore.reported
        · rw [show s.out.answers = _ from hanswers, hnone, List.append_nil]
          have hvouched : c'.Vouched old.out.answers := by
            intro reply receipt hmem
            rw [worked.finished]
            exact hbefore.vouched reply receipt hmem
          exact hvouched.fail hfailed
    | @reported _ old _ _ _ _ inputs turn outcome rest ended worked =>
        rw [worked.session'] at hs
        cases hs
        have hbefore := ih _ worked.session
        have hworker : c.worker.unreported =
            turn :: ({ c.worker with ended := rest } : Worker).unreported := by
          unfold Worker.unreported
          rw [ended]
          rfl
        obtain ⟨hcorrelated, hserves⟩ := worked.correlated_settled (hsane.desk _ worked.session)
          hbefore.correlated hworker (hallowed _ worked.session)
        obtain ⟨settled, failed, hanswers, hfailed, hsettled⟩ := worked.works.step.answers
        have hfinished : (turn, outcome) ∈ c.finished :=
          hbefore.reported _ (by rw [ended]; exact List.mem_cons_self)
        refine ⟨hcorrelated, ?_, ?_⟩
        · rw [worked.worker, worked.finished, Worker.takeAll_ended]
          split
          · nofun
          · intro other hother
            exact hbefore.reported other (by rw [ended]; exact List.mem_cons_of_mem _ hother)
        · rw [show s.out.answers = _ from hanswers]
          refine Vouched.fail ?_ hfailed
          intro reply receipt hmem
          rw [worked.finished]
          rcases List.mem_append.1 hmem with hmem | hmem
          · exact hbefore.vouched reply receipt hmem
          · obtain ⟨turns, outcome', delivery, hdeed, hterminal, hanswer⟩ := hsettled _ hmem
            cases hdeed
            rw [Prod.mk.injEq] at hanswer
            rw [settledResult_succeeded hanswer.2.symm] at hfinished
            refine ⟨turn, hfinished, ?_⟩
            rw [hanswer.1]
            exact hserves delivery hterminal
    | @hungUp connected receiving old server hsession session' =>
        rw [session'] at hs
        cases hs
        have hbefore := ih old hsession
        refine ⟨?_, hbefore.reported, hbefore.vouched⟩
        rw [hangUp_desk]
        exact hbefore.correlated
    | @ended outcome turn rest queue =>
        have hbefore := ih s hs
        have hunreported : ({ queue := rest, ended := c.worker.ended ++ [(turn, outcome)] } :
            Worker).unreported = c.worker.unreported := by
          unfold Worker.unreported
          rw [queue, List.map_append, List.append_assoc]
          rfl
        refine ⟨⟨hbefore.correlated.past, ?_⟩, ?_, ?_⟩
        · rw [hunreported]
          exact hbefore.correlated.own
        · intro other hother
          rcases List.mem_append.1 hother with hother | hother
          · exact List.mem_append_left _ (hbefore.reported other hother)
          · exact List.mem_append_right _ hother
        · intro reply receipt hmem
          obtain ⟨served, hserved, hserves⟩ := hbefore.vouched reply receipt hmem
          exact ⟨served, List.mem_append_left _ hserved, hserves⟩
    | @crashed kept server revived =>
        change server.manager.session = some s at hs
        rw [hs] at revived
        cases revived with
        | back _ _ _ => exact ⟨correlated_none rfl, nofun, nofun⟩

/-- A delivery is answered with success only if a turn that consumed its
payload completed, and the turn count that settles the active delivery
is the end of such a turn. -/
theorem settled_by_own_turn {c : Crew} (h : machine.Reaches Exclusive c) {s : ManagedSession}
    (hs : c.session = some s) :
    (∀ reply receipt, (reply, .succeeded receipt) ∈ s.out.answers →
        ∃ turn, (turn, TurnOutcome.completed) ∈ c.finished ∧ turn.Serves reply) ∧
      ∀ turn outcome rest, c.worker.ended = (turn, outcome) :: rest →
        ∀ delivery ∈ s.activeProviderDelivery, delivery.generation = s.channelGeneration →
          delivery.targetTurnCount ≤ s.turns + 1 → turn.Serves delivery.reply := by
  have hsettling := settling_of_reaches h s hs
  refine ⟨hsettling.vouched, ?_⟩
  intro turn outcome rest hended delivery hdelivery hcurrent _
  obtain ⟨-, turn', rest', hunreported, hserves⟩ :=
    hsettling.correlated.own delivery hdelivery hcurrent
  unfold Worker.unreported at hunreported
  rw [hended] at hunreported
  cases hunreported
  exact hserves

/-- A request of the provider the sample session runs. -/
def sampleRequest : ProviderDeliveryRequest :=
  { serverSessionId := "s"
    provider := .claude
    envelope := { attemptId := { value := "attempt", nonempty := by decide }
                  providerBlocks := .ok ["payload"] } }

/-- A prompt and its turn; then a delivery and its turn. -/
def deliveredRun : List CrewAct :=
  [.create "/w" "label" .claude none .good, .command (.prompt "first" []) .good,
    .command (.publishChannel Server.sampleHandle 0 false false) .good, .turnEnds .completed,
    .turnCount .good, .command (.cogDelivery sampleRequest 7) .good, .turnEnds .completed,
    .turnCount .good]

/-- Whether an answer is one of success. -/
def succeeded (answer : Nat × ProviderDeliveryResult) : Bool :=
  match answer.2 with
  | .succeeded _ => true
  | .failed _ => false

theorem settled_by_own_turn_deliveredRun :
    ((machine.run (.empty Server.sample) deliveredRun).bind fun c => c.session.map fun s =>
        (s.out.answers.map fun answer => (answer.1, succeeded answer), c.finished.length)) =
        some ([(7, true)], 2) ∧
      ∀ c ∈ machine.run (.empty Server.sample) deliveredRun, ∀ s ∈ c.session,
        (∀ reply receipt, (reply, .succeeded receipt) ∈ s.out.answers →
          ∃ turn, (turn, TurnOutcome.completed) ∈ c.finished ∧ turn.Serves reply) := by
  refine ⟨by decide, fun c hrun s hs => ?_⟩
  exact (settled_by_own_turn (.of_run (.start ⟨_, _, _, _, rfl⟩) (by decide) hrun) hs).1

/-- Two prompts are sent. The end of the first turn clears the busy flag,
so a delivery is sent behind the second prompt, and the end of the
second turn settles it. -/
theorem settled_by_another_turn :
    ¬ ∀ c s, machine.Reachable c → c.session = some s →
      ∀ reply receipt, (reply, .succeeded receipt) ∈ s.out.answers →
        ∃ turn, (turn, TurnOutcome.completed) ∈ c.finished ∧ turn.Serves reply := by
  intro hall
  have hrun : ((machine.run (.empty Server.sample)
      [.create "/w" "label" .claude none .good,
        .command (.publishChannel Server.sampleHandle 0 false false) .good,
        .command (.prompt "first" []) .good, .command (.prompt "second" []) .good,
        .turnEnds .completed, .turnCount .good, .command (.cogDelivery sampleRequest 7) .good,
        .turnEnds .completed, .turnCount .good]).bind fun c => c.session.map fun s =>
      (s.out.answers.map fun answer => (answer.1, succeeded answer),
        c.finished.any fun turn => decide (turn.1.Serves 7))) = some ([(7, true)], false) := by decide
  obtain ⟨c, hc, hmap⟩ := Option.bind_eq_some_iff.1 hrun
  obtain ⟨s, hs, hparts⟩ := Option.map_eq_some_iff.1 hmap
  rw [Prod.mk.injEq] at hparts
  obtain ⟨hanswers, hnone⟩ := hparts
  have hone : ∃ receipt, (7, .succeeded receipt) ∈ s.out.answers := by
    have hmem : (7, true) ∈ s.out.answers.map fun answer => (answer.1, succeeded answer) := by
      rw [hanswers]
      exact List.mem_cons_self
    obtain ⟨⟨reply, result⟩, hanswer, heq⟩ := List.mem_map.1 hmem
    rw [Prod.mk.injEq] at heq
    obtain ⟨rfl, hsucceeded⟩ := heq
    cases result with
    | succeeded receipt => exact ⟨receipt, hanswer⟩
    | failed failure => cases hsucceeded
  obtain ⟨receipt, hmem⟩ := hone
  obtain ⟨turn, hturn, hserves⟩ :=
    hall c s (Machine.reachable_of_run ⟨_, _, _, _, rfl⟩ hc) hs 7 receipt hmem
  have hany : (c.finished.any fun turn => decide (turn.1.Serves 7)) = true :=
    List.any_eq_true.2 ⟨_, hturn, decide_eq_true hserves⟩
  rw [hnone] at hany
  cases hany

end Crew

end Yaldabaoth
