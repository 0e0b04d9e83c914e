import Yaldabaoth.Proofs.Cog.Agreement

/-!
# `Yaldabaoth.Proofs.Cog.Handover`: the actions of a claim that fails

`claim_available` admits the attempts of a response one by one, and each
fresh one is in flight, awaiting its provider, before the next is looked
at. An admission that fails ends the call with an error, and the actions
collected so far are dropped: their attempts wait for a result that
nobody was asked for.

`hands_over_iff` says that this is the only way. `admitClaimedAttempt_fate`
is what one admission does, `admitAll_fate` what the loop does.
-/

set_option autoImplicit false

namespace Yaldabaoth

open Effect LineLog

namespace CoordinatorRun

variable {w : Surroundings} {s s' : CoordinatorRun} {id : OpaqueId} {attempt : AttemptView}

/-- The attempt is in flight and awaits its provider. -/
def Awaits (s : CoordinatorRun) (id : OpaqueId) : Prop :=
  ∃ x, s.flying id = some x ∧ x.phase.isAwaiting = true

instance : Decidable (s.Awaits id) :=
  decidable_of_iff _ (Option.any_eq_true (·.phase.isAwaiting) (s.flying id))

/-- It does, and its latest record is no provider result. -/
def Waits (s : CoordinatorRun) (id : OpaqueId) : Prop :=
  s.Awaits id ∧ ∃ r, s.latest id = some r ∧ InflightPhase.ofRecorded r.state = none

/-! ### What a flush touches -/

/-- Only this attempt is touched, and it is in flight as before or no
more. -/
structure Confined (id : OpaqueId) (s s' : CoordinatorRun) : Prop where
  flying : ∀ a, a ≠ id → s'.flying a = s.flying a
  latest : ∀ a, a ≠ id → s'.latest a = s.latest a
  here : s'.flying id = s.flying id ∨ s'.flying id = none

theorem Confined.refl (id : OpaqueId) (s : CoordinatorRun) : Confined id s s :=
  ⟨fun _ _ => rfl, fun _ _ => rfl, .inl rfl⟩

theorem Confined.of_sameMaps (h : SameMaps s s') : Confined id s s' :=
  ⟨fun a _ => h.flying a, fun a _ => h.latest a, .inl (h.flying id)⟩

theorem confined_takeOut {state : JournalState}
    (hown : ∀ x, s.flying id = some x → x.attempt.common.attemptId = id) :
    Ends (takeOut w id state) s (fun _ => Confined id s) (fun _ => Confined id s) := by
  simp only [takeOut, ends_bind, ends_get]
  cases hx : s.flying id with
  | none =>
      rw [flying] at hx
      rw [hx]
      exact .refl id s
  | some x =>
      have hid := hown x hx
      rw [flying] at hx
      rw [hx]
      simp only [ends_bind, ends_removeInflight]
      have hothers : ∀ a, a ≠ id →
          (s.withInflight (s.coordinator.inflight.erase id)).flying a = s.flying a := by
        intro a ha
        rw [flying_erase, if_neg (Ne.symm ha)]
      have hnone : (s.withInflight (s.coordinator.inflight.erase id)).flying id = none := by
        rw [flying_erase, if_pos rfl]
      refine (appendAttemptState_maps x.attempt state).mono (fun _ s' h => ?_) fun _ s' h => ?_
      · rw [hid] at h
        exact ⟨fun a ha => (h.flying a).trans (hothers a ha), h.others,
          .inr ((h.flying id).trans hnone)⟩
      · exact ⟨fun a ha => (h.flying a).trans (hothers a ha), fun a _ => h.latest a,
          .inr ((h.flying id).trans hnone)⟩

theorem confined_finishFlush {x : InflightAttempt}
    (hown : ∀ x, s.flying id = some x → x.attempt.common.attemptId = id)
    (hx : x.attempt.common.attemptId = id) (result : Except ClientError AttemptView) :
    Ends (finishFlush w id x result) s (fun _ => Confined id s) (fun _ => Confined id s) := by
  cases result with
  | error e =>
      simp only [finishFlush]
      split
      · exact confined_takeOut hown
      · exact .refl id s
  | ok view =>
      simp only [finishFlush]
      split
      · rw [ends_bind]
        refine (appendAttemptState_maps x.attempt _).mono (fun _ s' h => ?_) fun _ s' h =>
          .of_sameMaps h
        rw [hx] at h
        rw [ends_removeInflight]
        refine ⟨fun a ha => ?_, h.others, .inr ?_⟩
        · rw [flying_erase, if_neg (Ne.symm ha), h.flying]
        · rw [flying_erase, if_pos rfl]
      · exact .refl id s

theorem confined_flushTerminal
    (hown : ∀ x, s.flying id = some x → x.attempt.common.attemptId = id) :
    Ends (flushTerminal w id) s (fun _ => Confined id s) (fun _ => Confined id s) := by
  simp only [flushTerminal, ends_bind, ends_get]
  split
  · exact .refl id s
  · split
    · exact .refl id s
    · next x hx =>
        have hflush : ∀ events result, Ends (finishFlush w id x result) (s.called events)
            (fun _ => Confined id s) (fun _ => Confined id s) := fun events result =>
          (confined_finishFlush (s := s.called events) hown (hown x hx) result).mono
            (fun _ _ h => ⟨h.flying, h.latest, h.here⟩) fun _ _ h => ⟨h.flying, h.latest, h.here⟩
        split
        · exact .refl id s
        · rw [ends_bind]
          exact ends_ask (fun result _ => hflush _ result) ⟨fun _ _ => rfl, fun _ _ => rfl, .inl rfl⟩
        · rw [ends_bind]
          exact ends_ask (fun result _ => hflush _ result) ⟨fun _ _ => rfl, fun _ _ => rfl, .inl rfl⟩

/-! ### One admission -/

/-- What an admission does to the waiting attempts: none is lost, and
only the one that was dispatched is new. -/
structure Fate (s s' : CoordinatorRun) (dispatched : List DispatchAction) : Prop where
  new : ∀ id, s'.Awaits id → s.Awaits id ∨ ∃ d ∈ dispatched, d.attemptId = id
  waits : ∀ d ∈ dispatched, s'.Waits d.attemptId
  kept : ∀ id, s.Waits id → s'.Waits id

theorem Fate.of_sameMaps (h : SameMaps s s') : Fate s s' [] where
  new id := by
    rintro ⟨x, hx, hawaits⟩
    exact .inl ⟨x, (h.flying id).symm.trans hx, hawaits⟩
  waits := by simp
  kept id := by
    rintro ⟨⟨x, hx, hawaits⟩, r, hr, hnone⟩
    exact ⟨⟨x, (h.flying id).trans hx, hawaits⟩, r, (h.latest id).trans hr, hnone⟩

theorem Fate.refl (s : CoordinatorRun) : Fate s s [] := .of_sameMaps ⟨fun _ => rfl, fun _ => rfl⟩

theorem Fate.trans {s₁ s₂ : CoordinatorRun} {ds es : List DispatchAction} (h : Fate s s₁ ds)
    (h' : Fate s₁ s₂ es) : Fate s s₂ (ds ++ es) where
  new id hid := by
    obtain hid | ⟨d, hd, rfl⟩ := h'.new id hid
    · obtain hid | ⟨d, hd, rfl⟩ := h.new id hid
      · exact .inl hid
      · exact .inr ⟨d, List.mem_append_left _ hd, rfl⟩
    · exact .inr ⟨d, List.mem_append_right _ hd, rfl⟩
  waits d hd := by
    obtain hd | hd := List.mem_append.1 hd
    · exact h'.kept _ (h.waits d hd)
    · exact h'.waits d hd
  kept id hid := h'.kept id (h.kept id hid)

/-- An attempt whose result is on record is flushed: nothing waits for
it, before or after. -/
theorem fate_settled {phase : InflightPhase}
    (hsettled : s.coordinator.admission attempt = .settled phase)
    (h : Confined attempt.common.attemptId
      (s.withInflight (s.coordinator.inflight.insert attempt.common.attemptId { attempt, phase }))
      s') : Fate s s' [] := by
  obtain ⟨r, hr, hstate⟩ := admission_settled hsettled
  obtain ⟨_, ho⟩ | ho | ⟨r', phase', hr', hphase, ho⟩ | ⟨_, _, ho⟩ | ⟨_, _, _, _, _, ho⟩ :=
    admission_cases s attempt <;> rw [ho] at hsettled <;> cases hsettled
  have hothers : ∀ a, a ≠ attempt.common.attemptId → s'.flying a = s.flying a := by
    intro a ha
    rw [h.flying a ha, flying_insert, if_neg (Ne.symm ha)]
  constructor
  · rintro a ⟨x, hx, hawaits⟩
    by_cases ha : a = attempt.common.attemptId
    · subst ha
      obtain hhere | hhere := h.here
      · rw [flying_insert, if_pos rfl] at hhere
        rw [hhere] at hx
        cases hx
        rw [InflightPhase.not_awaiting_of_ofRecorded hphase] at hawaits
        cases hawaits
      · rw [hhere] at hx
        cases hx
    · exact .inl ⟨x, (hothers a ha).symm.trans hx, hawaits⟩
  · simp
  · rintro a ⟨⟨x, hx, hawaits⟩, q, hq, hnone⟩
    have ha : a ≠ attempt.common.attemptId := by
      rintro rfl
      rw [hr'] at hq
      cases hq
      rw [hphase] at hnone
      cases hnone
    exact ⟨⟨x, (hothers a ha).trans hx, hawaits⟩, q, (h.latest a ha).trans hq, hnone⟩

/-- A record that is no provider result keeps what waits waiting. -/
theorem fate_recorded {state : JournalState} (hstate : InflightPhase.ofRecorded state = none)
    (h : Recorded id state s s') : Fate s s' [] where
  new a := by
    rintro ⟨x, hx, hawaits⟩
    exact .inl ⟨x, (h.flying a).symm.trans hx, hawaits⟩
  waits := by simp
  kept a := by
    rintro ⟨⟨x, hx, hawaits⟩, r, hr, hnone⟩
    refine ⟨⟨x, (h.flying a).trans hx, hawaits⟩, ?_⟩
    by_cases ha : a = id
    · subst ha
      obtain ⟨q, hq, rfl⟩ := h.latest
      exact ⟨q, hq, hstate⟩
    · exact ⟨r, (h.others a ha).trans hr, hnone⟩

/-- An attempt put in flight right after its dispatch was recorded. -/
theorem fate_inserted {x : InflightAttempt} {d : DispatchAction} (hd : d.attemptId = id)
    (hx : x.phase.isAwaiting = true)
    (hrecord : ∃ r, s.latest id = some r ∧ InflightPhase.ofRecorded r.state = none)
    (hflying : ∀ a, s'.flying a = if id = a then some x else s.flying a)
    (hlatest : ∀ a, s'.latest a = s.latest a) : Fate s s' [d] where
  new a := by
    rintro ⟨y, hy, hawaits⟩
    by_cases ha : id = a
    · exact .inr ⟨d, List.mem_singleton_self d, hd.trans ha⟩
    · rw [hflying, if_neg ha] at hy
      exact .inl ⟨y, hy, hawaits⟩
  waits := by
    intro e he
    rw [List.mem_singleton] at he
    subst he
    rw [hd]
    refine ⟨⟨x, ?_, hx⟩, ?_⟩
    · rw [hflying, if_pos rfl]
    · rw [hlatest]
      exact hrecord
  kept a := by
    rintro ⟨⟨y, hy, hawaits⟩, hlast⟩
    refine ⟨?_, by rw [hlatest]; exact hlast⟩
    by_cases ha : id = a
    · exact ⟨x, by rw [hflying, if_pos ha], hx⟩
    · exact ⟨y, by rw [hflying, if_neg ha]; exact hy, hawaits⟩

theorem admitClaimedAttempt_fate (w : Surroundings) (s : CoordinatorRun) (attempt : AttemptView) :
    Ends (admitClaimedAttempt w attempt) s (fun action s' => Fate s s' action.toList)
      (fun _ s' => Fate s s' []) := by
  simp only [admitClaimedAttempt, ends_bind, ends_get]
  split
  · exact .refl s
  · exact .refl s
  · next phase hsettled =>
      simp only [ends_bind, ends_insertInflight]
      refine (confined_flushTerminal ?_).mono (fun _ s' h => ?_) fun _ s' h => ?_
      · intro x hx
        rw [flying_insert, if_pos rfl] at hx
        cases hx
        rfl
      · exact fate_settled hsettled h
      · exact fate_settled hsettled h
  · next route hfresh =>
      rw [ends_bind]
      refine (appendAttemptState_maps attempt .claimed).mono ?_ fun _ s' h => .of_sameMaps h
      rintro ⟨⟩ s₁ hclaimed
      rw [ends_bind, ends_nextTick, ends_bind]
      have hnumbered : Recorded attempt.common.attemptId .claimed s { s₁ with tick := s₁.tick + 1 } :=
        ⟨hclaimed.flying, hclaimed.others, hclaimed.latest⟩
      have hfirst := fate_recorded rfl hnumbered
      refine (appendAttemptState_maps attempt _).mono ?_ fun _ s' h => hfirst.trans (.of_sameMaps h)
      rintro ⟨⟩ s₂ hstarted
      simp only [ends_bind, ends_insertInflight, ends_emit, ends_pure]
      have hsecond := hfirst.trans (fate_recorded rfl hstarted)
      obtain ⟨r, hr, hstate⟩ := hstarted.latest
      let x : InflightAttempt := ⟨attempt, .awaitingProvider (w.newUuid s₁.tick)⟩
      have hinserted : Fate s₂
          (s₂.withInflight (s₂.coordinator.inflight.insert attempt.common.attemptId x))
          [⟨attempt.common.attemptId, route.serverSessionId, route.provider, .fromAttempt attempt⟩] :=
        fate_inserted (x := x) rfl rfl ⟨r, hr, by rw [hstate]; rfl⟩ (flying_insert _) fun _ => rfl
      have hemitted := hsecond.trans hinserted
      exact ⟨hemitted.new, hemitted.waits, hemitted.kept⟩

/-! ### The loop -/

/-- A loop of admissions that ends without an error. -/
theorem admitAll_fate (attempts : List AttemptView) :
    ∀ s, Ends (admitAll w attempts) s (fun ds s' => Fate s s' ds) (fun _ _ => True) := by
  induction attempts with
  | nil => exact fun s => .refl s
  | cons attempt rest ih =>
      intro s
      rw [admitAll, ends_bind]
      refine (admitClaimedAttempt_fate w s attempt).mono ?_ fun _ _ _ => trivial
      intro action s₁ hhere
      rw [ends_bind]
      exact (ih s₁).mono (fun ds s' hrest => hhere.trans hrest) fun _ _ h => h

/-- An admission of the loop fails, after these actions. -/
structure FailsAfter (w : Surroundings) (s : CoordinatorRun) (attempts : List AttemptView)
    (ds : List DispatchAction) (halt : Halt) (s' : CoordinatorRun) : Prop where
  split : ∃ before attempt after s₁, attempts = before ++ attempt :: after ∧
    (admitAll w before).exec s = (.ok ds, s₁) ∧
    (admitClaimedAttempt w attempt).exec s₁ = (.error halt, s')

theorem admitAll_cons_ok {rest : List AttemptView} {action : Option DispatchAction}
    {ds : List DispatchAction} {s₁ s₂ : CoordinatorRun}
    (h : (admitClaimedAttempt w attempt).exec s = (.ok action, s₁))
    (hrest : (admitAll w rest).exec s₁ = (.ok ds, s₂)) :
    (admitAll w (attempt :: rest)).exec s = (.ok (action.toList ++ ds), s₂) := by
  rw [admitAll, exec_bind, h]
  dsimp only
  rw [exec_bind, hrest]
  rfl

/-- The loop fails where one of its admissions does. -/
theorem admitAll_error {attempts : List AttemptView} {halt : Halt} :
    ∀ {s : CoordinatorRun}, (admitAll w attempts).exec s = (.error halt, s') →
      ∃ ds, FailsAfter w s attempts ds halt s' := by
  induction attempts with
  | nil => intro s h; cases h
  | cons attempt rest ih =>
      intro s h
      rw [admitAll, exec_bind] at h
      cases hhere : (admitClaimedAttempt w attempt).exec s with
      | mk result s₁ =>
          rw [hhere] at h
          cases result with
          | error e =>
              cases h
              exact ⟨[], ⟨[], attempt, rest, s, rfl, rfl, hhere⟩⟩
          | ok action =>
              dsimp only at h
              rw [exec_bind] at h
              cases hmore : (admitAll w rest).exec s₁ with
              | mk result s₂ =>
                  rw [hmore] at h
                  cases result with
                  | ok ds => cases h
                  | error e =>
                      cases h
                      obtain ⟨ds, before, failed, after, s₃, rfl, hbefore, hfails⟩ := ih hmore
                      exact ⟨action.toList ++ ds, ⟨attempt :: before, failed, after, s₃, rfl,
                        admitAll_cons_ok hhere hbefore, hfails⟩⟩

theorem FailsAfter.error {attempts : List AttemptView} {ds : List DispatchAction} {halt : Halt}
    (h : FailsAfter w s attempts ds halt s') :
    (admitAll w attempts).exec s = (.error halt, s') := by
  obtain ⟨before, attempt, after, s₁, rfl, hbefore, hfails⟩ := h
  induction before generalizing s ds with
  | nil =>
      cases hbefore
      rw [List.nil_append, admitAll, exec_bind, hfails]
  | cons first before ih =>
      rw [admitAll, exec_bind] at hbefore
      cases hhere : (admitClaimedAttempt w first).exec s with
      | mk result s₂ =>
          rw [hhere] at hbefore
          cases result with
          | error e => cases hbefore
          | ok action =>
              dsimp only at hbefore
              rw [exec_bind] at hbefore
              cases hmore : (admitAll w before).exec s₂ with
              | mk result s₃ =>
                  rw [hmore] at hbefore
                  cases result with
                  | error e => cases hbefore
                  | ok more =>
                      cases hbefore
                      rw [List.cons_append, admitAll, exec_bind, hhere]
                      dsimp only
                      rw [exec_bind, ih hmore]

/-! ### The call -/

/-- The actions the caller gets; there is no caller left after a kill. -/
def handedOut : Except Halt ClaimBatch → Option (List DispatchAction)
  | .ok batch => some batch.dispatches
  | .error (.failed _) => some []
  | .error .killed => none

/-- The call leaves an attempt waiting that did not wait before, and its
caller gets no action for it. -/
def Strands (w : Surroundings) (s : CoordinatorRun) (id : OpaqueId) : Prop :=
  ∃ ds ∈ handedOut ((claimAvailable w).exec s).1,
    ((claimAvailable w).exec s).2.Awaits id ∧ ¬ s.Awaits id ∧ ∀ d ∈ ds, d.attemptId ≠ id

instance : Decidable (Strands w s id) :=
  inferInstanceAs (Decidable (∃ ds ∈ handedOut ((claimAvailable w).exec s).1,
    ((claimAvailable w).exec s).2.Awaits id ∧ ¬ s.Awaits id ∧ ∀ d ∈ ds, d.attemptId ≠ id))

/-- No admission of the response fails after a fresh one: those before
it dispatched only what was waiting before the call. -/
def NoneDropped (w : Surroundings) (s : CoordinatorRun) : Prop :=
  ∀ hostFence response, s.coordinator.hostFence = some hostFence →
    w.claim s.tick = some (.ok response) →
    ∀ ds error s', FailsAfter w
        (s.called [.sent (.claim s.coordinator.config.hostId (claimRequest s.coordinator hostFence))])
        response.attempts ds (.failed error) s' →
      ∀ d ∈ ds, s.Awaits d.attemptId

/-- The call up to its loop: nothing waits that did not wait before. -/
theorem claimAvailable_cases (w : Surroundings) (s : CoordinatorRun) :
    (∃ halt s', (claimAvailable w).exec s = (.error halt, s') ∧ (∀ id, s'.Awaits id ↔ s.Awaits id) ∧
      ∀ hostFence response, s.coordinator.hostFence = some hostFence →
        w.claim s.tick ≠ some (.ok response)) ∨
    ∃ hostFence response, s.coordinator.hostFence = some hostFence ∧
      w.claim s.tick = some (.ok response) ∧
      (claimAvailable w).exec s =
        match (admitAll w response.attempts).exec (s.called
          [.sent (.claim s.coordinator.config.hostId (claimRequest s.coordinator hostFence))]) with
        | (.ok ds, s') => (.ok ⟨ds, response.remainingDue, response.remainingIncompatible⟩, s')
        | (.error halt, s') => (.error halt, s') := by
  rw [claimAvailable, exec_bind, exec_get]
  dsimp only
  split
  · next hfence =>
      exact .inl ⟨_, _, rfl, fun _ => Iff.rfl, fun _ _ h => by rw [hfence] at h; cases h⟩
  · next hostFence hfence =>
      rw [exec_bind, exec_ask]
      cases hanswer : w.claim s.tick with
      | none => exact .inl ⟨_, _, rfl, fun _ => Iff.rfl, fun _ _ _ h => by cases h⟩
      | some answer =>
          cases answer with
          | error e => exact .inl ⟨_, _, rfl, fun _ => Iff.rfl, fun _ _ _ h => by cases h⟩
          | ok response =>
              refine .inr ⟨hostFence, response, hfence, rfl, ?_⟩
              show Effect.exec (admitAll w response.attempts >>= fun _ => pure _) _ = _
              rw [exec_bind]
              rcases (admitAll w response.attempts).exec _ with ⟨_ | _, _⟩ <;> rfl

/-- What the loop dispatched before it failed still waits. -/
theorem FailsAfter.awaits {attempts : List AttemptView} {ds : List DispatchAction} {halt : Halt}
    (h : FailsAfter w s attempts ds halt s') {d : DispatchAction} (hd : d ∈ ds) :
    s'.Awaits d.attemptId := by
  obtain ⟨before, attempt, after, s₁, -, hbefore, hfails⟩ := h
  have hfate := (admitAll_fate before s).of_ok hbefore
  have hlast := (admitClaimedAttempt_fate w s₁ attempt).of_error hfails
  exact (hlast.kept _ (hfate.waits d hd)).1

/-- Nothing else is new to it. -/
theorem FailsAfter.new {attempts : List AttemptView} {ds : List DispatchAction} {halt : Halt}
    (h : FailsAfter w s attempts ds halt s') (hid : s'.Awaits id) :
    s.Awaits id ∨ ∃ d ∈ ds, d.attemptId = id := by
  obtain ⟨before, attempt, after, s₁, -, hbefore, hfails⟩ := h
  have hfate := (admitAll_fate before s).of_ok hbefore
  obtain hid | ⟨d, hd, -⟩ := ((admitClaimedAttempt_fate w s₁ attempt).of_error hfails).new id hid
  · exact hfate.new id hid
  · cases hd

/-- A claim leaves no attempt waiting without its action exactly when no
admission fails after one that put a new attempt in flight. -/
theorem hands_over_iff (w : Surroundings) (s : CoordinatorRun) :
    (∀ id, ¬ Strands w s id) ↔ NoneDropped w s := by
  unfold Strands NoneDropped
  obtain ⟨halt, s', hexec, hsame, hno⟩ | ⟨hostFence, response, hfence, hclaim, hexec⟩ :=
    claimAvailable_cases w s
  · refine ⟨fun _ hostFence response hfence hclaim => absurd hclaim (hno hostFence response hfence), ?_⟩
    rintro - id ⟨ds, -, hawaits, hnew, -⟩
    rw [hexec] at hawaits
    exact hnew ((hsame id).1 hawaits)
  · rw [hexec]
    constructor
    · rintro hstrands hostFence' response' hfence' hclaim' ds error s' hfails d hd
      rw [hfence] at hfence'
      rw [hclaim] at hclaim'
      cases hfence'
      cases hclaim'
      by_contra hnew
      refine hstrands d.attemptId ?_
      rw [hfails.error]
      exact ⟨[], rfl, hfails.awaits hd, hnew, by simp⟩
    · rintro hdropped id ⟨ds, hds, hawaits, hnew, hothers⟩
      cases hloop : (admitAll w response.attempts).exec (s.called
          [.sent (.claim s.coordinator.config.hostId (claimRequest s.coordinator hostFence))]) with
      | mk result s' =>
          rw [hloop] at hds hawaits
          cases result with
          | ok dispatches =>
              cases hds
              obtain hbefore | ⟨d, hd, rfl⟩ := ((admitAll_fate _ _).of_ok hloop).new id hawaits
              · exact hnew hbefore
              · exact hothers d hd rfl
          | error halt =>
              cases halt with
              | killed => cases hds
              | failed error =>
                  obtain ⟨before, hfails⟩ := admitAll_error hloop
                  obtain hbefore | ⟨d, hd, rfl⟩ := hfails.new hawaits
                  · exact hnew hbefore
                  · exact hnew (hdropped hostFence response hfence hclaim before error s' hfails d hd)

end CoordinatorRun

/-! ### Two claimed attempts, one journal line -/

namespace Sample

def handoverRows : List (JournalRecord × Bytes) :=
  [(record 1 attemptA .claimed, ascii "\x7b\"seq\":\"1\"\x7d"),
    (record 2 attemptA (.dispatchStarted keyA), ascii "\x7b\"seq\":\"2\"\x7d"),
    (record 3 attemptC .claimed, ascii "\x7b\"seq\":\"3\"\x7d")]

/-- Two attempts are claimed, and the disk is full when the second is
journaled. -/
def handover : Surroundings :=
  { calm (.ofRows handoverRows) [attemptA, attemptC] with
    disk := fun n => if n < 10 then .returns .done else .returns (.writeFails 0) }

end Sample

/-- The first attempt waits for its provider, and its action is dropped
with the error of the second. -/
theorem CogHost.failed_claim_strands :
    ((CogHost.machine Sample.handover).run ⟨[], none, 0, []⟩
        [.start Sample.config, .call .activate]).any (fun s => s.process.any fun c =>
      decide (CoordinatorRun.Strands Sample.handover (s.running c)
        Sample.attemptA.common.attemptId)) = true := by
  decide +kernel

end Yaldabaoth
