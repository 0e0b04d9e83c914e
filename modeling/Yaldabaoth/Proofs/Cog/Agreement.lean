import Yaldabaoth.Proofs.Cog.JournalFaults
import Yaldabaoth.Proofs.Cog.Operations

/-!
# `Yaldabaoth.Proofs.Cog.Agreement`: the inflight map and the journal

Every attempt in flight should be in the phase its latest journal record
says. `Agrees` states that, together with the fact it leans on: an
attempt is in flight under its own id.

Two things break it. A renewal stores whatever attempt the server
answers with, and a claim may name an attempt that is already in flight
awaiting its provider, in which case the journal goes back to `claimed`
before the new dispatch is recorded. `inflight_agrees` says that nothing
else does.
-/

set_option autoImplicit false

namespace Yaldabaoth

open Effect LineLog

/-- Every renewal that succeeds is answered with the attempt that was
asked for. -/
def Surroundings.RenewsOwn (w : Surroundings) : Prop :=
  ∀ n id attempt, w.renewAttempt n id = some (.ok attempt) → attempt.common.attemptId = id

/-- A phase that is recorded is that of the record. -/
theorem InflightPhase.journalState_of_ofRecorded {state : JournalState} {phase : InflightPhase}
    (h : InflightPhase.ofRecorded state = some phase) : state = phase.journalState := by
  cases state <;> cases h <;> rfl

/-- It is no phase of waiting. -/
theorem InflightPhase.not_awaiting_of_ofRecorded {state : JournalState} {phase : InflightPhase}
    (h : InflightPhase.ofRecorded state = some phase) : phase.isAwaiting = false := by
  cases state <;> cases h <;> rfl

namespace CoordinatorRun

/-- Attempts are in flight under their own id, in the phase of their
latest record. -/
structure Agrees (s : CoordinatorRun) : Prop where
  own : ∀ id x, s.flying id = some x → x.attempt.common.attemptId = id
  agrees : ∀ id x, s.flying id = some x →
    ∃ r, s.latest id = some r ∧ r.state = x.phase.journalState

variable {w : Surroundings} {s s' : CoordinatorRun} {c : JournalCall} {events : List CogEvent}

/-- What changes one id only keeps the agreement when that id agrees. -/
theorem Agrees.update (h : s.Agrees) (id : OpaqueId)
    (hlatest : ∀ a, a ≠ id → s'.latest a = s.latest a)
    (hflying : ∀ a, a ≠ id → s'.flying a = s.flying a)
    (hid : ∀ x, s'.flying id = some x → x.attempt.common.attemptId = id ∧
      ∃ r, s'.latest id = some r ∧ r.state = x.phase.journalState) : s'.Agrees := by
  constructor
  · intro a x hx
    by_cases ha : a = id
    · subst ha
      exact (hid x hx).1
    · exact h.own a x (by rw [← hflying a ha]; exact hx)
  · intro a x hx
    by_cases ha : a = id
    · subst ha
      exact (hid x hx).2
    · rw [hlatest a ha]
      exact h.agrees a x (by rw [← hflying a ha]; exact hx)

/-- What changes neither side keeps the agreement. -/
theorem Agrees.congr (h : s.Agrees) (hlatest : ∀ a, s'.latest a = s.latest a)
    (hflying : ∀ a, s'.flying a = s.flying a) : s'.Agrees := by
  constructor
  · intro a x hx
    exact h.own a x (by rw [← hflying a]; exact hx)
  · intro a x hx
    rw [hlatest a]
    exact h.agrees a x (by rw [← hflying a]; exact hx)

theorem Agrees.called (h : s.Agrees) : (s.called events).Agrees := h.congr (fun _ => rfl) fun _ => rfl

theorem Agrees.erase (h : s.Agrees) (id : OpaqueId) :
    (s.withInflight (s.coordinator.inflight.erase id)).Agrees := by
  refine h.update id (fun _ _ => rfl) (fun a ha => ?_) fun x hx => ?_
  · rw [flying_erase, if_neg (Ne.symm ha)]
  · rw [flying_erase, if_pos rfl] at hx
    cases hx

theorem Agrees.failed (h : s.Agrees) (hc : c.succeeds w.json s.coordinator.journal = false) :
    (s.journaled (c.after w.json s.coordinator.journal) events).Agrees :=
  h.congr (latest_of_fails hc) fun _ => rfl

/-- A record of an attempt that is not in flight. -/
theorem Agrees.grounded (h : s.Agrees) (hc : c.succeeds w.json s.coordinator.journal = true)
    (hnone : s.flying c.entry.attemptId = none) :
    (s.journaled (c.after w.json s.coordinator.journal) events).Agrees := by
  refine h.update c.entry.attemptId (fun a ha => ?_) (fun _ _ => rfl) fun x hx => ?_
  · rw [latest_of_succeeds hc, if_neg (Ne.symm ha)]
  · rw [journaled_flying, hnone] at hx
    cases hx

/-! ### Operations on what is in flight -/

theorem agrees_takeOut (id : OpaqueId) (state : JournalState) :
    Keeps Agrees (takeOut w id state) := by
  intro s h
  simp only [takeOut, ends_bind, ends_get]
  cases hx : s.flying id with
  | none => rw [flying] at hx; rw [hx]; exact h
  | some x =>
      have hown := h.own id x hx
      rw [flying] at hx
      rw [hx]
      simp only [ends_bind, ends_removeInflight]
      have herased := h.erase id
      refine ends_appendAttemptState (fun c hid _ hyes => ?_) (fun c halt hno => ?_) fun e => herased
      · refine herased.grounded hyes ?_
        rw [flying_erase, hid, hown, if_pos rfl]
      · exact herased.failed hno

/-- The answer to a terminal mutation: the record, then the removal. -/
theorem agrees_finishFlush {id : OpaqueId} {x : InflightAttempt}
    (hown : x.attempt.common.attemptId = id) (result : Except ClientError AttemptView) :
    Keeps Agrees (finishFlush w id x result) := by
  intro s h
  cases result with
  | error e =>
      simp only [finishFlush]
      split
      · exact agrees_takeOut id _ s h
      · exact h
  | ok view =>
      simp only [finishFlush]
      split
      · rw [ends_bind]
        refine ends_appendAttemptState (fun c hid _ hyes => ?_) (fun c halt hno => h.failed hno)
          fun e => h
        rw [ends_removeInflight]
        -- The record and the map disagree in between; the removal ends that.
        refine h.update id (fun a ha => ?_) (fun a ha => ?_) fun y hy => ?_
        · rw [withInflight_latest, latest_of_succeeds hyes, if_neg]
          rw [hid, hown]
          exact Ne.symm ha
        · rw [flying_erase, if_neg (Ne.symm ha)]
          rfl
        · rw [flying_erase, if_pos rfl] at hy
          cases hy
      · exact h

theorem agrees_flushTerminal (id : OpaqueId) : Keeps Agrees (flushTerminal w id) := by
  intro s h
  simp only [flushTerminal, ends_bind, ends_get]
  split
  · exact h
  · split
    · exact h
    · next x hx =>
        have hown := h.own id x hx
        split
        · exact h
        · rw [ends_bind]
          exact ends_ask (fun result _ => agrees_finishFlush hown result _ h.called) h.called
        · rw [ends_bind]
          exact ends_ask (fun result _ => agrees_finishFlush hown result _ h.called) h.called

theorem agrees_retryTerminalMutations : Keeps Agrees (retryTerminalMutations w) := by
  refine Keeps.get.bind fun s => ?_
  exact Keeps.each agrees_flushTerminal _

theorem agrees_recordProviderResult (id : OpaqueId) (result : ProviderDeliveryResult) :
    Keeps Agrees (recordProviderResult w id result) := by
  intro s h
  simp only [recordProviderResult, ends_bind, ends_get]
  split
  · exact h
  · next x hx =>
      have hown := h.own id x hx
      split
      · next key hkey =>
          simp only [ends_bind]
          refine ends_appendAttemptState (fun c hid hstate hyes => ?_) (fun c halt hno => h.failed hno)
            fun e => h
          rw [ends_insertInflight]
          refine agrees_flushTerminal id _ ?_
          refine h.update id (fun a ha => ?_) (fun a ha => ?_) fun y hy => ?_
          · rw [withInflight_latest, latest_of_succeeds hyes, if_neg]
            rw [hid, hown]
            exact Ne.symm ha
          · rw [flying_insert, if_neg (Ne.symm ha)]
            rfl
          · rw [flying_insert, if_pos rfl] at hy
            cases hy
            refine ⟨hown, c.record s.coordinator.journal, ?_, hstate⟩
            rw [withInflight_latest, latest_of_succeeds hyes, hid, hown, if_pos rfl]
      · exact h

theorem agrees_renewAttempt (hrenews : w.RenewsOwn) (hostFence : Nat) (id : OpaqueId) :
    Keeps Agrees (renewAttempt w hostFence id) := by
  intro s h
  simp only [renewAttempt, ends_bind, ends_get]
  split
  · exact h
  · next x hx =>
      simp only [ends_bind]
      refine ends_ask (fun result hresult => ?_) h.called
      cases result with
      | ok view =>
          simp only [finishRenewal, ends_bind, ends_get]
          split
          · exact h.called
          · next current hcurrent =>
              rw [ends_insertInflight]
              refine h.update id (fun _ _ => rfl) (fun a ha => ?_) fun y hy => ?_
              · rw [flying_insert, if_neg (Ne.symm ha)]
                rfl
              · rw [flying_insert, if_pos rfl] at hy
                cases hy
                exact ⟨hrenews _ _ _ hresult, h.agrees id current hcurrent⟩
      | error e =>
          simp only [finishRenewal]
          split
          · exact agrees_takeOut id _ _ h.called
          · split
            · split
              · exact agrees_takeOut id _ _ h.called
              · exact h.called.erase id
            · exact h.called

theorem agrees_renewAttempts (hrenews : w.RenewsOwn) : Keeps Agrees (renewAttempts w) := by
  refine Keeps.get.bind fun s => ?_
  split
  · exact Keeps.throw _
  · exact Keeps.each (agrees_renewAttempt hrenews _) _

/-! ### Shutting down and claiming -/

theorem agrees_releaseAttempt (hostFence : Nat) (id : OpaqueId) :
    Keeps Agrees (releaseAttempt w hostFence id) := by
  intro s h
  simp only [releaseAttempt, ends_bind, ends_get]
  split
  · exact h
  · simp only [ends_bind]
    refine ends_ask (fun result _ => ?_) h.called
    cases result with
    | ok _ => exact agrees_takeOut id _ _ h.called
    | error e =>
        dsimp only
        split
        · exact agrees_takeOut id _ _ h.called
        · exact h.called

theorem agrees_undisturbed : Undisturbed Agrees where
  asked _ _ _ h := h.called
  hosted _ _ _ h := h.congr (fun _ => rfl) fun _ => rfl

theorem agrees_shutdown : Keeps Agrees (shutdown w) := by
  refine Keeps.get.bind fun s => ?_
  split
  · exact Keeps.pure _
  · refine agrees_retryTerminalMutations.bind fun _ => ?_
    refine Keeps.get.bind fun s => ?_
    refine (Keeps.each (agrees_releaseAttempt _) _).bind fun _ => ?_
    refine (agrees_undisturbed.ask rfl _).bind fun answer => ?_
    refine (keeps_ofClient answer).bind fun _ => ?_
    exact Keeps.modify fun s h => h.congr (fun _ => rfl) fun _ => rfl

/-- Nothing is in flight. -/
def Grounded (s : CoordinatorRun) : Prop := ∀ id, s.flying id = none

theorem Grounded.agrees (h : s.Grounded) : s.Agrees where
  own id x hx := by rw [h id] at hx; cases hx
  agrees id x hx := by rw [h id] at hx; cases hx

theorem grounded_undisturbed : Undisturbed Grounded where
  asked _ _ _ h := h
  hosted _ _ _ h := h

/-- An activation with nothing in flight puts nothing in flight. -/
theorem grounded_activate : Keeps Grounded (activate w) := by
  refine grounded_undisturbed.activate ?_
  refine Keeps.get.bind fun s => ?_
  refine Keeps.each (fun record => ?_) _
  refine (grounded_undisturbed.ask rfl _).bind fun answer => ?_
  refine (keeps_ofClient answer).bind fun attempt => ?_
  split
  · split
    · exact Keeps.pure _
    · intro s h
      exact ends_appendEntry (fun c _ _ => h) fun c halt _ _ => h
  · exact Keeps.throw _

/-- The second half of a fresh admission: the key and its record. -/
def startDispatch (w : Surroundings) (attempt : AttemptView) : CogCall PUnit := do
  let n ← nextTick
  appendAttemptState w attempt (.dispatchStarted (w.newUuid n))

/-- The admission of an attempt that is in flight awaiting its provider
writes the `claimed` record and then fails to write the next one. -/
def halfReclaims (w : Surroundings) (s : CoordinatorRun) (attempt : AttemptView) : Bool :=
  match s.coordinator.admission attempt with
  | .fresh _ =>
      (s.flying attempt.common.attemptId).any (·.phase.isAwaiting) &&
        match (appendAttemptState w attempt .claimed).exec s with
        | (.ok _, s') =>
            match (startDispatch w attempt).exec s' with
            | (.error (.failed _), _) => true
            | _ => false
        | _ => false
  | _ => false

/-- No admission of a claim response is such a one. -/
def steady (w : Surroundings) : List AttemptView → CoordinatorRun → Bool
  | [], _ => true
  | attempt :: rest, s =>
      !halfReclaims w s attempt &&
        match (admitClaimedAttempt w attempt).exec s with
        | (.ok _, s') => steady w rest s'
        | _ => true

section admission

variable {attempt : AttemptView}

/-- What an admission found out. -/
theorem admission_cases (s : CoordinatorRun) (attempt : AttemptView) :
    (∃ error, s.coordinator.admission attempt = .refused error) ∨
    s.coordinator.admission attempt = .skipped ∨
    (∃ r phase, s.latest attempt.common.attemptId = some r ∧
      InflightPhase.ofRecorded r.state = some phase ∧
      s.coordinator.admission attempt = .settled phase) ∨
    (∃ route, s.latest attempt.common.attemptId = none ∧
      s.coordinator.admission attempt = .fresh route) ∨
    (∃ r route, s.latest attempt.common.attemptId = some r ∧
      r.state.isLocallyTerminal = false ∧ InflightPhase.ofRecorded r.state = none ∧
      s.coordinator.admission attempt = .fresh route) := by
  unfold DeliveryCoordinator.admission latest
  split
  · exact .inl ⟨_, rfl⟩
  · split
    · exact .inr (.inl rfl)
    · next route _ =>
        split
        · exact .inl ⟨_, rfl⟩
        · split
          · exact .inl ⟨_, rfl⟩
          · split
            · next hnone => exact .inr (.inr (.inr (.inl ⟨route, hnone, rfl⟩)))
            · next r hr =>
                split
                · exact .inl ⟨_, rfl⟩
                · split
                  · exact .inr (.inl rfl)
                  · next hterminal =>
                      split
                      · next phase hphase =>
                          exact .inr (.inr (.inl ⟨r, phase, hr, hphase, rfl⟩))
                      · next hphase =>
                          exact .inr (.inr (.inr (.inr
                            ⟨r, route, hr, by simpa using hterminal, hphase, rfl⟩)))

/-- A settled attempt is taken up in the phase of its last record. -/
theorem admission_settled {phase : InflightPhase}
    (h : s.coordinator.admission attempt = .settled phase) :
    ∃ r, s.latest attempt.common.attemptId = some r ∧ r.state = phase.journalState := by
  obtain ⟨_, ho⟩ | ho | ⟨r, _, hr, hphase, ho⟩ | ⟨_, _, ho⟩ | ⟨_, _, _, _, _, ho⟩ :=
    admission_cases s attempt <;> rw [ho] at h <;> cases h
  exact ⟨r, hr, InflightPhase.journalState_of_ofRecorded hphase⟩

/-- An attempt that is admitted afresh has no provider result on record. -/
theorem admission_fresh {route : RuntimeRoute} (h : s.coordinator.admission attempt = .fresh route)
    {r : JournalRecord} (hr : s.latest attempt.common.attemptId = some r) :
    InflightPhase.ofRecorded r.state = none ∧ r.state.isLocallyTerminal = false := by
  obtain ⟨_, ho⟩ | ho | ⟨_, _, _, _, ho⟩ | ⟨_, hnone, ho⟩ | ⟨r', _, hr', hterminal, hphase, ho⟩ :=
    admission_cases s attempt <;> rw [ho] at h <;> cases h
  · rw [hnone] at hr
    cases hr
  · rw [hr'] at hr
    cases hr
    exact ⟨hphase, hterminal⟩

/-- So what is in flight under its id is awaiting its provider. -/
theorem Agrees.awaiting_of_fresh (h : s.Agrees) {route : RuntimeRoute}
    (hfresh : s.coordinator.admission attempt = .fresh route) {x : InflightAttempt}
    (hx : s.flying attempt.common.attemptId = some x) : x.phase.isAwaiting = true := by
  obtain ⟨r, hr, hstate⟩ := h.agrees _ x hx
  have hnone := (admission_fresh hfresh hr).1
  rw [hstate] at hnone
  cases hphase : x.phase with
  | awaitingProvider key => rfl
  | providerSucceeded key provider => rw [hphase] at hnone; cases hnone
  | providerFailed key failureClass retryable message => rw [hphase] at hnone; cases hnone

/-- The second record of an admission, and the attempt in flight with it. -/
theorem Agrees.dispatched (h : s.Agrees) {key : ProtocolUuid} {s₁ s₂ : CoordinatorRun}
    (hclaimed : Recorded attempt.common.attemptId .claimed s s₁)
    (hstarted : Recorded attempt.common.attemptId (.dispatchStarted key) s₁ s₂) :
    (s₂.withInflight (s₂.coordinator.inflight.insert attempt.common.attemptId
      { attempt, phase := .awaitingProvider key })).Agrees := by
  refine h.update attempt.common.attemptId (fun a ha => ?_) (fun a ha => ?_) fun y hy => ?_
  · rw [withInflight_latest, hstarted.others a ha, hclaimed.others a ha]
  · rw [flying_insert, if_neg (Ne.symm ha), hstarted.flying, hclaimed.flying]
  · rw [flying_insert, if_pos rfl] at hy
    cases hy
    exact ⟨rfl, hstarted.latest⟩

/-- An admission keeps the agreement unless it is half a reclaim. -/
theorem agrees_admitClaimedAttempt (h : s.Agrees) (hsteady : halfReclaims w s attempt = false) :
    Ends (admitClaimedAttempt w attempt) s (fun _ => Agrees)
      (fun halt s' => halt = .killed ∨ s'.Agrees) := by
  simp only [admitClaimedAttempt, ends_bind, ends_get]
  split
  · exact .inr h
  · exact h
  · next phase hsettled =>
      simp only [ends_bind, ends_insertInflight]
      refine (agrees_flushTerminal attempt.common.attemptId _ ?_).mono (fun _ _ h => h)
        fun _ _ h => .inr h
      refine h.update attempt.common.attemptId (fun _ _ => rfl) (fun a ha => ?_) fun y hy => ?_
      · rw [flying_insert, if_neg (Ne.symm ha)]
      · rw [flying_insert, if_pos rfl] at hy
        cases hy
        exact ⟨rfl, admission_settled hsettled⟩
  · next route hfresh =>
      rw [ends_bind]
      refine (appendAttemptState_maps attempt .claimed).observed.mono ?_
        fun _ _ hfails => .inr (h.congr hfails.2.latest hfails.2.flying)
      rintro ⟨⟩ s₁ ⟨hrun, hclaimed⟩
      rw [ends_bind, ends_nextTick, ends_bind]
      refine (appendAttemptState_maps attempt _).observed.mono ?_ ?_
      · rintro ⟨⟩ s₂ ⟨-, hstarted⟩
        simp only [ends_bind, ends_insertInflight, ends_emit, ends_pure]
        have hnumbered : Recorded attempt.common.attemptId .claimed s
            { s₁ with tick := s₁.tick + 1 } :=
          ⟨hclaimed.flying, hclaimed.others, hclaimed.latest⟩
        exact (h.dispatched hnumbered hstarted).congr (fun _ => rfl) fun _ => rfl
      · rintro halt s₂ ⟨hrun₂, hfails⟩
        cases hx : s.flying attempt.common.attemptId with
        | none =>
            right
            refine h.update attempt.common.attemptId (fun a ha => ?_) (fun a _ => ?_) fun y hy => ?_
            · exact (hfails.latest a).trans (hclaimed.others a ha)
            · exact (hfails.flying a).trans (hclaimed.flying a)
            · have hnone : s₂.flying attempt.common.attemptId = none :=
                ((hfails.flying _).trans (hclaimed.flying _)).trans hx
              rw [hnone] at hy
              cases hy
        | some x =>
            -- The old dispatch is still in flight, but no longer on record.
            left
            have hawaits := h.awaiting_of_fresh hfresh hx
            simp only [halfReclaims, hfresh, hx, Option.any_some, hawaits, Bool.true_and,
              hrun] at hsteady
            have hstart : (startDispatch w attempt).exec s₁ = (.error halt, s₂) := by
              rw [startDispatch, exec_bind]
              exact hrun₂
            rw [hstart] at hsteady
            cases halt with
            | killed => rfl
            | failed e => cases hsteady

/-- Neither does a loop of admissions that are none. -/
theorem agrees_admitAll (attempts : List AttemptView) :
    ∀ {s : CoordinatorRun}, s.Agrees → steady w attempts s = true →
      Ends (admitAll w attempts) s (fun _ => Agrees) (fun halt s' => halt = .killed ∨ s'.Agrees) := by
  induction attempts with
  | nil => exact fun h _ => h
  | cons attempt rest ih =>
      intro s h hsteady
      rw [steady, Bool.and_eq_true, Bool.not_eq_true'] at hsteady
      obtain ⟨hhere, hrest⟩ := hsteady
      rw [admitAll, ends_bind]
      refine (agrees_admitClaimedAttempt h hhere).observed.mono ?_ fun _ _ h => h.2
      rintro action s₁ ⟨hrun, h₁⟩
      rw [hrun] at hrest
      rw [ends_bind]
      exact (ih h₁ hrest).mono (fun _ _ h => h) fun _ _ h => h

end admission

/-- No admission of the claim that is made now is half a reclaim. -/
def steadyClaim (w : Surroundings) (s : CoordinatorRun) : Bool :=
  match s.coordinator.hostFence, w.claim s.tick with
  | some hostFence, some (.ok response) =>
      steady w response.attempts
        (s.called [.sent (.claim s.coordinator.config.hostId (claimRequest s.coordinator hostFence))])
  | _, _ => true

theorem agrees_claimAvailable (h : s.Agrees) (hsteady : steadyClaim w s = true) :
    Ends (claimAvailable w) s (fun _ => Agrees) (fun halt s' => halt = .killed ∨ s'.Agrees) := by
  simp only [claimAvailable, ends_bind, ends_get]
  split
  · exact .inr h
  · next hostFence hfence =>
      rw [ends_bind]
      refine ends_ask (fun answer hanswer => ?_) (.inl rfl)
      rw [ends_bind]
      refine ends_ofClient (fun response hresponse => ?_) fun e _ => .inr h.called
      rw [steadyClaim, hfence, hanswer, hresponse] at hsteady
      rw [ends_bind]
      exact (agrees_admitAll response.attempts h.called hsteady).mono (fun _ _ h => h) fun _ _ h => h

end CoordinatorRun

/-! ### Over runs -/

namespace CogHost

/-- An activation starts with nothing in flight, and no claim is half a
reclaim. -/
def steadily (w : Surroundings) (s : CogHost) : CogAct → Bool
  | .call .activate => s.process.all (·.inflight.isEmpty)
  | .call .claimAvailable => s.process.all fun c => CoordinatorRun.steadyClaim w (s.running c)
  | _ => true

open CoordinatorRun

theorem agrees_call {w : Surroundings} (hrenews : w.RenewsOwn) {s : CogHost}
    {c : DeliveryCoordinator} (hc : s.process = some c) (h : (s.running c).Agrees) (op : CogOp)
    (hop : s.steadily w (.call op) = true) :
    Ends (op.call w) (s.running c) (fun _ => Agrees) (fun halt s' => halt = .killed ∨ s'.Agrees) := by
  have hkeeps : ∀ {m : CogCall PUnit}, Keeps Agrees m →
      Ends m (s.running c) (fun _ => Agrees) (fun halt s' => halt = .killed ∨ s'.Agrees) :=
    fun hm => (hm _ h).mono (fun _ _ h => h) fun _ _ h => .inr h
  cases op with
  | activate =>
      have hgrounded : (s.running c).Grounded := by
        intro id
        rw [steadily, hc] at hop
        exact Std.TreeMap.getElem?_of_isEmpty hop
      refine (ends_bind.2 ((grounded_activate (w := w) _ hgrounded).mono (fun _ _ h => ?_) fun _ _ h => ?_))
      · exact h.agrees
      · exact .inr h.agrees
  | claimAvailable =>
      rw [steadily, hc] at hop
      refine ends_bind.2 ((agrees_claimAvailable h hop).mono (fun _ _ h => ?_) fun _ _ h => ?_)
      · exact h
      · exact h
  | revalidateCapabilities =>
      exact hkeeps (agrees_undisturbed.revalidateCapabilities.bind fun _ => Keeps.pure _)
  | renewHost => exact hkeeps agrees_undisturbed.renewHost
  | recordProviderResult id result => exact hkeeps (agrees_recordProviderResult id result)
  | retryTerminalMutations => exact hkeeps agrees_retryTerminalMutations
  | renewAttempts => exact hkeeps (agrees_renewAttempts hrenews)
  | shutdown => exact hkeeps agrees_shutdown

/-- In every run of steady steps, every attempt in flight has the record
of its phase as its latest. -/
theorem inflight_agrees (w : Surroundings) (hrenews : w.RenewsOwn) (s : CogHost)
    (h : (machine w).Reaches (fun s a => s.steadily w a = true) s) (c : DeliveryCoordinator)
    (hc : s.process = some c) (id : OpaqueId) (x : InflightAttempt)
    (hx : c.inflight[id]? = some x) :
    ∃ r, c.journal.latest id = some r ∧ r.state = x.phase.journalState := by
  have hagrees : ∀ c, s.process = some c → (s.running c).Agrees := by
    refine h.invariant (P := fun s => ∀ c, s.process = some c → (s.running c).Agrees) ?_ ?_
    · rintro _ ⟨disk, rfl⟩ c hc
      cases hc
    · intro s a s' ih hsteady hs c' hc'
      obtain ⟨config, journal, rfl, -, -, rfl⟩ | ⟨op, c, rfl, hc, rfl⟩ | ⟨c, rfl, -, rfl⟩ :=
        step_cases hs
      · cases hc'
        exact Grounded.agrees fun _ => rfl
      · exact afterCall_running (agrees_call hrenews hc (ih c hc) op hsteady) hc'
      · cases hc'
  exact (hagrees c hc).agrees id x hx

end CogHost

/-! ### One attempt, claimed twice -/

namespace Sample

def config : CoordinatorConfig :=
  { hostId := ⟨"h", by decide⟩, instanceId := ⟨"00000000-0000-4000-8000-000000000001"⟩,
    routes := [⟨sampleEntry.addressId, "s", .codex⟩, ⟨⟨"y", by decide⟩, "t", .claude⟩],
    hostLeaseSeconds := 60, attemptLeaseSeconds := 60, maxAttempts := 4, maxEntries := 4,
    maxContentBytes := 4096, reconcileOwnership := false, takeoverLiveHost := false }

/-- A claimed attempt of the delivery `d`. -/
def attempt (id address : OpaqueId) : AttemptView :=
  { common :=
      { attemptId := id, deliveryKey := sampleEntry.deliveryKey,
        payloadDigest := sampleEntry.payloadDigest, attemptFence := 1,
        hostId := some config.hostId, hostFence := some 1, addressId := address,
        ownerGeneration := 1, providerBlocks := .ok ["text", "data"] }
    status := .claimed }

def attemptA : AttemptView := attempt sampleEntry.attemptId sampleEntry.addressId

def attemptC : AttemptView := attempt ⟨"c", by decide⟩ ⟨"y", by decide⟩

def keyA : ProtocolUuid := ⟨"00000000-0000-4000-8000-00000000000a"⟩

/-- The journal record of an attempt in a state. -/
def record (seq : Nat) (view : AttemptView) (state : JournalState) : JournalRecord :=
  { at_ := ⟨"2026-08-25T18:02:03.000000000Z"⟩, attemptId := view.common.attemptId,
    deliveryKey := view.common.deliveryKey, payloadDigest := view.common.payloadDigest,
    addressId := view.common.addressId, hostFence := 1, ownerGeneration := 1, attemptFence := 1,
    state, seq }

/-- A server that grants every lease and claims `claimed`, and a disk
without faults. -/
def calm (json : JournalJson) (claimed : List AttemptView) : Surroundings :=
  { json
    disk := fun _ => .returns .done
    now := fun _ => ⟨"2026-08-25T18:02:03.000000000Z"⟩
    newUuid := fun _ => keyA
    pages := 1
    probeCapabilities := fun _ => some (.ok (.available
      { protocolVersions := [protocolVersion], sourceKinds := [.mail, .chat],
        providerKinds := [.codex, .claude], features := requiredFeatures,
        limits :=
          { hostLeaseSeconds := ⟨1, 600⟩, attemptLeaseSeconds := ⟨1, 600⟩, maxClaimAttempts := 8,
            maxClaimEntries := 8, maxClaimContentBytes := 8192 } }))
    getHostLease := fun _ => some (.error (.api 404 ⟨.hostNotFound, "no host"⟩))
    acquireHostLease := fun _ => some (.ok ⟨⟨config.instanceId, 1⟩, true⟩)
    renewHostLease := fun _ => some (.ok ⟨⟨config.instanceId, 1⟩, true⟩)
    releaseHostLease := fun _ => some (.ok ())
    getDeliveryOwner := fun _ => some (.ok (.external config.hostId 1))
    putDeliveryOwner := fun _ => some (.ok (.external config.hostId 1))
    listOpenAttempts := fun _ => some (.ok ⟨[], none⟩)
    getAttempt := fun _ => some (.ok attemptA)
    claim := fun _ => some (.ok ⟨claimed, false, false⟩)
    renewAttempt := fun _ id =>
      if id = attemptA.common.attemptId then some (.ok attemptA)
      else some (.error (.api 404 ⟨.attemptNotFound, "no attempt"⟩))
    releaseAttempt := fun _ => some (.ok ())
    completeAttempt := fun _ => some (.ok { attemptA with status := .completed })
    failAttempt := fun _ => some (.ok { attemptA with status := .retryWait }) }

/-- The records of a dispatch, a second claim and a second dispatch. -/
def reclaimRows : List (JournalRecord × Bytes) :=
  [(record 1 attemptA .claimed, ascii "\x7b\"seq\":\"1\"\x7d"),
    (record 2 attemptA (.dispatchStarted keyA), ascii "\x7b\"seq\":\"2\"\x7d"),
    (record 3 attemptA .claimed, ascii "\x7b\"seq\":\"3\"\x7d"),
    (record 4 attemptA (.dispatchStarted keyA), ascii "\x7b\"seq\":\"4\"\x7d")]

/-- The same, and the write of the second dispatch record fails. -/
def reclaim : Surroundings :=
  { calm (.ofRows reclaimRows) [attemptA] with
    disk := fun n => if n = 13 then .returns (.writeFails 0) else .returns .done }

end Sample

namespace CogHost

theorem renewsOwn_calm (json : JournalJson) (claimed : List AttemptView) :
    (Sample.calm json claimed).RenewsOwn := by
  intro n id view h
  simp only [Sample.calm] at h
  split at h
  · next hid =>
      cases h
      exact hid.symm
  · cases h

theorem renewsOwn_reclaim : Sample.reclaim.RenewsOwn :=
  renewsOwn_calm (.ofRows Sample.reclaimRows) [Sample.attemptA]

/-- One claim and a renewal. -/
theorem inflight_agrees_reclaim :
    (((machine Sample.reclaim).run ⟨[], none, 0, []⟩
        [.start Sample.config, .call .activate, .call .claimAvailable, .call .renewAttempts]).bind
      fun s => s.process.map fun c => c.inflight.keys) = some [⟨"a", by decide⟩] ∧
    ∀ s ∈ (machine Sample.reclaim).run ⟨[], none, 0, []⟩
        [.start Sample.config, .call .activate, .call .claimAvailable, .call .renewAttempts],
      ∀ c, s.process = some c → ∀ id x, c.inflight[id]? = some x →
        ∃ r, c.journal.latest id = some r ∧ r.state = x.phase.journalState := by
  refine ⟨by decide +kernel, fun s hrun c hc id x hx => ?_⟩
  exact inflight_agrees Sample.reclaim renewsOwn_reclaim s
    (.of_run (.start ⟨[], rfl⟩) (by decide +kernel) hrun) c hc id x hx

/-- A second claim names the attempt in flight, and the write of its
dispatch record fails: the attempt is still awaiting its provider, and
its latest record says `claimed`. -/
theorem reclaimed_inflight_disagrees :
    (machine Sample.reclaim).start ⟨[], none, 0, []⟩ ∧
    (((machine Sample.reclaim).run ⟨[], none, 0, []⟩
        [.start Sample.config, .call .activate, .call .claimAvailable,
          .call .claimAvailable]).bind fun s => s.process.map fun c =>
      (c.inflight[Sample.attemptA.common.attemptId]?.map (·.phase),
        (c.journal.latest Sample.attemptA.common.attemptId).map (·.state))) =
      some (some (.awaitingProvider Sample.keyA), some .claimed) := by
  exact ⟨⟨[], rfl⟩, by decide +kernel⟩

end CogHost

end Yaldabaoth
