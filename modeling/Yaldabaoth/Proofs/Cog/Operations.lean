import Yaldabaoth.Model.CogHost
import Yaldabaoth.Proofs.Cog.JournalFile

/-!
# `Yaldabaoth.Proofs.Cog.Operations`: the parts operations are made of

How the elementary steps of a coordinator operation end, as rules for
`Effect.Ends`: a request, an append, a change of the inflight map. The
proofs about whole operations cite these and never open the steps.
-/

set_option autoImplicit false

namespace Yaldabaoth

open Effect

namespace CoordinatorRun

variable {w : Surroundings} {s : CoordinatorRun} {α : Type}

/-- The latest record of an attempt. -/
def latest (s : CoordinatorRun) (id : OpaqueId) : Option JournalRecord :=
  s.coordinator.journal.latest id

/-- What is in flight under an id. -/
def flying (s : CoordinatorRun) (id : OpaqueId) : Option InflightAttempt :=
  s.coordinator.inflight[id]?

/-- The process after a call: numbered, and seen. -/
def called (s : CoordinatorRun) (events : List CogEvent) : CoordinatorRun :=
  { s with tick := s.tick + 1, events := s.events ++ events }

/-- The process after a call of `append`. -/
def journaled (s : CoordinatorRun) (j : DeliveryJournal) (events : List CogEvent) :
    CoordinatorRun :=
  { coordinator := { s.coordinator with journal := j }, tick := s.tick + 1,
    events := s.events ++ events }

/-- The process with another inflight map. -/
def withInflight (s : CoordinatorRun) (inflight : IdMap InflightAttempt) : CoordinatorRun :=
  { s with coordinator := { s.coordinator with inflight } }

@[simp] theorem journaled_events (j : DeliveryJournal) (events : List CogEvent) :
    (s.journaled j events).events = s.events ++ events := rfl

@[simp] theorem journaled_journal (j : DeliveryJournal) (events : List CogEvent) :
    (s.journaled j events).coordinator.journal = j := rfl

/-! ### What the steps change -/

section changes

variable {c : JournalCall} {events : List CogEvent} {m : IdMap InflightAttempt}
  {x : InflightAttempt}

@[simp] theorem withInflight_latest (id : OpaqueId) :
    (s.withInflight m).latest id = s.latest id := rfl

@[simp] theorem journaled_flying (j : DeliveryJournal) (id : OpaqueId) :
    (s.journaled j events).flying id = s.flying id := rfl

/-- An append that succeeds is the latest record of its attempt. -/
theorem latest_of_succeeds (h : c.succeeds w.json s.coordinator.journal = true) (id : OpaqueId) :
    (s.journaled (c.after w.json s.coordinator.journal) events).latest id =
      if c.entry.attemptId = id then some (c.record s.coordinator.journal) else s.latest id := by
  show (c.after w.json s.coordinator.journal).attempts[id]? = _
  rw [(JournalCall.after_of_succeeds h).1]
  exact IdMap.get_insert ..

/-- One that fails changes no latest record. -/
theorem latest_of_fails (h : c.succeeds w.json s.coordinator.journal = false) (id : OpaqueId) :
    (s.journaled (c.after w.json s.coordinator.journal) events).latest id = s.latest id := by
  show (c.after w.json s.coordinator.journal).attempts[id]? = _
  rw [JournalCall.after_of_fails h]
  rfl

theorem flying_insert (k id : OpaqueId) :
    (s.withInflight (s.coordinator.inflight.insert k x)).flying id =
      if k = id then some x else s.flying id :=
  IdMap.get_insert ..

theorem flying_erase (k id : OpaqueId) :
    (s.withInflight (s.coordinator.inflight.erase k)).flying id =
      if k = id then none else s.flying id :=
  IdMap.get_erase ..

end changes

/-! ### Small steps -/

section rules

variable {R : PUnit → CoordinatorRun → Prop} {E : Halt → CoordinatorRun → Prop}

@[simp] theorem ends_nextTick {Q : Nat → CoordinatorRun → Prop} :
    Ends nextTick s Q E ↔ Q s.tick { s with tick := s.tick + 1 } := Iff.rfl

@[simp] theorem ends_emit {event : CogEvent} :
    Ends (emit event) s R E ↔ R ⟨⟩ { s with events := s.events ++ [event] } := Iff.rfl

@[simp] theorem ends_modifyCoordinator {f : DeliveryCoordinator → DeliveryCoordinator} :
    Ends (modifyCoordinator f) s R E ↔ R ⟨⟩ { s with coordinator := f s.coordinator } := Iff.rfl

@[simp] theorem ends_insertInflight {id : OpaqueId} {x : InflightAttempt} :
    Ends (insertInflight id x) s R E ↔
      R ⟨⟩ (s.withInflight (s.coordinator.inflight.insert id x)) := Iff.rfl

@[simp] theorem ends_removeInflight {id : OpaqueId} :
    Ends (removeInflight id) s R E ↔
      R ⟨⟩ (s.withInflight (s.coordinator.inflight.erase id)) := Iff.rfl

theorem exec_ask {request : CogRequest} {answer : Nat → Answer α} :
    (ask request answer).exec s = match answer s.tick with
      | none => (.error .killed, s.called [.sent request])
      | some result => (.ok result, s.called [.sent request]) := by
  rw [ask, exec_bind]
  show (match answer s.tick with
    | none => throw .killed
    | some result => pure result : CogCall (Except ClientError α)).exec (s.called [.sent request]) = _
  cases answer s.tick <;> rfl

/-- A request is seen, and answered unless the process dies. -/
theorem ends_ask {request : CogRequest} {answer : Nat → Answer α}
    {Q : Except ClientError α → CoordinatorRun → Prop}
    (hanswer : ∀ result, answer s.tick = some result → Q result (s.called [.sent request]))
    (hdies : E .killed (s.called [.sent request])) : Ends (ask request answer) s Q E := by
  simp only [ask, ends_bind, ends_nextTick, ends_emit]
  cases h : answer s.tick with
  | none => exact hdies
  | some result => exact hanswer result h

/-- The `?` on an answer goes on with a value or fails. -/
theorem ends_ofClient {Q : α → CoordinatorRun → Prop} {result : Except ClientError α}
    (hok : ∀ a, result = .ok a → Q a s) (herror : ∀ e, result = .error e → E (.failed (.client e)) s) :
    Ends (ofClient result) s Q E := by
  cases result with
  | ok a => exact hok a rfl
  | error e => exact herror e rfl

/-- An append is a call of the journal: it succeeds and is seen, or the
operation ends with it. -/
theorem ends_appendEntry {entry : Timestamp → JournalEntry}
    (hok : ∀ c : JournalCall, c.entry = entry (w.now s.tick) →
      c.succeeds w.json s.coordinator.journal = true →
      R ⟨⟩ (s.journaled (c.after w.json s.coordinator.journal)
        [.appended (c.record s.coordinator.journal)]))
    (hfail : ∀ (c : JournalCall) (halt : Halt), c.entry = entry (w.now s.tick) →
      c.succeeds w.json s.coordinator.journal = false →
      E halt (s.journaled (c.after w.json s.coordinator.journal) [])) :
    Ends (appendEntry w entry) s R E := by
  simp only [appendEntry, ends_bind, ends_nextTick, ends_get]
  cases hdisk : w.disk s.tick with
  | dies written =>
      let c : JournalCall := ⟨entry (w.now s.tick), .writeFails written⟩
      have hno : c.succeeds w.json s.coordinator.journal = false :=
        JournalCall.fails_of_writeFails rfl
      have hend := hfail c .killed rfl hno
      rw [journaled, List.append_nil] at hend
      exact hend
  | returns io =>
      let c : JournalCall := ⟨entry (w.now s.tick), io⟩
      simp only [ends_bind, ends_modifyCoordinator]
      cases hresult : (s.coordinator.journal.append w.json c.entry c.io).2 with
      | error e =>
          have hno : c.succeeds w.json s.coordinator.journal = false := by
            rw [JournalCall.succeeds, hresult]
            rfl
          have hend := hfail c (.failed (.journal e)) rfl hno
          rw [journaled, List.append_nil] at hend
          exact hend
      | ok r =>
          have hyes : c.succeeds w.json s.coordinator.journal = true := by
            rw [JournalCall.succeeds, hresult]
            rfl
          have hr : r = c.record s.coordinator.journal := by
            have hreturns := JournalCall.returns_of_succeeds hyes
            rw [hresult] at hreturns
            exact Except.ok.inj hreturns
          have hend := hok c rfl hyes
          rw [← hr] at hend
          exact hend

/-- So is an append for an attempt, under the attempt's own id. -/
theorem ends_appendAttemptState {attempt : AttemptView} {state : JournalState}
    (hok : ∀ c : JournalCall, c.entry.attemptId = attempt.common.attemptId →
      c.entry.state = state → c.succeeds w.json s.coordinator.journal = true →
      R ⟨⟩ (s.journaled (c.after w.json s.coordinator.journal)
        [.appended (c.record s.coordinator.journal)]))
    (hfail : ∀ (c : JournalCall) (halt : Halt), c.succeeds w.json s.coordinator.journal = false →
      E halt (s.journaled (c.after w.json s.coordinator.journal) []))
    (hfence : ∀ e, E (.failed e) s) : Ends (appendAttemptState w attempt state) s R E := by
  rw [appendAttemptState]
  cases attempt.common.hostFence with
  | none => exact hfence _
  | some hostFence =>
      refine ends_appendEntry (fun c hc hyes => ?_) fun c halt _ hno => hfail c halt hno
      exact hok c (by rw [hc]) (by rw [hc]) hyes

end rules

/-- Neither journal nor inflight map has changed. -/
structure SameMaps (s s' : CoordinatorRun) : Prop where
  flying : ∀ a, s'.flying a = s.flying a
  latest : ∀ a, s'.latest a = s.latest a

/-- One attempt has a new latest record, in the given state. -/
structure Recorded (id : OpaqueId) (state : JournalState) (s s' : CoordinatorRun) : Prop where
  flying : ∀ a, s'.flying a = s.flying a
  others : ∀ a, a ≠ id → s'.latest a = s.latest a
  latest : ∃ r, s'.latest id = some r ∧ r.state = state

/-- What an append does to the maps, when no more is needed of it. -/
theorem appendAttemptState_maps (attempt : AttemptView) (state : JournalState) :
    Ends (appendAttemptState w attempt state) s
      (fun _ s' => Recorded attempt.common.attemptId state s s') (fun _ s' => SameMaps s s') := by
  refine ends_appendAttemptState (fun c hid hstate hyes => ⟨fun _ => rfl, fun a ha => ?_, ?_⟩)
    (fun c _ hno => ⟨fun _ => rfl, latest_of_fails hno⟩) fun _ => ⟨fun _ => rfl, fun _ => rfl⟩
  · rw [latest_of_succeeds hyes, hid, if_neg (Ne.symm ha)]
  · refine ⟨c.record s.coordinator.journal, ?_, hstate⟩
    rw [latest_of_succeeds hyes, hid, if_pos rfl]

/-! ### Operations that leave journal and inflight map alone -/

/-- An invariant that neither requests without a provider result nor a
new lease or route disturb. -/
structure Undisturbed (I : CoordinatorRun → Prop) : Prop where
  asked : ∀ (s : CoordinatorRun) (request : CogRequest), request.outcome = none → I s →
    I (s.called [.sent request])
  hosted : ∀ (s : CoordinatorRun) (hostFence : Option Nat) (eligible : IdMap RuntimeRoute), I s →
    I { s with coordinator := { s.coordinator with hostFence, eligible } }

section undisturbed

variable {I : CoordinatorRun → Prop}

theorem keeps_ofClient (result : Except ClientError α) : Keeps I (ofClient result) := by
  cases result with
  | ok a => exact Keeps.pure a
  | error e => exact Keeps.throw _

theorem keeps_currentLease (answer : Except ClientError HostLeaseResponse) :
    Keeps I (currentLease answer) := by
  cases answer with
  | ok response => exact Keeps.pure _
  | error e =>
      rw [currentLease]
      split
      · exact Keeps.pure _
      · exact Keeps.throw _

variable (hI : Undisturbed I)
include hI

theorem Undisturbed.ask {request : CogRequest} (hrequest : request.outcome = none)
    (answer : Nat → Answer α) : Keeps I (ask request answer) := by
  intro s h
  have hcalled := hI.asked s request hrequest h
  exact ends_ask (fun _ _ => hcalled) hcalled

theorem Undisturbed.renewHost : Keeps I (renewHost w) := by
  refine Keeps.get.bind fun s => ?_
  split
  · exact Keeps.throw _
  · refine (hI.ask rfl _).bind fun answer => ?_
    refine (keeps_ofClient answer).bind fun response => ?_
    exact Keeps.modify fun s h => hI.hosted s _ _ h

theorem Undisturbed.revalidateCapabilities : Keeps I (revalidateCapabilities w) := by
  refine Keeps.get.bind fun s => ?_
  refine (hI.ask rfl _).bind fun answer => ?_
  refine (keeps_ofClient answer).bind fun probe => ?_
  split
  · exact Keeps.pure _
  · split
    · exact Keeps.throw _
    · split
      · exact Keeps.throw _
      · exact Keeps.pure _

theorem Undisturbed.claimOwner (config : CoordinatorConfig) (route : RuntimeRoute)
    (current : DeliveryOwner) : Keeps I (claimOwner w config route current) := by
  unfold CoordinatorRun.claimOwner
  split
  · exact Keeps.pure _
  · split
    · refine (hI.ask rfl _).bind fun answer => ?_
      split
      · exact Keeps.pure _
      · split
        · exact Keeps.pure _
        · exact Keeps.throw _
    · exact Keeps.pure _

theorem Undisturbed.reconcileRoutesFrom (config : CoordinatorConfig) (routes : List RuntimeRoute) :
    ∀ seen, Keeps I (reconcileRoutesFrom w config seen routes) := by
  induction routes with
  | nil => exact fun _ => Keeps.pure _
  | cons route rest ih =>
      intro seen
      rw [CoordinatorRun.reconcileRoutesFrom]
      split
      · exact Keeps.throw _
      · refine (hI.ask rfl _).bind fun answer => ?_
        split
        · split
          · exact ih _
          · exact Keeps.throw _
        · refine (hI.claimOwner config route _).bind fun owner => ?_
          split
          · refine (Keeps.modify fun s h => hI.hosted s _ _ h).bind fun _ => ?_
            exact ih _
          · exact ih _

theorem Undisturbed.reconcileRoutes : Keeps I (reconcileRoutes w) := by
  refine (Keeps.modify fun s h => hI.hosted s _ _ h).bind fun _ => ?_
  refine Keeps.get.bind fun s => ?_
  exact hI.reconcileRoutesFrom _ _ _

theorem Undisturbed.validateOpenAttemptsFrom (pages : Nat) :
    ∀ after, Keeps I (validateOpenAttemptsFrom w pages after) := by
  induction pages with
  | zero => exact fun _ => Keeps.throw _
  | succ pages ih =>
      intro after
      refine Keeps.get.bind fun s => ?_
      refine (hI.ask rfl _).bind fun answer => ?_
      refine (keeps_ofClient answer).bind fun page => ?_
      dsimp only
      split
      · exact Keeps.throw _
      · split
        · exact Keeps.pure _
        · exact ih _

/-- What the appends of an activation keep, the activation keeps. -/
theorem Undisturbed.activate (hjournal : Keeps I (reconcileJournalTerminals w)) :
    Keeps I (activate w) := by
  refine hI.revalidateCapabilities.bind fun status => ?_
  split
  · exact Keeps.pure _
  · refine Keeps.get.bind fun s => ?_
    refine (hI.ask rfl _).bind fun answer => ?_
    refine (keeps_currentLease answer).bind fun current => ?_
    split
    · exact Keeps.throw _
    · refine (hI.ask rfl _).bind fun answer => ?_
      refine (keeps_ofClient answer).bind fun lease => ?_
      refine (Keeps.modify fun s h => hI.hosted s _ _ h).bind fun _ => ?_
      refine hI.reconcileRoutes.bind fun _ => ?_
      refine (hI.validateOpenAttemptsFrom _ _).bind fun _ => ?_
      refine hjournal.bind fun _ => ?_
      exact Keeps.get.bind fun s => Keeps.pure _

end undisturbed

end CoordinatorRun

/-! ### Steps of the host -/

namespace CogHost

variable {w : Surroundings} {s s' : CogHost} {a : CogAct}

/-- The running process, as an operation sees it. -/
def running (s : CogHost) (c : DeliveryCoordinator) : CoordinatorRun :=
  { coordinator := c, tick := s.tick, events := s.events }

theorem step_cases (h : (machine w).step s a = some s') :
    (∃ config journal, a = .start config ∧ s.process = none ∧
      openJournal w.json s.disk = .ok journal ∧
      s' = { s with
        disk := journal.contents
        process := some (.new config journal)
        events := s.events ++ [.opened journal.attempts] }) ∨
    (∃ op c, a = .call op ∧ s.process = some c ∧
      s' = afterCall ((op.call w).exec (s.running c))) ∨
    (∃ c, a = .die ∧ s.process = some c ∧ s' = { s with process := none }) := by
  cases a with
  | start config =>
      simp only [machine, step] at h
      cases hproc : s.process with
      | some c => rw [hproc] at h; cases h
      | none =>
          rw [hproc] at h
          cases hopen : openJournal w.json s.disk with
          | error e => rw [hopen] at h; cases h
          | ok journal =>
              rw [hopen] at h
              cases h
              exact .inl ⟨config, journal, rfl, rfl, rfl, rfl⟩
  | call op =>
      simp only [machine, step, Option.map_eq_some_iff] at h
      obtain ⟨c, hproc, rfl⟩ := h
      exact .inr (.inl ⟨op, c, rfl, hproc, rfl⟩)
  | die =>
      simp only [machine, step, Option.map_eq_some_iff] at h
      obtain ⟨c, hproc, rfl⟩ := h
      exact .inr (.inr ⟨c, rfl, hproc, rfl⟩)

/-- What an operation establishes, unless the process dies in it, holds
of the process after it. -/
theorem afterCall_running {m : CogCall PUnit} {r : CoordinatorRun} {P : CoordinatorRun → Prop}
    (h : Effect.Ends m r (fun _ => P) (fun halt r' => halt = .killed ∨ P r'))
    {c : DeliveryCoordinator} (hc : (afterCall (m.exec r)).process = some c) :
    P ((afterCall (m.exec r)).running c) := by
  unfold Effect.Ends at h
  split at h
  · next r' hm =>
      rw [hm] at hc ⊢
      simp only [afterCall, running] at hc ⊢
      cases hc
      exact h
  · next e r' hm =>
      rw [hm] at hc ⊢
      simp only [afterCall, running] at hc ⊢
      obtain rfl | h := h
      · cases hc
      · split at hc
        · cases hc
        · cases hc
          exact h

end CogHost

end Yaldabaoth
