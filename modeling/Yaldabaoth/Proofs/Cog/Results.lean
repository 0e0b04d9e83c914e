import Yaldabaoth.Proofs.Cog.Agreement

/-!
# `Yaldabaoth.Proofs.Cog.Results`: a provider result is final

Once the result of an attempt is in the journal, the attempt is not
dispatched again, and what is reported of it to the server is that
result. The journal's transition table carries this: after a result come
only terminal states, so that neither a `claimed` record nor another
result is ever accepted. `Outcome.kept` is that step, and it holds across
crashes because a file reopens as what its journal remembered, or as
that and one more record the table allows (`Standing`).

What is in flight is reported under its map key, while its records go to
the id in the attempt. `OneResult` is the invariant that ties the two.
-/

set_option autoImplicit false

namespace Yaldabaoth

open Effect LineLog

/-! ### The transition table after a result -/

/-- The latest state of an attempt whose result was `phase`. -/
def InflightPhase.Settles (phase : InflightPhase) (state : JournalState) : Prop :=
  state = phase.journalState ∨ state.isLocallyTerminal = true

namespace InflightPhase

variable {phase phase' : InflightPhase} {state state' : JournalState}

/-- Phases are told apart by their journal states. -/
theorem journalState_inj (h : phase.journalState = phase'.journalState) : phase = phase' := by
  cases phase <;> cases phase' <;> cases h <;> rfl

theorem not_terminal (phase : InflightPhase) : phase.journalState.isLocallyTerminal = false := by
  cases phase <;> rfl

/-- Two results of one attempt are one. -/
theorem Settles.unique (h : phase.Settles phase'.journalState) : phase' = phase := by
  obtain h | h := h
  · exact journalState_inj h
  · rw [not_terminal] at h
    cases h

/-- A settled attempt is not being dispatched. -/
theorem Settles.not_dispatched (hphase : phase.isAwaiting = false) {key : ProtocolUuid} :
    ¬ phase.Settles (.dispatchStarted key) := by
  rintro (h | h)
  · cases phase <;> cases h
    cases hphase
  · cases h

/-- The table allows nothing but a terminal state after a result. -/
theorem terminal_of_allows (hphase : phase.isAwaiting = false)
    (h : phase.journalState.allows state = true) : state.isLocallyTerminal = true := by
  cases phase with
  | awaitingProvider key => cases hphase
  | providerSucceeded key provider => cases state <;> first | rfl | cases h
  | providerFailed key failureClass retryable message => cases state <;> first | rfl | cases h

theorem Settles.kept (hphase : phase.isAwaiting = false) {previous next : JournalRecord}
    (h : phase.Settles previous.state)
    (hvalid : validateTransition (some previous) next = .ok ()) : phase.Settles next.state := by
  rw [validateTransition] at hvalid
  split at hvalid
  · cases hvalid
  · split at hvalid
    · cases hvalid
    · next hterminal =>
        split at hvalid
        · next hallows =>
            rw [h.resolve_right hterminal] at hallows
            exact .inr (terminal_of_allows hphase hallows)
        · cases hvalid

end InflightPhase

/-! ### What a file reopens as -/

/-- The file holds what the journal remembers, and perhaps one record
more; or it does not open. -/
def Standing (json : JournalJson) (j : DeliveryJournal) : Prop :=
  (∃ base landed pieces, Behind json j base landed pieces) ∨ Ruined json j.contents

section standing

variable {json : JournalJson} {j j' : DeliveryJournal}

theorem Standing.reopens (hjson : json.Lawful) (h : Standing json j)
    (hopen : openJournal json j.contents = .ok j') :
    j'.attempts = j.attempts ∨
      ∃ r, validateTransition (j.latest r.attemptId) r = .ok () ∧
        j'.attempts = j.attempts.insert r.attemptId r := by
  obtain ⟨base, landed, pieces, hbehind⟩ | hruined := h
  · rw [hbehind.opens hjson] at hopen
    cases hopen
    cases landed with
    | none => exact .inl rfl
    | some r => exact .inr ⟨r, (hbehind.next r rfl).2.2.1, rfl⟩
  · exact absurd hopen (hruined.not_opens j')

/-- Nothing astray, nothing behind. -/
theorem Behind.intact_of_not_astray {base : Bytes} {landed : Option JournalRecord}
    {pieces : List Bytes} (h : Behind json j base landed pieces) (hno : ¬ Astray landed pieces) :
    Intact json j := by
  rw [Astray, not_or, not_not, not_not] at hno
  have hbase : j.contents = base := by
    rw [h.contents, hno.1, hno.2]
    simp
  have hintact := h.intact
  rw [← hbase] at hintact
  exact hintact

/-- A call of the journal leaves such a file. -/
theorem Standing.after (hjson : json.Lawful) (h : Standing json j) (c : JournalCall) :
    Standing json (c.after json j) := by
  obtain ⟨base, landed, pieces, hbehind⟩ | hruined := h
  · cases c.outcome json j with
    | refused _ _ _ after =>
        rw [after]
        exact .inl ⟨base, landed, pieces, hbehind⟩
    | torn piece accepted _ after =>
        rw [after]
        exact .inl ⟨base, landed, _, hbehind.torn accepted piece⟩
    | unheard accepted _ _ after =>
        rw [after]
        have htext := (JournalCall.of_accepted accepted).2
        by_cases hastray : Astray landed pieces
        · exact .inr (hbehind.ruined hjson hastray htext rfl)
        · have hintact := hbehind.intact_of_not_astray hastray
          by_cases hroom : j.nextSeq < u64Max
          · exact .inl ⟨_, _, _, hintact.unheard accepted hroom⟩
          · exact .inr (hintact.exhausted hjson htext hroom)
    | done accepted _ _ room after =>
        rw [after]
        have htext := (JournalCall.of_accepted accepted).2
        by_cases hastray : Astray landed pieces
        · exact .inr (hbehind.ruined hjson hastray htext rfl)
        · have hintact := (hbehind.intact_of_not_astray hastray).done
            (hjson.faithful _ htext) accepted room
          exact .inl ⟨_, _, _, hintact.behind⟩
  · right
    cases c.outcome json j with
    | refused _ _ _ after => rw [after]; exact hruined
    | torn _ _ _ after => rw [after]; exact hruined.append _
    | unheard _ _ _ after => rw [after]; exact hruined.append _
    | done _ _ _ _ after => rw [after]; exact hruined.append _

end standing

/-! ### What the world has seen -/

/-- The event shows this result of the attempt on record: the record was
acknowledged, or a process found it in the file. -/
def CogEvent.Shows (id : OpaqueId) (phase : InflightPhase) : CogEvent → Prop
  | .appended r => r.attemptId = id ∧ InflightPhase.ofRecorded r.state = some phase
  | .opened attempts =>
      ∃ r, attempts[id]? = some r ∧ InflightPhase.ofRecorded r.state = some phase
  | _ => False

/-- Once an event shows a result, a later one neither dispatches the
attempt nor reports another result of it. -/
def CogEvent.Honours (earlier later : CogEvent) : Prop :=
  ∀ id phase, earlier.Shows id phase →
    (∀ d, later = .dispatched d → d.attemptId ≠ id) ∧
    (∀ request phase', later = .sent request → request.outcome = some (id, phase') → phase' = phase)

namespace CoordinatorRun

variable {w : Surroundings} {s : CoordinatorRun} {events : List CogEvent}

/-- The latest record of every attempt whose result was shown is that
result or terminal. -/
def Remembers (attempts : IdMap JournalRecord) (events : List CogEvent) : Prop :=
  ∀ e ∈ events, ∀ id phase, e.Shows id phase →
    ∃ r, attempts[id]? = some r ∧ phase.Settles r.state

/-- The invariant of a running process: its file is as it remembers it,
it remembers every result shown, what is in flight with a result is in
flight with the one result of its attempt, and so far every event
honours those before it. -/
structure OneResult (w : Surroundings) (s : CoordinatorRun) : Prop where
  standing : Standing w.json s.coordinator.journal
  remembers : Remembers s.coordinator.journal.attempts s.events
  own : ∀ id x, s.flying id = some x → x.attempt.common.attemptId = id
  settled : ∀ id x, s.flying id = some x → x.phase.isAwaiting = false →
    (∃ r, s.latest id = some r ∧ x.phase.Settles r.state) ∧
    ∀ e ∈ s.events, ∀ phase, e.Shows id phase → phase = x.phase
  honours : s.events.Pairwise CogEvent.Honours

theorem not_awaiting_of_shows {e : CogEvent} {id : OpaqueId} {phase : InflightPhase}
    (h : e.Shows id phase) : phase.isAwaiting = false := by
  cases e with
  | appended r => exact InflightPhase.not_awaiting_of_ofRecorded h.2
  | opened attempts =>
      obtain ⟨r, -, hr⟩ := h
      exact InflightPhase.not_awaiting_of_ofRecorded hr
  | sent request => cases h
  | dispatched d => cases h

/-- A valid record keeps what is remembered. -/
theorem Remembers.insert {j : DeliveryJournal} (h : Remembers j.attempts events)
    {r : JournalRecord} (hvalid : validateTransition (j.latest r.attemptId) r = .ok ()) :
    Remembers (j.attempts.insert r.attemptId r) events := by
  intro e he id phase hshows
  obtain ⟨q, hq, hsettles⟩ := h e he id phase hshows
  rw [IdMap.get_insert]
  split
  · next hid =>
      subst hid
      refine ⟨r, rfl, hsettles.kept (not_awaiting_of_shows hshows) ?_⟩
      rw [← hvalid, DeliveryJournal.latest, hq]
  · exact ⟨q, hq, hsettles⟩

/-! ### Single steps -/

section steps

variable {id : OpaqueId} {x : InflightAttempt}

/-- An event that shows nothing and honours what was shown. -/
theorem OneResult.seen (h : OneResult w s) {s' : CoordinatorRun} {e : CogEvent}
    (hcoordinator : s'.coordinator = s.coordinator) (hevents : s'.events = s.events ++ [e])
    (hshows : ∀ id phase, ¬ e.Shows id phase) (hhonours : ∀ d ∈ s.events, d.Honours e) :
    OneResult w s' := by
  have hmem : ∀ d ∈ s'.events, ∀ id phase, d.Shows id phase → d ∈ s.events := by
    intro d hd id phase hshow
    rw [hevents] at hd
    obtain hd | hd := List.mem_append.1 hd
    · exact hd
    · rw [List.mem_singleton.1 hd] at hshow
      exact absurd hshow (hshows id phase)
  constructor
  · rw [hcoordinator]
    exact h.standing
  · intro d hd id phase hshow
    rw [hcoordinator]
    exact h.remembers d (hmem d hd id phase hshow) id phase hshow
  · intro id x hx
    rw [flying, hcoordinator] at hx
    exact h.own id x hx
  · intro id x hx hphase
    rw [flying, hcoordinator] at hx
    obtain ⟨hlatest, hone⟩ := h.settled id x hx hphase
    refine ⟨?_, fun d hd phase hshow => hone d (hmem d hd id phase hshow) phase hshow⟩
    rw [latest, hcoordinator]
    exact hlatest
  · rw [hevents, List.pairwise_append]
    refine ⟨h.honours, List.pairwise_singleton _ _, fun d hd e' he' => ?_⟩
    rw [List.mem_singleton.1 he']
    exact hhonours d hd

/-- A request that reports no provider result. -/
theorem OneResult.asked (h : OneResult w s) {request : CogRequest}
    (hrequest : request.outcome = none) : OneResult w (s.called [.sent request]) := by
  refine h.seen rfl rfl (fun _ _ hshow => hshow) fun d _ id phase _ =>
    ⟨fun _ he => (by cases he), ?_⟩
  rintro _ phase' ⟨⟩ houtcome
  rw [hrequest] at houtcome
  cases houtcome

/-- A request that reports the result in flight. -/
theorem OneResult.reported (h : OneResult w s) (hx : s.flying id = some x)
    (hphase : x.phase.isAwaiting = false) {request : CogRequest}
    (hrequest : request.outcome = some (id, x.phase)) : OneResult w (s.called [.sent request]) := by
  refine h.seen rfl rfl (fun _ _ hshow => hshow) fun d hd id' phase hshow =>
    ⟨fun _ he => (by cases he), ?_⟩
  rintro _ phase' ⟨⟩ houtcome
  rw [hrequest] at houtcome
  cases houtcome
  exact ((h.settled id x hx hphase).2 d hd phase hshow).symm

/-- A dispatch, right after its record. -/
theorem OneResult.dispatched (h : OneResult w s) {d : DispatchAction} {key : ProtocolUuid}
    (hlatest : ∃ r, s.latest d.attemptId = some r ∧ r.state = .dispatchStarted key) :
    OneResult w { s with events := s.events ++ [.dispatched d] } := by
  refine h.seen rfl rfl (fun _ _ hshow => hshow) fun e he id phase hshow =>
    ⟨?_, fun _ _ he => (by cases he)⟩
  rintro _ ⟨⟩ rfl
  obtain ⟨r, hr, hstate⟩ := hlatest
  obtain ⟨q, hq, hsettles⟩ := h.remembers e he d.attemptId phase hshow
  rw [latest, DeliveryJournal.latest, hq] at hr
  cases hr
  rw [hstate] at hsettles
  exact hsettles.not_dispatched (not_awaiting_of_shows hshow)

/-- Taking an attempt out of the map. -/
theorem OneResult.erase (h : OneResult w s) (id : OpaqueId) :
    OneResult w (s.withInflight (s.coordinator.inflight.erase id)) := by
  have hflying : ∀ a y, (s.withInflight (s.coordinator.inflight.erase id)).flying a = some y →
      s.flying a = some y := by
    intro a y hy
    rw [flying_erase] at hy
    split at hy
    · cases hy
    · exact hy
  exact
    { standing := h.standing
      remembers := h.remembers
      own := fun a y hy => h.own a y (hflying a y hy)
      settled := fun a y hy => h.settled a y (hflying a y hy)
      honours := h.honours }

/-- Putting one in: with its result only when that is its latest
record. -/
theorem OneResult.insert (h : OneResult w s) (hown : x.attempt.common.attemptId = id)
    (hresult : x.phase.isAwaiting = false →
      ∃ r, s.latest id = some r ∧ r.state = x.phase.journalState) :
    OneResult w (s.withInflight (s.coordinator.inflight.insert id x)) where
  standing := h.standing
  remembers := h.remembers
  own a y hy := by
    rw [flying_insert] at hy
    split at hy
    · next ha =>
        cases hy
        exact hown.trans ha
    · exact h.own a y hy
  settled a y hy hphase := by
    rw [flying_insert] at hy
    split at hy
    · next ha =>
        cases hy
        subst ha
        obtain ⟨r, hr, hstate⟩ := hresult hphase
        refine ⟨⟨r, hr, .inl hstate⟩, fun e he phase hshow => ?_⟩
        obtain ⟨q, hq, hsettles⟩ := h.remembers e he id phase hshow
        rw [latest, DeliveryJournal.latest, hq] at hr
        cases hr
        rw [hstate] at hsettles
        exact hsettles.unique.symm
    · exact h.settled a y hy hphase
  honours := h.honours

/-- A renewed attempt keeps its phase. -/
theorem OneResult.renewed (h : OneResult w s) (hx : s.flying id = some x) {attempt : AttemptView}
    (hown : attempt.common.attemptId = id) :
    OneResult w (s.withInflight (s.coordinator.inflight.insert id { x with attempt })) where
  standing := h.standing
  remembers := h.remembers
  own a y hy := by
    rw [flying_insert] at hy
    split at hy
    · next ha =>
        cases hy
        exact hown.trans ha
    · exact h.own a y hy
  settled a y hy hphase := by
    rw [flying_insert] at hy
    split at hy
    · next ha =>
        cases hy
        subst ha
        exact h.settled id x hx hphase
    · exact h.settled a y hy hphase
  honours := h.honours

end steps

theorem oneResult_undisturbed : Undisturbed (OneResult w) where
  asked _ _ hrequest h := h.asked hrequest
  hosted _ _ _ h :=
    { standing := h.standing
      remembers := h.remembers
      own := h.own
      settled := h.settled
      honours := h.honours }

/-! ### Appends -/

section appends

variable {c : JournalCall} (hjson : w.json.Lawful)
include hjson

/-- An append that fails. -/
theorem OneResult.failed (h : OneResult w s) (hno : c.succeeds w.json s.coordinator.journal = false) :
    OneResult w (s.journaled (c.after w.json s.coordinator.journal) []) where
  standing := h.standing.after hjson c
  remembers := by
    rw [journaled_events, List.append_nil, journaled_journal, JournalCall.after_of_fails hno]
    exact h.remembers
  own := h.own
  settled id x hx hphase := by
    rw [latest_of_fails hno, journaled_events, List.append_nil]
    exact h.settled id x hx hphase
  honours := by
    rw [journaled_events, List.append_nil]
    exact h.honours

/-- An append that succeeds, of whatever record. -/
theorem OneResult.journaled (h : OneResult w s)
    (hyes : c.succeeds w.json s.coordinator.journal = true) :
    OneResult w (s.journaled (c.after w.json s.coordinator.journal)
      [.appended (c.record s.coordinator.journal)]) := by
  obtain ⟨hattempts, hvalid⟩ := JournalCall.after_of_succeeds hyes
  constructor
  · exact h.standing.after hjson c
  · rw [journaled_journal, hattempts]
    intro e he id phase hshow
    obtain he | he := List.mem_append.1 he
    · exact h.remembers.insert (r := c.record s.coordinator.journal) hvalid e he id phase hshow
    · rw [List.mem_singleton.1 he] at hshow
      obtain ⟨rfl, hphase⟩ := hshow
      exact ⟨_, IdMap.get_insert_self .., .inl (InflightPhase.journalState_of_ofRecorded hphase)⟩
  · exact h.own
  · intro id x hx hphase
    obtain ⟨⟨r, hr, hsettles⟩, hone⟩ := h.settled id x hx hphase
    rw [latest_of_succeeds hyes]
    have hnew : c.entry.attemptId = id →
        x.phase.Settles (c.record s.coordinator.journal).state := by
      rintro rfl
      rw [latest] at hr
      rw [hr] at hvalid
      exact hsettles.kept hphase hvalid
    refine ⟨?_, fun e he phase hshow => ?_⟩
    · split
      · next hid => exact ⟨_, rfl, hnew hid⟩
      · exact ⟨r, hr, hsettles⟩
    · obtain he | he := List.mem_append.1 he
      · exact hone e he phase hshow
      · rw [List.mem_singleton.1 he] at hshow
        have hstate := hnew hshow.1
        rw [InflightPhase.journalState_of_ofRecorded hshow.2] at hstate
        exact hstate.unique
  · rw [journaled_events, List.pairwise_append]
    refine ⟨h.honours, List.pairwise_singleton _ _, fun d _ e he id phase _ => ?_⟩
    rw [List.mem_singleton.1 he]
    exact ⟨fun _ he => (by cases he), fun _ _ he => (by cases he)⟩

theorem oneResult_appendEntry (entry : Timestamp → JournalEntry) :
    Keeps (OneResult w) (appendEntry w entry) := by
  intro s h
  exact ends_appendEntry (fun c _ hyes => h.journaled hjson hyes)
    fun c halt _ hno => h.failed hjson hno

theorem oneResult_appendAttemptState (attempt : AttemptView) (state : JournalState) :
    Keeps (OneResult w) (appendAttemptState w attempt state) := by
  rw [appendAttemptState]
  split
  · exact Keeps.throw _
  · exact oneResult_appendEntry hjson _

theorem oneResult_takeOut (id : OpaqueId) (state : JournalState) :
    Keeps (OneResult w) (takeOut w id state) := by
  refine Keeps.get.bind fun s => ?_
  split
  · exact Keeps.pure _
  · refine (Keeps.modify fun s h => h.erase id).bind fun _ => ?_
    exact oneResult_appendAttemptState hjson _ _

theorem oneResult_finishFlush (id : OpaqueId) (x : InflightAttempt)
    (result : Except ClientError AttemptView) : Keeps (OneResult w) (finishFlush w id x result) := by
  cases result with
  | error e =>
      rw [finishFlush]
      split
      · exact oneResult_takeOut hjson id _
      · exact Keeps.throw _
  | ok view =>
      rw [finishFlush]
      split
      · refine (oneResult_appendAttemptState hjson _ _).bind fun _ => ?_
        exact Keeps.modify fun s h => h.erase id
      · exact Keeps.throw _

theorem oneResult_flushTerminal (id : OpaqueId) : Keeps (OneResult w) (flushTerminal w id) := by
  intro s h
  simp only [flushTerminal, ends_bind, ends_get]
  split
  · exact h
  · split
    · exact h
    · next x hx =>
        split
        · exact h
        · next hphase =>
            have hsettled : x.phase.isAwaiting = false := by rw [hphase]; rfl
            rw [ends_bind]
            refine ends_ask (fun result _ => oneResult_finishFlush hjson id x result _ ?_) ?_
            · exact h.reported hx hsettled (by rw [hphase]; rfl)
            · exact h.reported hx hsettled (by rw [hphase]; rfl)
        · next hphase =>
            have hsettled : x.phase.isAwaiting = false := by rw [hphase]; rfl
            rw [ends_bind]
            refine ends_ask (fun result _ => oneResult_finishFlush hjson id x result _ ?_) ?_
            · exact h.reported hx hsettled (by rw [hphase]; rfl)
            · exact h.reported hx hsettled (by rw [hphase]; rfl)

/-! ### Operations -/

theorem oneResult_recordProviderResult (id : OpaqueId) (result : ProviderDeliveryResult) :
    Keeps (OneResult w) (recordProviderResult w id result) := by
  intro s h
  simp only [recordProviderResult, ends_bind, ends_get]
  split
  · exact h
  · next x hx =>
      have hown := h.own id x hx
      split
      · next key hkey =>
          simp only [ends_bind]
          refine ends_appendAttemptState (fun c hid hstate hyes => ?_)
            (fun c halt hno => h.failed hjson hno) fun e => h
          rw [ends_insertInflight]
          refine oneResult_flushTerminal hjson id _ ((h.journaled hjson hyes).insert hown fun _ => ?_)
          refine ⟨c.record s.coordinator.journal, ?_, hstate⟩
          rw [latest_of_succeeds hyes, hid, hown, if_pos rfl]
      · exact h

theorem oneResult_retryTerminalMutations : Keeps (OneResult w) (retryTerminalMutations w) := by
  refine Keeps.get.bind fun s => ?_
  exact Keeps.each (oneResult_flushTerminal hjson) _

theorem oneResult_finishRenewal (id : OpaqueId) (x : InflightAttempt)
    {result : Except ClientError AttemptView}
    (hown : ∀ attempt, result = .ok attempt → attempt.common.attemptId = id) :
    Keeps (OneResult w) (finishRenewal w id x result) := by
  cases result with
  | ok attempt =>
      intro s h
      simp only [finishRenewal, ends_bind, ends_get]
      split
      · exact h
      · next current hcurrent => exact h.renewed hcurrent (hown attempt rfl)
  | error e =>
      rw [finishRenewal]
      split
      · exact oneResult_takeOut hjson id _
      · split
        · split
          · exact oneResult_takeOut hjson id _
          · exact Keeps.modify fun s h => h.erase id
        · exact Keeps.throw _

theorem oneResult_renewAttempts (hrenews : w.RenewsOwn) :
    Keeps (OneResult w) (renewAttempts w) := by
  refine Keeps.get.bind fun s => ?_
  split
  · exact Keeps.throw _
  · refine Keeps.each (fun id => ?_) _
    intro s h
    simp only [renewAttempt, ends_bind, ends_get]
    split
    · exact h
    · next x hx =>
        rw [ends_bind]
        refine ends_ask (fun result hresult => ?_) (h.asked rfl)
        refine oneResult_finishRenewal hjson id x (fun attempt hok => ?_) _ (h.asked rfl)
        rw [hok] at hresult
        exact hrenews _ _ _ hresult

theorem oneResult_admitClaimedAttempt (attempt : AttemptView) :
    Keeps (OneResult w) (admitClaimedAttempt w attempt) := by
  intro s h
  simp only [admitClaimedAttempt, ends_bind, ends_get]
  split
  · exact h
  · exact h
  · next phase hsettled =>
      simp only [ends_bind, ends_insertInflight]
      have hinserted := h.insert (x := ⟨attempt, phase⟩) rfl fun _ => admission_settled hsettled
      exact oneResult_flushTerminal hjson attempt.common.attemptId _ hinserted
  · next route hfresh =>
      rw [ends_bind]
      refine (oneResult_appendAttemptState hjson attempt .claimed s h).mono ?_ fun _ _ h => h
      rintro ⟨⟩ s₁ h₁
      rw [ends_bind, ends_nextTick, ends_bind]
      have hnumbered : OneResult w { s₁ with tick := s₁.tick + 1 } :=
        { standing := h₁.standing
          remembers := h₁.remembers
          own := h₁.own
          settled := h₁.settled
          honours := h₁.honours }
      refine ends_appendAttemptState (fun c hid hstate hyes => ?_)
        (fun c halt hno => hnumbered.failed hjson hno) fun e => hnumbered
      simp only [ends_bind, ends_insertInflight, ends_emit, ends_pure]
      have hinserted := (hnumbered.journaled hjson hyes).insert
        (x := ⟨attempt, .awaitingProvider (w.newUuid s₁.tick)⟩) rfl fun hno => by cases hno
      refine hinserted.dispatched ⟨c.record s₁.coordinator.journal, ?_, hstate⟩
      rw [withInflight_latest, latest_of_succeeds hyes, hid, if_pos rfl]

theorem oneResult_admitAll (attempts : List AttemptView) :
    Keeps (OneResult w) (admitAll w attempts) := by
  induction attempts with
  | nil => exact Keeps.pure _
  | cons attempt rest ih =>
      refine (oneResult_admitClaimedAttempt hjson attempt).bind fun action => ?_
      exact ih.bind fun more => Keeps.pure _

theorem oneResult_claimAvailable : Keeps (OneResult w) (claimAvailable w) := by
  refine Keeps.get.bind fun s => ?_
  split
  · exact Keeps.throw _
  · refine (oneResult_undisturbed.ask rfl _).bind fun answer => ?_
    refine (keeps_ofClient answer).bind fun response => ?_
    refine (oneResult_admitAll hjson response.attempts).bind fun dispatches => ?_
    exact Keeps.pure _

theorem oneResult_shutdown : Keeps (OneResult w) (shutdown w) := by
  refine Keeps.get.bind fun s => ?_
  split
  · exact Keeps.pure _
  · refine (oneResult_retryTerminalMutations hjson).bind fun _ => ?_
    refine Keeps.get.bind fun s => ?_
    refine (Keeps.each (fun id => ?_) _).bind fun _ => ?_
    · refine Keeps.get.bind fun s => ?_
      split
      · exact Keeps.pure _
      · refine (oneResult_undisturbed.ask rfl _).bind fun answer => ?_
        split
        · exact oneResult_takeOut hjson id _
        · split
          · exact oneResult_takeOut hjson id _
          · exact Keeps.throw _
    · refine (oneResult_undisturbed.ask rfl _).bind fun answer => ?_
      refine (keeps_ofClient answer).bind fun _ => ?_
      exact Keeps.modify fun s h => oneResult_undisturbed.hosted s none s.coordinator.eligible h

theorem oneResult_activate : Keeps (OneResult w) (activate w) := by
  refine oneResult_undisturbed.activate ?_
  refine Keeps.get.bind fun s => ?_
  refine Keeps.each (fun record => ?_) _
  refine (oneResult_undisturbed.ask rfl _).bind fun answer => ?_
  refine (keeps_ofClient answer).bind fun attempt => ?_
  split
  · split
    · exact Keeps.pure _
    · exact oneResult_appendEntry hjson _
  · exact Keeps.throw _

/-- Every operation keeps the one result of every attempt. -/
theorem oneResult_call (hrenews : w.RenewsOwn) (op : CogOp) : Keeps (OneResult w) (op.call w) := by
  cases op with
  | activate => exact (oneResult_activate hjson).bind fun _ => Keeps.pure _
  | revalidateCapabilities =>
      exact oneResult_undisturbed.revalidateCapabilities.bind fun _ => Keeps.pure _
  | renewHost => exact oneResult_undisturbed.renewHost
  | claimAvailable => exact (oneResult_claimAvailable hjson).bind fun _ => Keeps.pure _
  | recordProviderResult id result => exact oneResult_recordProviderResult hjson id result
  | retryTerminalMutations => exact oneResult_retryTerminalMutations hjson
  | renewAttempts => exact oneResult_renewAttempts hjson hrenews
  | shutdown => exact oneResult_shutdown hjson

end appends

end CoordinatorRun

/-! ### Over runs and restarts -/

namespace CogHost

open CoordinatorRun

variable {w : Surroundings} {s s' : CogHost}

/-- The invariant between processes: whatever the file reopens as
remembers every result shown. -/
structure Lasting (w : Surroundings) (s : CogHost) : Prop where
  running : ∀ c, s.process = some c → OneResult w (s.running c)
  remembers : ∀ j, openJournal w.json s.disk = .ok j → Remembers j.attempts s.events
  honours : s.events.Pairwise CogEvent.Honours

/-- A process leaves such a host behind, whenever it dies. -/
theorem lasting_of_oneResult (hjson : w.json.Lawful) {r : CoordinatorRun} (h : OneResult w r)
    {process : Option DeliveryCoordinator} (hprocess : ∀ c, process = some c → c = r.coordinator) :
    Lasting w { disk := r.coordinator.journal.contents, process, tick := r.tick, events := r.events } where
  running := by
    rintro c hc
    rw [hprocess c hc]
    exact h
  remembers j hopen := by
    obtain hsame | ⟨q, hvalid, hmore⟩ := h.standing.reopens hjson hopen
    · rw [hsame]
      exact h.remembers
    · rw [hmore]
      exact h.remembers.insert hvalid
  honours := h.honours

theorem lasting_afterCall (hjson : w.json.Lawful) {end_ : Except Halt PUnit × CoordinatorRun}
    (h : OneResult w end_.2) : Lasting w (afterCall end_) := by
  obtain ⟨result, r⟩ := end_
  refine lasting_of_oneResult hjson h fun c hc => ?_
  split at hc
  · cases hc
  · exact (Option.some.inj hc).symm

/-- A new process on a file that remembers every result shown. -/
theorem Lasting.start (h : Lasting w s) (config : CoordinatorConfig) {journal : DeliveryJournal}
    (hopen : openJournal w.json s.disk = .ok journal) :
    OneResult w
      { coordinator := .new config journal, tick := s.tick,
        events := s.events ++ [.opened journal.attempts] } where
  standing := .inl ⟨_, _, _, (intact_of_openJournal hopen).behind⟩
  remembers e he id phase hshow := by
    obtain he | he := List.mem_append.1 he
    · exact h.remembers journal hopen e he id phase hshow
    · rw [List.mem_singleton.1 he] at hshow
      obtain ⟨r, hr, hphase⟩ := hshow
      exact ⟨r, hr, .inl (InflightPhase.journalState_of_ofRecorded hphase)⟩
  own id x hx := by cases hx
  settled id x hx := by cases hx
  honours := by
    rw [List.pairwise_append]
    refine ⟨h.honours, List.pairwise_singleton _ _, fun d _ e he id phase _ => ?_⟩
    rw [List.mem_singleton.1 he]
    exact ⟨fun _ he => (by cases he), fun _ _ he => (by cases he)⟩

theorem Lasting.step (hjson : w.json.Lawful) (hrenews : w.RenewsOwn) {a : CogAct}
    (h : Lasting w s) (hs : (machine w).step s a = some s') : Lasting w s' := by
  obtain ⟨config, journal, rfl, -, hopen, rfl⟩ | ⟨op, c, rfl, hc, rfl⟩ | ⟨c, rfl, hc, rfl⟩ :=
    step_cases hs
  · refine lasting_of_oneResult hjson (h.start config hopen) fun c hc => ?_
    cases hc
    rfl
  · exact lasting_afterCall hjson ((oneResult_call hjson hrenews op).exec (h.running c hc))
  · exact
      { running := fun c hc => by cases hc
        remembers := h.remembers
        honours := h.honours }

/-- In every run over one journal file, with any crashes and restarts:
once the result of an attempt is on record, the attempt is dispatched no
more, and every complete or fail request for it carries that result. -/
theorem results_are_final (w : Surroundings) (hjson : w.json.Lawful) (hrenews : w.RenewsOwn)
    (s : CogHost) (h : (machine w).Reachable s) : s.events.Pairwise CogEvent.Honours := by
  have hlasting : Lasting w s := by
    refine h.invariant (P := Lasting w) ?_ fun s a s' h _ hs => h.step hjson hrenews hs
    rintro _ ⟨disk, rfl⟩
    exact
      { running := fun c hc => by cases hc
        remembers := fun _ _ e he => by cases he
        honours := .nil }
  exact hlasting.honours

end CogHost

/-! ### One delivery, and two renewals answered crosswise -/

namespace Sample

def keyC : ProtocolUuid := ⟨"00000000-0000-4000-8000-00000000000c"⟩

def receipt : ProviderReceipt :=
  { kind := .codex, sessionId := ⟨"s", by decide⟩, turnId := none, metadata := none }

def deliveryRows : List (JournalRecord × Bytes) :=
  [(record 1 attemptA .claimed, ascii "\x7b\"seq\":\"1\"\x7d"),
    (record 2 attemptA (.dispatchStarted keyA), ascii "\x7b\"seq\":\"2\"\x7d"),
    (record 3 attemptA (.providerSucceeded keyA receipt), ascii "\x7b\"seq\":\"3\"\x7d"),
    (record 4 attemptA .cogCompleted, ascii "\x7b\"seq\":\"4\"\x7d")]

theorem deliveryRows_lawful : (JournalJson.ofRows deliveryRows).Lawful :=
  JournalJson.ofRows_lawful
    { nodup := by decide
      oneLine := by decide
      notBlank := by decide
      prefixFree := by decide }
    (by decide)

def delivery : Surroundings := calm (.ofRows deliveryRows) [attemptA]

def crossedRows : List (JournalRecord × Bytes) :=
  [(record 1 attemptA .claimed, ascii "\x7b\"seq\":\"1\"\x7d"),
    (record 2 attemptA (.dispatchStarted keyA), ascii "\x7b\"seq\":\"2\"\x7d"),
    (record 3 attemptC .claimed, ascii "\x7b\"seq\":\"3\"\x7d"),
    (record 4 attemptC (.dispatchStarted keyC), ascii "\x7b\"seq\":\"4\"\x7d"),
    (record 5 attemptC (.providerSucceeded keyA receipt), ascii "\x7b\"seq\":\"5\"\x7d"),
    (record 6 attemptC .cogCompleted, ascii "\x7b\"seq\":\"6\"\x7d"),
    (record 7 attemptA (.providerSucceeded keyC receipt), ascii "\x7b\"seq\":\"7\"\x7d"),
    (record 8 attemptA .cogCompleted, ascii "\x7b\"seq\":\"8\"\x7d")]

/-- Two attempts are claimed, and each renewal is answered with the other
one. -/
def crossed : Surroundings :=
  { calm (.ofRows crossedRows) [attemptA, attemptC] with
    newUuid := fun n => if n < 10 then keyA else keyC
    renewAttempt := fun _ id =>
      if id = attemptA.common.attemptId then some (.ok attemptC) else some (.ok attemptA) }

end Sample

/-- A result on record (`true`) or in a request (`false`). -/
def CogEvent.result : CogEvent → Option (Bool × OpaqueId × InflightPhase)
  | .appended r => (InflightPhase.ofRecorded r.state).map fun phase => (true, r.attemptId, phase)
  | .sent request => request.outcome.map fun outcome => (false, outcome)
  | _ => none

theorem CogEvent.pairwise_result {events : List CogEvent} (h : events.Pairwise CogEvent.Honours) :
    (events.filterMap CogEvent.result).Pairwise fun a b =>
      a.1 = true → b.1 = false → a.2.1 = b.2.1 → b.2.2 = a.2.2 := by
  refine h.filterMap _ ?_
  rintro e e' hhonours ⟨_, id, phase⟩ hresult ⟨_, id', phase'⟩ hresult' rfl rfl rfl
  cases e with
  | appended r =>
      simp only [CogEvent.result, Option.map_eq_some_iff] at hresult
      obtain ⟨_, hphase, ⟨⟩⟩ := hresult
      cases e' with
      | sent request =>
          simp only [CogEvent.result, Option.map_eq_some_iff] at hresult'
          obtain ⟨_, houtcome, ⟨⟩⟩ := hresult'
          exact (hhonours _ _ ⟨rfl, hphase⟩).2 request _ rfl houtcome
      | appended r' =>
          simp only [CogEvent.result, Option.map_eq_some_iff] at hresult'
          obtain ⟨_, _, ⟨⟩⟩ := hresult'
      | opened attempts => cases hresult'
      | dispatched d => cases hresult'
  | sent request =>
      simp only [CogEvent.result, Option.map_eq_some_iff] at hresult
      obtain ⟨_, _, ⟨⟩⟩ := hresult
  | opened attempts => cases hresult
  | dispatched d => cases hresult

namespace CogHost

/-- A delivery from its claim to its completion. -/
theorem results_are_final_delivery :
    (((machine Sample.delivery).run ⟨[], none, 0, []⟩
        [.start Sample.config, .call .activate, .call .claimAvailable,
          .call (.recordProviderResult Sample.attemptA.common.attemptId
            (.succeeded Sample.receipt))]).map fun s => s.events.filterMap CogEvent.result) =
      some [(true, Sample.attemptA.common.attemptId, .providerSucceeded Sample.keyA Sample.receipt),
        (false, Sample.attemptA.common.attemptId, .providerSucceeded Sample.keyA Sample.receipt)] ∧
    ∀ s ∈ (machine Sample.delivery).run ⟨[], none, 0, []⟩
        [.start Sample.config, .call .activate, .call .claimAvailable,
          .call (.recordProviderResult Sample.attemptA.common.attemptId
            (.succeeded Sample.receipt))], s.events.Pairwise CogEvent.Honours := by
  refine ⟨by decide +kernel, fun s hrun => ?_⟩
  exact results_are_final Sample.delivery Sample.deliveryRows_lawful (renewsOwn_calm _ _) s
    (Machine.reachable_of_run ⟨[], rfl⟩ hrun)

/-- The results of two attempts whose renewals were answered crosswise
go on record under each other's id, so that the second is completed with
another key than its record carries. -/
theorem crossed_renewals_break_results :
    ∃ s, (machine Sample.crossed).Reachable s ∧ ¬ s.events.Pairwise CogEvent.Honours := by
  have hevents : ((machine Sample.crossed).run ⟨[], none, 0, []⟩
        [.start Sample.config, .call .activate, .call .claimAvailable, .call .renewAttempts,
          .call (.recordProviderResult Sample.attemptA.common.attemptId (.succeeded Sample.receipt)),
          .call (.recordProviderResult Sample.attemptC.common.attemptId
            (.succeeded Sample.receipt))]).map (fun s => s.events.filterMap CogEvent.result) =
      some [(true, Sample.attemptC.common.attemptId, .providerSucceeded Sample.keyA Sample.receipt),
        (false, Sample.attemptA.common.attemptId, .providerSucceeded Sample.keyA Sample.receipt),
        (true, Sample.attemptA.common.attemptId, .providerSucceeded Sample.keyC Sample.receipt),
        (false, Sample.attemptC.common.attemptId, .providerSucceeded Sample.keyC Sample.receipt)] := by
    decide +kernel
  obtain ⟨s, hrun, hresults⟩ := Option.map_eq_some_iff.1 hevents
  refine ⟨s, Machine.reachable_of_run ⟨[], rfl⟩ hrun, fun hpairwise => ?_⟩
  have hall := CogEvent.pairwise_result hpairwise
  rw [hresults] at hall
  revert hall
  decide

end CogHost

end Yaldabaoth
