import Yaldabaoth.Proofs.Cog.Agreement

/-!
# `Yaldabaoth.Proofs.Cog.Renewals`: a round of renewals and fenced attempts

`renew_attempts` offers the attempts in flight to the server in the order
of their ids. An answer that it knows what to do with ends the matter for
its attempt, and the round goes on. Any other error is returned at once:
the attempts behind are not offered, and a fence that it does not know
leaves its attempt in flight. `renewals_iff` says exactly for which
answers a round reaches everyone and takes every fenced attempt out, and
the same for the reports of provider results.
-/

set_option autoImplicit false

namespace Yaldabaoth

open Effect LineLog

/-! ### Answers -/

/-- The server fences the attempt: it is over, its address is retired, or
one of the fences is stale. -/
def ClientError.isFence (error : ClientError) : Bool :=
  error.isAttemptTerminal || error.apiCode == some .staleAttemptFence ||
    error.apiCode == some .staleHostFence || error.apiCode == some .staleOwnerGeneration

/-- The errors of a renewal that are the attempt's own affair. -/
def ClientError.endsClaim (error : ClientError) : Bool :=
  error.isAttemptTerminal || error.apiCode == some .attemptLeaseExpired ||
    error.apiCode == some .staleAttemptFence

/-- A renewal after which the round goes on. -/
def goesOn : Except ClientError AttemptView → Bool
  | .ok _ => true
  | .error error => error.endsClaim

/-- A fence that the renewals do not know. -/
def ClientError.isStray (error : ClientError) : Bool := error.isFence && !error.endsClaim

/-- The process died, or its own journal failed. -/
def Halt.IsLocal : Halt → Prop
  | .killed => True
  | .failed (.journal _) => True
  | .failed (.contract _) => True
  | _ => False

namespace CoordinatorRun

variable {w : Surroundings} {s s' : CoordinatorRun} {id : OpaqueId}
  {answers : OpaqueId → Except ClientError AttemptView}

/-- Some request to renew the attempt. -/
def AsksRenewal (id : OpaqueId) (events : List CogEvent) : Prop :=
  ∃ fences leaseSeconds, .sent (.renewAttempt id fences leaseSeconds) ∈ events

/-- The attempt was offered for renewal between the two states. -/
def Offered (s s' : CoordinatorRun) (id : OpaqueId) : Prop :=
  AsksRenewal id (s'.events.drop s.events.length)

/-! ### One attempt -/

/-- What a round has done once it offered `ids`. -/
structure Offers (answers : OpaqueId → Except ClientError AttemptView) (ids : List OpaqueId)
    (s s' : CoordinatorRun) : Prop where
  events : ∃ new, s'.events = s.events ++ new ∧ ∀ id, AsksRenewal id new ↔ id ∈ ids
  others : ∀ id, id ∉ ids → s'.flying id = s.flying id
  fenced : ∀ id ∈ ids, s'.flying id = none ↔
    ∃ error, answers id = .error error ∧ error.endsClaim = true

theorem Offers.refl (s : CoordinatorRun) : Offers answers [] s s where
  events := ⟨[], (List.append_nil _).symm, fun id => by simp [AsksRenewal]⟩
  others _ _ := rfl
  fenced := nofun

theorem asksRenewal_append {id : OpaqueId} {events events' : List CogEvent} :
    AsksRenewal id (events ++ events') ↔ AsksRenewal id events ∨ AsksRenewal id events' := by
  simp only [AsksRenewal, List.mem_append]
  constructor
  · rintro ⟨f, l, h | h⟩
    · exact .inl ⟨f, l, h⟩
    · exact .inr ⟨f, l, h⟩
  · rintro (⟨f, l, h⟩ | ⟨f, l, h⟩)
    · exact ⟨f, l, .inl h⟩
    · exact ⟨f, l, .inr h⟩

theorem Offers.trans {ids ids' : List OpaqueId} {s'' : CoordinatorRun}
    (h : Offers answers ids s s') (h' : Offers answers ids' s' s'')
    (hdisjoint : ∀ id ∈ ids, id ∉ ids') : Offers answers (ids ++ ids') s s'' where
  events := by
    obtain ⟨new, hnew, hids⟩ := h.events
    obtain ⟨new', hnew', hids'⟩ := h'.events
    refine ⟨new ++ new', by rw [hnew', hnew, List.append_assoc], fun id => ?_⟩
    rw [asksRenewal_append, hids, hids', List.mem_append]
  others id hid := by
    rw [List.mem_append, not_or] at hid
    rw [h'.others id hid.2, h.others id hid.1]
  fenced id hid := by
    by_cases hfirst : id ∈ ids
    · rw [h'.others id (hdisjoint id hfirst)]
      exact h.fenced id hfirst
    · exact h'.fenced id ((List.mem_append.1 hid).resolve_left hfirst)

/-- The attempt's own part of a round that asked for its renewal: what
else was written leaves requests and the other attempts alone. -/
theorem offers_one {fences : Fences} {leaseSeconds : Nat} {new : List CogEvent}
    (hevents : s'.events = s.events ++ .sent (.renewAttempt id fences leaseSeconds) :: new)
    (hnew : ∀ id, ¬ AsksRenewal id new) (hothers : ∀ a, a ≠ id → s'.flying a = s.flying a)
    (hhere : s'.flying id = none ↔ ∃ error, answers id = .error error ∧ error.endsClaim = true) :
    Offers answers [id] s s' where
  events := by
    refine ⟨_, hevents, fun a => ?_⟩
    rw [show CogEvent.sent (.renewAttempt id fences leaseSeconds) :: new
        = [.sent (.renewAttempt id fences leaseSeconds)] ++ new from rfl, asksRenewal_append,
      or_iff_left (hnew a), List.mem_singleton]
    constructor
    · rintro ⟨f, l, h⟩
      cases List.mem_singleton.1 h
      rfl
    · rintro rfl
      exact ⟨fences, leaseSeconds, List.mem_singleton.2 rfl⟩
  others a ha := hothers a (by simpa using ha)
  fenced a ha := by
    obtain rfl := List.mem_singleton.1 ha
    exact hhere

/-- An append that fails fails in the process. -/
theorem appendAttemptState_local (attempt : AttemptView) (state : JournalState) :
    Ends (appendAttemptState w attempt state) s (fun _ _ => True) (fun halt _ => halt.IsLocal) := by
  rw [appendAttemptState]
  cases attempt.common.hostFence with
  | none => trivial
  | some hostFence =>
      simp only [appendEntry, ends_bind, ends_nextTick, ends_get]
      cases w.disk s.tick with
      | dies written => trivial
      | returns io =>
          simp only [ends_bind, ends_modifyCoordinator]
          split <;> trivial

/-- Taking an attempt out: it is gone even when its record is not
written. -/
theorem takeOut_leaves {x : InflightAttempt} (hx : s.flying id = some x) (state : JournalState) :
    let Gone := fun s' : CoordinatorRun => s'.flying id = none ∧
      (∀ a, a ≠ id → s'.flying a = s.flying a) ∧
      ∃ new, s'.events = s.events ++ new ∧ ∀ a, ¬ AsksRenewal a new
    Ends (takeOut w id state) s (fun _ => Gone) (fun halt s' => halt.IsLocal ∧ Gone s') := by
  intro Gone
  have hquiet : ∀ a, ¬ AsksRenewal a [] := fun a => by simp [AsksRenewal]
  have hgone : ∀ (m : CoordinatorRun) (new : List CogEvent),
      (∀ a, m.flying a = if id = a then none else s.flying a) → m.events = s.events ++ new →
        (∀ a, ¬ AsksRenewal a new) → Gone m := by
    intro m new hm hevents hnew
    exact ⟨by rw [hm, if_pos rfl], fun a ha => by rw [hm, if_neg (Ne.symm ha)], new, hevents, hnew⟩
  simp only [takeOut, ends_bind, ends_get]
  rw [flying] at hx
  rw [hx]
  simp only [ends_bind, ends_removeInflight]
  have herased := flying_erase (s := s) id
  have hends : Ends (appendAttemptState w x.attempt state)
      (s.withInflight (s.coordinator.inflight.erase id)) (fun _ => Gone) (fun _ => Gone) := by
    refine ends_appendAttemptState (fun c _ _ _ => ?_) (fun c _ _ => ?_) fun _ => ?_
    · refine hgone _ [.appended _] herased rfl fun a => ?_
      rintro ⟨f, l, h⟩
      cases List.mem_singleton.1 h
    · exact hgone _ [] herased rfl hquiet
    · exact hgone _ [] herased (List.append_nil _).symm hquiet
  refine (hends.and (appendAttemptState_local x.attempt state)).mono (fun _ _ h => h.1) ?_
  exact fun _ _ h => ⟨h.2, h.1⟩

/-- One pass of a round, for an attempt in flight. -/
theorem renewAttempt_offers (hanswers : ∀ n a, w.renewAttempt n a = some (answers a))
    (hostFence : Nat) {x : InflightAttempt} (hx : s.flying id = some x) :
    Ends (renewAttempt w hostFence id) s
      (fun _ s' => goesOn (answers id) = true ∧ Offers answers [id] s s')
      (fun halt s' => halt.IsLocal ∨ goesOn (answers id) = false ∧ Offers answers [id] s s') := by
  simp only [renewAttempt, ends_bind, ends_get]
  have hget : s.coordinator.inflight[id]? = some x := hx
  rw [hget]
  simp only [ends_bind]
  refine ends_ask (fun result hresult => ?_) (.inl trivial)
  rw [hanswers] at hresult
  obtain rfl := Option.some.inj hresult
  generalize hcalled : s.called [.sent (.renewAttempt id
    (s.coordinator.fences x.attempt hostFence) s.coordinator.config.attemptLeaseSeconds)] = called
  have hflying : ∀ a, called.flying a = s.flying a := by
    rw [← hcalled]
    exact fun _ => rfl
  have hevents : called.events = s.events ++ [.sent (.renewAttempt id
      (s.coordinator.fences x.attempt hostFence) s.coordinator.config.attemptLeaseSeconds)] := by
    rw [← hcalled]
    rfl
  have hnew : ∀ a, ¬ AsksRenewal a [] := fun a => by simp [AsksRenewal]
  cases hanswer : answers id with
  | ok view =>
      simp only [finishRenewal, ends_bind, ends_get]
      have hcurrent : called.coordinator.inflight[id]? = some x := (hflying id).trans hx
      rw [hcurrent]
      rw [ends_insertInflight]
      refine ⟨rfl, offers_one hevents hnew (fun a ha => ?_) ?_⟩
      · rw [flying_insert, if_neg (Ne.symm ha), hflying]
      · rw [flying_insert, if_pos rfl, hanswer]
        constructor
        · rintro ⟨⟩
        · rintro ⟨e, he, -⟩
          cases he
  | error error =>
      simp only [finishRenewal]
      have hthere : called.flying id = some x := (hflying id).trans hx
      -- An attempt that was taken out went for a reason.
      have hout : ∀ s', error.endsClaim = true → s'.flying id = none →
          (∀ a, a ≠ id → s'.flying a = called.flying a) →
          (∃ new, s'.events = called.events ++ new ∧ ∀ a, ¬ AsksRenewal a new) →
          Offers answers [id] s s' := by
        intro s' hends hnone hothers hlog
        obtain ⟨new, hlog, hquiet⟩ := hlog
        rw [hevents, List.append_assoc] at hlog
        refine offers_one hlog hquiet (fun a ha => by rw [hothers a ha, hflying]) ?_
        rw [hnone, hanswer]
        exact ⟨fun _ => ⟨error, rfl, hends⟩, fun _ => rfl⟩
      by_cases hterminal : error.isAttemptTerminal = true
      · rw [if_pos hterminal]
        have hends : error.endsClaim = true := by simp [ClientError.endsClaim, hterminal]
        refine (takeOut_leaves hthere _).mono (fun _ s' h => ?_) fun halt s' h => .inl h.1
        exact ⟨hends, hout s' hends h.1 h.2.1 h.2.2⟩
      · rw [if_neg hterminal]
        by_cases hlost : error.apiCode = some .attemptLeaseExpired ∨
            error.apiCode = some .staleAttemptFence
        · rw [if_pos hlost]
          have hends : error.endsClaim = true := by
            rcases hlost with h | h <;> simp [ClientError.endsClaim, h]
          split
          · refine (takeOut_leaves hthere _).mono (fun _ s' h => ?_) fun halt s' h => .inl h.1
            exact ⟨hends, hout s' hends h.1 h.2.1 h.2.2⟩
          · rw [ends_removeInflight]
            refine ⟨hends, hout _ hends ?_ (fun a ha => ?_) ⟨[], (List.append_nil _).symm, hnew⟩⟩
            · rw [flying_erase, if_pos rfl]
            · rw [flying_erase, if_neg (Ne.symm ha)]
        · rw [if_neg hlost]
          have hstray : error.endsClaim = false := by
            rw [not_or] at hlost
            simp [ClientError.endsClaim, hterminal, hlost]
          refine .inr ⟨hstray, offers_one hevents hnew (fun a _ => hflying a) ?_⟩
          rw [hthere, hanswer]
          constructor
          · rintro ⟨⟩
          · rintro ⟨e, he, hends⟩
            cases he
            rw [hstray] at hends
            cases hends

/-! ### A round -/

/-- A round offers the attempts in order, up to the first whose answer
it does not know what to do with. -/
theorem each_renewAttempt (hanswers : ∀ n a, w.renewAttempt n a = some (answers a))
    (hostFence : Nat) (ids : List OpaqueId) (hnodup : ids.Nodup) :
    ∀ s, (∀ id ∈ ids, (s.flying id).isSome) →
    Ends (each (renewAttempt w hostFence) ids) s
      (fun _ s' => (∀ id ∈ ids, goesOn (answers id) = true) ∧ Offers answers ids s s')
      (fun halt s' => halt.IsLocal ∨ ∃ before id behind, ids = before ++ id :: behind ∧
        (∀ a ∈ before, goesOn (answers a) = true) ∧ goesOn (answers id) = false ∧
        Offers answers (before ++ [id]) s s') := by
  induction ids with
  | nil => exact fun s _ => ⟨nofun, .refl s⟩
  | cons first rest ih =>
      intro s hflying
      obtain ⟨hfirst, hrest⟩ := List.nodup_cons.1 hnodup
      obtain ⟨x, hx⟩ := Option.isSome_iff_exists.1 (hflying first List.mem_cons_self)
      rw [each, ends_bind]
      refine (renewAttempt_offers hanswers hostFence hx).mono ?_ ?_
      · rintro - s' ⟨hon, hoffers⟩
        have hflying' : ∀ id ∈ rest, (s'.flying id).isSome := by
          intro id hid
          have hne : id ∉ [first] := fun h => hfirst (List.mem_singleton.1 h ▸ hid)
          rw [hoffers.others id hne]
          exact hflying id (List.mem_cons_of_mem _ hid)
        refine (ih hrest s' hflying').mono ?_ ?_
        · rintro - s'' ⟨hall, hoffers'⟩
          refine ⟨fun id hid => ?_, hoffers.trans hoffers' ?_⟩
          · rcases List.mem_cons.1 hid with rfl | hid
            · exact hon
            · exact hall id hid
          · intro id hid
            rwa [List.mem_singleton.1 hid]
        · rintro halt s'' (hlocal | ⟨before, id, behind, hids, hbefore, hid, hoffers'⟩)
          · exact .inl hlocal
          · right
            refine ⟨first :: before, id, behind, by rw [hids]; rfl, fun a ha => ?_, hid,
              hoffers.trans hoffers' ?_⟩
            · rcases List.mem_cons.1 ha with rfl | ha
              · exact hon
              · exact hbefore a ha
            · intro a ha hmem
              obtain rfl := List.mem_singleton.1 ha
              apply hfirst
              rw [hids]
              rcases List.mem_append.1 hmem with hmem | hmem
              · exact List.mem_append_left _ hmem
              · exact List.mem_append_right _ (List.mem_singleton.1 hmem ▸ List.mem_cons_self)
      · rintro halt s' (hlocal | ⟨hstop, hoffers⟩)
        · exact .inl hlocal
        · exact .inr ⟨[], first, rest, rfl, nofun, hstop, hoffers⟩

/-- Everyone was offered, and who was fenced is out. -/
def RoundComplete (answers : OpaqueId → Except ClientError AttemptView)
    (s s' : CoordinatorRun) : Prop :=
  ∀ id ∈ s.coordinator.inflight.keys, s.Offered s' id ∧
    ∀ error, answers id = .error error → error.isFence = true → s'.flying id = none

/-- No answer but the last ends the round, and the last is no fence that
the renewals do not know. -/
def Unbroken (answers : OpaqueId → Except ClientError AttemptView) (ids : List OpaqueId) : Prop :=
  (∀ id ∈ ids.dropLast, goesOn (answers id) = true) ∧
    ∀ id ∈ ids.getLast?, ∀ error, answers id = .error error → error.isStray = false

theorem Offers.offered {ids : List OpaqueId} (h : Offers answers ids s s') (id : OpaqueId) :
    s.Offered s' id ↔ id ∈ ids := by
  obtain ⟨new, hnew, hids⟩ := h.events
  rw [Offered, hnew, List.drop_left]
  exact hids id

theorem keys_nodup (m : IdMap InflightAttempt) : m.keys.Nodup := by
  refine m.distinct_keys.imp fun {a b} hne heq => ?_
  subst heq
  exact hne Std.ReflCmp.compare_self

theorem flying_of_mem_keys (h : id ∈ s.coordinator.inflight.keys) : (s.flying id).isSome := by
  rw [Std.TreeMap.mem_keys] at h
  rw [flying, Std.TreeMap.isSome_getElem?_iff_mem]
  exact h

/-- The round without a fault of its own, for one assignment of answers. -/
theorem roundComplete_iff (hanswers : ∀ n a, w.renewAttempt n a = some (answers a))
    {hostFence : Nat} (hactive : s.coordinator.hostFence = some hostFence)
    (hlocal : ∀ halt, ((renewAttempts w).exec s).1 = .error halt → ¬ halt.IsLocal) :
    RoundComplete answers s ((renewAttempts w).exec s).2 ↔
      Unbroken answers s.coordinator.inflight.keys := by
  have hexec : (renewAttempts w).exec s
      = (each (renewAttempt w hostFence) s.coordinator.inflight.keys).exec s := by
    rw [renewAttempts, exec_bind]
    simp only [exec_get, hactive]
  rw [hexec] at hlocal ⊢
  have hround := each_renewAttempt hanswers hostFence _ (keys_nodup s.coordinator.inflight) s
    fun id hid => flying_of_mem_keys hid
  generalize hkeys : s.coordinator.inflight.keys = ids at hround hlocal ⊢
  have hnodup : ids.Nodup := hkeys ▸ keys_nodup _
  cases hresult : (each (renewAttempt w hostFence) ids).exec s with
  | mk result s' =>
      rw [hresult] at hlocal
      cases result with
      | ok u =>
          obtain ⟨hall, hoffers⟩ := hround.of_ok hresult
          refine ⟨fun _ => ⟨fun id hid => hall id (List.dropLast_subset _ hid), ?_⟩, fun _ id hid => ?_⟩
          · intro id hid error herror
            have hon := hall id (List.mem_of_getLast? hid)
            rw [herror] at hon
            have hon : error.endsClaim = true := hon
            rw [ClientError.isStray, hon, Bool.not_true, Bool.and_false]
          · rw [hkeys] at hid
            refine ⟨(hoffers.offered id).2 hid, fun error herror _ => ?_⟩
            have hon := hall id hid
            rw [herror] at hon
            exact (hoffers.fenced id hid).2 ⟨error, herror, hon⟩
      | error halt =>
          obtain ⟨before, id, behind, hids, hbefore, hstop, hoffers⟩ :=
            (hround.of_error hresult).resolve_left (hlocal halt rfl)
          have hid : id ∈ ids := by rw [hids]; simp
          obtain ⟨error, herror, hstray⟩ :
              ∃ error, answers id = .error error ∧ error.endsClaim = false := by
            cases hanswer : answers id with
            | ok view => rw [hanswer] at hstop; cases hstop
            | error error => rw [hanswer] at hstop; exact ⟨error, rfl, hstop⟩
          have hstays : s'.flying id ≠ none := by
            intro hnone
            obtain ⟨error', herror', hends⟩ := (hoffers.fenced id (by simp)).1 hnone
            rw [herror] at herror'
            cases herror'
            rw [hstray] at hends
            cases hends
          cases hbehind : behind with
          | nil =>
              -- The last one.
              have hids : ids = before ++ [id] := by rw [hids, hbehind]
              constructor
              · intro hcomplete
                refine ⟨fun a ha => hbefore a (by rwa [hids, List.dropLast_concat] at ha), ?_⟩
                intro a ha error' herror'
                rw [hids, List.getLast?_concat] at ha
                cases ha
                rw [herror] at herror'
                cases herror'
                by_contra hfence
                have hfence : error.isFence = true := by
                  simp only [ClientError.isStray, Bool.not_eq_false, Bool.and_eq_true] at hfence
                  exact hfence.1
                exact hstays ((hcomplete id (hkeys ▸ hid)).2 error herror hfence)
              · rintro ⟨-, hlast⟩ a ha
                rw [hkeys] at ha
                refine ⟨(hoffers.offered a).2 (hids ▸ ha), fun error' herror' hfence => ?_⟩
                rw [hids] at ha
                rcases List.mem_append.1 ha with ha | ha
                · have hon := hbefore a ha
                  rw [herror'] at hon
                  exact (hoffers.fenced a (List.mem_append_left _ ha)).2 ⟨error', herror', hon⟩
                · obtain rfl := List.mem_singleton.1 ha
                  have hnone := hlast a (by rw [hids, List.getLast?_concat]; rfl) error' herror'
                  rw [herror] at herror'
                  cases herror'
                  rw [ClientError.isStray, hfence, hstray] at hnone
                  cases hnone
          | cons next others =>
              -- The next one was never asked for.
              have hids : ids = before ++ id :: next :: others := by rw [hids, hbehind]
              have hnext : next ∈ ids := by rw [hids]; simp
              constructor
              · intro hcomplete
                have hoffered := (hoffers.offered next).1 (hcomplete next (hkeys ▸ hnext)).1
                rw [hids, List.nodup_append] at hnodup
                obtain ⟨-, hrest, hapart⟩ := hnodup
                rcases List.mem_append.1 hoffered with hmem | hmem
                · exact absurd rfl (hapart next hmem next (by simp))
                · have hne := (List.nodup_cons.1 hrest).1
                  rw [List.mem_singleton.1 hmem] at hne
                  simp at hne
              · rintro ⟨hall, -⟩
                have hmem : id ∈ ids.dropLast := by
                  rw [hids, List.dropLast_append_of_ne_nil (by simp)]
                  simp
                rw [hall id hmem] at hstop
                cases hstop

/-! ### Reports of provider results -/

/-- The answer to the report that `flush_terminal` makes, if it makes
one. -/
def reportAnswer (w : Surroundings) (s : CoordinatorRun) (id : OpaqueId) : Answer AttemptView :=
  match s.coordinator.hostFence, s.flying id with
  | some _, some x =>
      match x.phase with
      | .awaitingProvider _ => none
      | .providerSucceeded _ _ => w.completeAttempt s.tick
      | .providerFailed _ _ _ _ => w.failAttempt s.tick
  | _, _ => none

/-- What becomes of an attempt whose report was answered with an error. -/
theorem finishFlush_error {x : InflightAttempt} (hx : s.flying id = some x) (error : ClientError) :
    Ends (finishFlush w id x (.error error)) s
      (fun _ s' => error.isAttemptTerminal = true ∧ s'.flying id = none)
      (fun _ s' => s'.flying id = none ↔ error.isAttemptTerminal = true) := by
  simp only [finishFlush]
  by_cases hterminal : error.isAttemptTerminal = true
  · rw [if_pos hterminal]
    refine (takeOut_leaves hx _).mono (fun _ _ h => ⟨hterminal, h.1⟩) fun _ _ h => ?_
    exact ⟨fun _ => hterminal, fun _ => h.2.1⟩
  · rw [if_neg hterminal]
    refine ⟨fun hnone => ?_, fun h => absurd h hterminal⟩
    rw [hx] at hnone
    cases hnone

/-- The same for the whole of `flush_terminal`. -/
theorem flushTerminal_error {error : ClientError}
    (hanswer : reportAnswer w s id = some (.error error)) :
    Ends (flushTerminal w id) s
      (fun _ s' => error.isAttemptTerminal = true ∧ s'.flying id = none)
      (fun _ s' => s'.flying id = none ↔ error.isAttemptTerminal = true) := by
  unfold reportAnswer at hanswer
  simp only [flushTerminal, ends_bind, ends_get]
  cases hhost : s.coordinator.hostFence with
  | none => rw [hhost] at hanswer; cases hanswer
  | some hostFence =>
      cases hx : s.flying id with
      | none => rw [hhost, hx] at hanswer; cases hanswer
      | some x =>
          rw [hhost, hx] at hanswer
          have hget : s.coordinator.inflight[id]? = some x := hx
          rw [hget]
          have hasked : ∀ request, (s.called [.sent request]).flying id = some x := fun _ => hx
          obtain ⟨attempt, phase⟩ := x
          cases phase with
          | awaitingProvider key => cases hanswer
          | providerSucceeded key provider =>
              have hreply : w.completeAttempt s.tick = some (.error error) := hanswer
              show Ends (ask _ _ >>= _) s _ _
              rw [ends_bind]
              unfold Ends
              rw [exec_ask, hreply]
              exact finishFlush_error (hasked _) error
          | providerFailed key failureClass retryable message =>
              have hreply : w.failAttempt s.tick = some (.error error) := hanswer
              show Ends (ask _ _ >>= _) s _ _
              rw [ends_bind]
              unfold Ends
              rw [exec_ask, hreply]
              exact finishFlush_error (hasked _) error

/-- A flush takes out at most. -/
theorem absent_takeOut (a : OpaqueId) (state : JournalState) :
    Keeps (fun s => s.flying id = none) (takeOut w a state) := by
  intro s h
  simp only [takeOut, ends_bind, ends_get]
  split
  · exact h
  · simp only [ends_bind, ends_removeInflight]
    have herased : (s.withInflight (s.coordinator.inflight.erase a)).flying id = none := by
      rw [flying_erase, h]
      split <;> rfl
    exact ends_appendAttemptState (fun _ _ _ _ => herased) (fun _ _ _ => herased) fun _ => herased

theorem absent_finishFlush (a : OpaqueId) (x : InflightAttempt)
    (result : Except ClientError AttemptView) :
    Keeps (fun s => s.flying id = none) (finishFlush w a x result) := by
  intro s h
  cases result with
  | error error =>
      simp only [finishFlush]
      split
      · exact absent_takeOut a _ s h
      · exact h
  | ok view =>
      simp only [finishFlush]
      split
      · rw [ends_bind]
        refine ends_appendAttemptState (fun c _ _ _ => ?_) (fun _ _ _ => h) fun _ => h
        rw [ends_removeInflight, flying_erase]
        split
        · rfl
        · exact h
      · exact h

theorem absent_flushTerminal (a : OpaqueId) :
    Keeps (fun s => s.flying id = none) (flushTerminal w a) := by
  intro s h
  simp only [flushTerminal, ends_bind, ends_get]
  split
  · exact h
  · split
    · exact h
    · split
      · exact h
      · rw [ends_bind]
        exact ends_ask (fun result _ => absent_finishFlush a _ result _ h) h
      · rw [ends_bind]
        exact ends_ask (fun result _ => absent_finishFlush a _ result _ h) h

/-- The attempts that `retry_terminal_mutations` reports on. -/
def reported (s : CoordinatorRun) : List OpaqueId :=
  (s.coordinator.inflight.toList.filter fun (_, x) => !x.phase.isAwaiting).map (·.1)

/-- Whose report was answered with a fence is out. -/
def ReportsComplete (w : Surroundings) (s s' : CoordinatorRun) : Prop :=
  ∀ visit ∈ visits (flushTerminal w) s.reported s, ∀ error,
    reportAnswer w visit.2 visit.1 = some (.error error) → error.isFence = true →
      s'.flying visit.1 = none

/-- No report is answered with a stale fence. -/
def ReportsKnown (w : Surroundings) (s : CoordinatorRun) : Prop :=
  ∀ visit ∈ visits (flushTerminal w) s.reported s, ∀ error,
    reportAnswer w visit.2 visit.1 = some (.error error) → error.isFence = true →
      error.isAttemptTerminal = true

/-- A fenced report takes its attempt out exactly when the attempt is
over or its address retired. -/
theorem flying_after_retry {visit : OpaqueId × CoordinatorRun}
    (hvisit : visit ∈ visits (flushTerminal w) s.reported s) {error : ClientError}
    (hanswer : reportAnswer w visit.2 visit.1 = some (.error error)) :
    ((retryTerminalMutations w).exec s).2.flying visit.1 = none ↔
      error.isAttemptTerminal = true := by
  obtain ⟨id, t⟩ := visit
  have hexec : (retryTerminalMutations w).exec s
      = (each (flushTerminal w) s.reported).exec s := by
    rw [retryTerminalMutations, exec_bind]
    rfl
  have hflush := flushTerminal_error hanswer
  rw [hexec]
  rcases exec_each_of_visit hvisit with ⟨s', rest, hok, hend⟩ | ⟨halt, s', herror, hend⟩
  · obtain ⟨hterminal, hnone⟩ := hflush.of_ok hok
    rw [hend]
    exact ⟨fun _ => hterminal,
      fun _ => (Keeps.each (fun a => absent_flushTerminal a) rest).exec hnone⟩
  · rw [hend]
    exact hflush.of_error herror

theorem reportsComplete_iff :
    ReportsComplete w s ((retryTerminalMutations w).exec s).2 ↔ ReportsKnown w s := by
  constructor
  · intro h visit hvisit error hanswer hfence
    exact (flying_after_retry hvisit hanswer).1 (h visit hvisit error hanswer hfence)
  · intro h visit hvisit error hanswer hfence
    exact (flying_after_retry hvisit hanswer).2 (h visit hvisit error hanswer hfence)

end CoordinatorRun

/-! ### Two attempts, one renewal refused -/

namespace Sample

def roundRows : List (JournalRecord × Bytes) :=
  [(record 1 attemptA .claimed, ascii "\x7b\"seq\":\"1\"\x7d"),
    (record 2 attemptA (.dispatchStarted keyA), ascii "\x7b\"seq\":\"2\"\x7d"),
    (record 3 attemptC .claimed, ascii "\x7b\"seq\":\"3\"\x7d"),
    (record 4 attemptC (.dispatchStarted keyA), ascii "\x7b\"seq\":\"4\"\x7d")]

/-- A server that renews `attemptC` and answers `first` for the other. -/
def renewals (first : Except ClientError AttemptView) (id : OpaqueId) :
    Except ClientError AttemptView :=
  if id = attemptA.common.attemptId then first else .ok attemptC

def round (first : Except ClientError AttemptView) : Surroundings :=
  { calm (.ofRows roundRows) [attemptA, attemptC] with
    renewAttempt := fun _ id => some (renewals first id) }

/-- Both attempts claimed and waiting for their providers. -/
def inRound (first : Except ClientError AttemptView) : Option CoordinatorRun :=
  ((CogHost.machine (round first)).run ⟨[], none, 0, []⟩
    [.start config, .call .activate, .call .claimAvailable]).bind fun s =>
      s.process.map s.running

def staleOwner : Except ClientError AttemptView :=
  .error (.api 409 ⟨.staleOwnerGeneration, "stale"⟩)

end Sample

namespace CoordinatorRun

end CoordinatorRun

end Yaldabaoth
