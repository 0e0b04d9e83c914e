import Yaldabaoth.Model.SessionClient

/-!
# `Yaldabaoth.Proofs.Client.Requests`: a response goes to its own call

`Coherent` says of a client what its threads rely on: no two calls share a
number, and `pending` lists exactly the calls that are registered, not
retired, and without a response. An action moves one call at most and moves
the entry of that call alone, which `Coherent.keep`, `Coherent.enter` and
`Coherent.leave` say once for all callers and for the reader.
-/

set_option autoImplicit false

namespace Yaldabaoth

variable {α ρ ν : Type}

/-! ### Calls -/

namespace CallPhase

/-- The number of the call. -/
def id? : CallPhase ρ → Option Nat
  | .connected => none
  | .numbered id | .registered id | .sent id | .refused id | .late id | .cutOff id
  | .reporting id => some id
  | .returned id _ => id

/-- The number under which the call is in `pending`, unless its sender is
gone. -/
def listedId? : CallPhase ρ → Option Nat
  | .registered id | .sent id | .refused id | .late id => some id
  | _ => none

/-- Nothing of the call is in `pending` yet. -/
def isEarly : CallPhase ρ → Bool
  | .connected | .numbered _ => true
  | _ => false

/-- The frame of the call is in the request channel, or was. -/
def enqueued? : CallPhase ρ → Option Nat
  | .sent id | .late id | .cutOff id | .reporting id => some id
  | .returned id (.ok _) | .returned id (.error .timedOut) | .returned id (.error .disconnected) => id
  | _ => none

theorem id?_of_listedId? {phase : CallPhase ρ} {id : Nat} (h : phase.listedId? = some id) :
    phase.id? = some id := by
  cases phase <;> simp_all [listedId?, id?]

end CallPhase

namespace ClientCall

/-- The sender of the call is alive, and it is in `pending` under the number. -/
def Expects (c : ClientCall α ρ) (id : Nat) : Prop :=
  c.phase.listedId? = some id ∧ c.inbox = .waiting

/-- What a call holds of responses, and what it returned of them, was read under its number. -/
structure Honest (responses : List (Nat × ρ)) (c : ClientCall α ρ) : Prop where
  early : c.phase.isEarly = true → c.inbox = .waiting
  holds : ∀ r, c.inbox = .holds r → ∃ id, c.phase.id? = some id ∧ (id, r) ∈ responses
  returned : ∀ id r, c.phase = .returned id (.ok (some r)) →
    ∃ i, id = some i ∧ (i, r) ∈ responses

end ClientCall

namespace SessionClient

open ClientCall

/-- The calls are those of before, but for one. -/
def Moved (calls calls' : List (ClientCall α ρ)) (k : Nat) (c' : ClientCall α ρ) : Prop :=
  ∀ j, calls'[j]? = if j = k then some c' else calls[j]?

theorem moved_set {calls : List (ClientCall α ρ)} {k : Nat} {c : ClientCall α ρ}
    (h : calls[k]? = some c) (c' : ClientCall α ρ) : Moved calls (calls.set k c') k c' := by
  intro j
  obtain ⟨hlt, -⟩ := List.getElem?_eq_some_iff.1 h
  rw [List.getElem?_set]
  by_cases hj : j = k
  · rw [if_pos hj.symm, if_pos hj, if_pos hlt]
  · rw [if_neg (Ne.symm hj), if_neg hj]

theorem moved_modify {calls : List (ClientCall α ρ)} {k : Nat} {c : ClientCall α ρ}
    (h : calls[k]? = some c) (f : ClientCall α ρ → ClientCall α ρ) :
    Moved calls (calls.modify k f) k (f c) := by
  intro j
  rw [List.getElem?_modify]
  by_cases hj : j = k
  · subst hj
    simp [h]
  · simp [hj, Ne.symm hj]

theorem Moved.trans {calls calls' calls'' : List (ClientCall α ρ)} {k : Nat}
    {c c' : ClientCall α ρ} (h : Moved calls calls' k c) (h' : Moved calls' calls'' k c') :
    Moved calls calls'' k c' := by
  intro j
  rw [h' j, h j]
  split <;> rfl

/-! ### The invariant -/

/-- What holds between the calls and the table of those that wait. -/
structure Coherent (nextId : Nat) (pending : Map Nat Nat) (responses : List (Nat × ρ))
    (calls : List (ClientCall α ρ)) : Prop where
  fresh : ∀ (k : Nat) (c : ClientCall α ρ) (id : Nat), calls[k]? = some c → c.phase.id? = some id → id < nextId
  own : ∀ (k k' : Nat) (c c' : ClientCall α ρ) (id : Nat), calls[k]? = some c →
    calls[k']? = some c' → c.phase.id? = some id → c'.phase.id? = some id → k = k'
  listed : ∀ id k, pending.lookup id = some k ↔ ∃ c, calls[k]? = some c ∧ c.Expects id
  honest : ∀ (k : Nat) (c : ClientCall α ρ), calls[k]? = some c → c.Honest responses

section
variable {nextId : Nat} {pending : Map Nat Nat} {responses : List (Nat × ρ)}
  {calls calls' : List (ClientCall α ρ)} {k : Nat} {c c' : ClientCall α ρ}

theorem coherent_nil : Coherent nextId ∅ responses ([] : List (ClientCall α ρ)) := by
  constructor
  · intro k c id hc
    simp at hc
  · intro k k' c c' id hc
    simp at hc
  · intro id k
    rw [AList.lookup_empty]
    simp
  · intro k c hc
    simp at hc

/-- The numbers of the calls stay apart when one call keeps its own. -/
theorem Coherent.own_moved (h : Coherent nextId pending responses calls)
    (hc : calls[k]? = some c) (hmoved : Moved calls calls' k c')
    (hid : c'.phase.id? = c.phase.id?) :
    (∀ (j : Nat) (d : ClientCall α ρ) (id : Nat), calls'[j]? = some d → d.phase.id? = some id → id < nextId) ∧
      ∀ (j j' : Nat) (d d' : ClientCall α ρ) (id : Nat), calls'[j]? = some d →
        calls'[j']? = some d' → d.phase.id? = some id → d'.phase.id? = some id → j = j' := by
  -- every call of `calls'` has the number of the one of `calls` in its place
  have hold : ∀ (j : Nat) (d : ClientCall α ρ), calls'[j]? = some d →
      ∃ d', calls[j]? = some d' ∧ d'.phase.id? = d.phase.id? := by
    intro j d hd
    rw [hmoved] at hd
    split at hd
    · next hj =>
      subst hj
      cases hd
      exact ⟨c, hc, hid.symm⟩
    · exact ⟨d, hd, rfl⟩
  constructor
  · intro j d id hd hdid
    obtain ⟨d', hd', heq⟩ := hold j d hd
    exact h.fresh j d' id hd' (heq.trans hdid)
  · intro j j' d d' id hd hd' hdid hdid'
    obtain ⟨e, he, heq⟩ := hold j d hd
    obtain ⟨e', he', heq'⟩ := hold j' d' hd'
    exact h.own j j' e e' id he he' (heq.trans hdid) (heq'.trans hdid')

theorem Coherent.honest_moved (h : Coherent nextId pending responses calls)
    (hmoved : Moved calls calls' k c') (hhonest : c'.Honest responses) (j : Nat)
    (d : ClientCall α ρ) (hd : calls'[j]? = some d) : d.Honest responses := by
  rw [hmoved] at hd
  split at hd
  · cases hd
    exact hhonest
  · exact h.honest j d hd

/-- A call moves on, and nothing that concerns its entry. -/
theorem Coherent.keep (h : Coherent nextId pending responses calls) (hc : calls[k]? = some c)
    (hmoved : Moved calls calls' k c') (hid : c'.phase.id? = c.phase.id?)
    (hexpects : ∀ id, c'.Expects id ↔ c.Expects id) (hhonest : c'.Honest responses) :
    Coherent nextId pending responses calls' := by
  obtain ⟨hfresh, hown⟩ := h.own_moved hc hmoved hid
  refine ⟨hfresh, hown, fun id j => ?_, h.honest_moved hmoved hhonest⟩
  rw [h.listed id j, hmoved j]
  by_cases hj : j = k
  · subst hj
    rw [if_pos rfl, hc]
    simp [hexpects]
  · rw [if_neg hj]

/-- A call that was not expecting anything enters `pending`. -/
theorem Coherent.enter (h : Coherent nextId pending responses calls) (hc : calls[k]? = some c)
    {id : Nat} (hmoved : Moved calls calls' k c') (hcid : c.phase.id? = some id)
    (hid : c'.phase.id? = some id) (hbefore : ∀ id, ¬ c.Expects id) (hafter : c'.Expects id)
    (hhonest : c'.Honest responses) :
    Coherent nextId (pending.insert id k) responses calls' := by
  obtain ⟨hfresh, hown⟩ := h.own_moved hc hmoved (hid.trans hcid.symm)
  refine ⟨hfresh, hown, fun i j => ?_, h.honest_moved hmoved hhonest⟩
  rw [Map.get_insert, hmoved j]
  by_cases hi : i = id
  · subst hi
    rw [if_pos rfl]
    constructor
    · intro hj
      cases hj
      rw [if_pos rfl]
      exact ⟨c', rfl, hafter⟩
    · rintro ⟨d, hd, hdexpects⟩
      split at hd
      · next hj => rw [hj]
      · next hj =>
        exact absurd (h.own j k d c i hd hc (CallPhase.id?_of_listedId? hdexpects.1) hcid) hj
  · rw [if_neg hi, h.listed i j]
    by_cases hj : j = k
    · subst hj
      rw [if_pos rfl, hc]
      constructor
      · rintro ⟨d, hd, hdexpects⟩
        cases hd
        exact absurd hdexpects (hbefore i)
      · rintro ⟨d, hd, hdexpects⟩
        cases hd
        exact absurd (Option.some.inj (hdexpects.1.symm.trans hafter.1)) hi
    · rw [if_neg hj]

/-- A call leaves `pending`. -/
theorem Coherent.leave (h : Coherent nextId pending responses calls) (hc : calls[k]? = some c)
    {id : Nat} (hmoved : Moved calls calls' k c') (hid : c'.phase.id? = c.phase.id?)
    (hbefore : c.Expects id) (hafter : ∀ id, ¬ c'.Expects id) (hhonest : c'.Honest responses) :
    Coherent nextId (pending.erase id) responses calls' := by
  obtain ⟨hfresh, hown⟩ := h.own_moved hc hmoved hid
  refine ⟨hfresh, hown, fun i j => ?_, h.honest_moved hmoved hhonest⟩
  rw [Map.get_erase, hmoved j]
  by_cases hi : i = id
  · subst hi
    rw [if_pos rfl]
    refine iff_of_false (fun hj => by cases hj) ?_
    rintro ⟨d, hd, hdexpects⟩
    split at hd
    · cases hd
      exact hafter i hdexpects
    · next hj =>
      exact hj (h.own j k d c i hd hc (CallPhase.id?_of_listedId? hdexpects.1)
        (CallPhase.id?_of_listedId? hbefore.1))
  · rw [if_neg hi, h.listed i j]
    by_cases hj : j = k
    · subst hj
      rw [if_pos rfl, hc]
      constructor
      · rintro ⟨d, hd, hdexpects⟩
        cases hd
        exact absurd (Option.some.inj (hdexpects.1.symm.trans hbefore.1)) hi
      · rintro ⟨d, hd, hdexpects⟩
        cases hd
        exact absurd hdexpects (hafter i)
    · rw [if_neg hj]

/-- A call that was not expecting anything gets the next number. -/
theorem Coherent.number (h : Coherent nextId pending responses calls) (hc : calls[k]? = some c)
    (hmoved : Moved calls calls' k c') (hid : c'.phase.id? = some nextId)
    (hbefore : ∀ id, ¬ c.Expects id) (hafter : ∀ id, ¬ c'.Expects id)
    (hhonest : c'.Honest responses) : Coherent (nextId + 1) pending responses calls' := by
  refine ⟨?_, ?_, fun i j => ?_, h.honest_moved hmoved hhonest⟩
  · intro j d id hd hdid
    rw [hmoved] at hd
    split at hd
    · cases hd
      rw [hid] at hdid
      cases hdid
      exact Nat.lt_succ_self _
    · exact Nat.lt_succ_of_lt (h.fresh j d id hd hdid)
  · intro j j' d d' id hd hd' hdid hdid'
    rw [hmoved] at hd hd'
    -- whoever else has the new number would have had it before
    have hnew : ∀ (i : Nat) (e : ClientCall α ρ), calls[i]? = some e →
        e.phase.id? ≠ some nextId := fun i e he heid =>
      Nat.lt_irrefl _ (h.fresh i e nextId he heid)
    split at hd <;> split at hd'
    · next hj hj' => rw [hj, hj']
    · cases hd
      rw [hid] at hdid
      cases hdid
      exact absurd hdid' (hnew j' d' hd')
    · cases hd'
      rw [hid] at hdid'
      cases hdid'
      exact absurd hdid (hnew j d hd)
    · exact h.own j j' d d' id hd hd' hdid hdid'
  · rw [h.listed i j, hmoved j]
    by_cases hj : j = k
    · subst hj
      rw [if_pos rfl, hc]
      simp [hbefore, hafter]
    · rw [if_neg hj]

/-- A new call has no number, and expects nothing. -/
theorem Coherent.append (h : Coherent nextId pending responses calls) {d : ClientCall α ρ}
    (hid : d.phase.id? = none) (hhonest : d.Honest responses) :
    Coherent nextId pending responses (calls ++ [d]) := by
  have hsplit : ∀ (j : Nat) (e : ClientCall α ρ), (calls ++ [d])[j]? = some e →
      calls[j]? = some e ∨ e = d := by
    intro j e he
    rw [List.getElem?_append] at he
    split at he
    · exact .inl he
    · exact .inr (List.mem_singleton.1 (List.mem_of_getElem? he))
  have hkeep : ∀ (j : Nat) (e : ClientCall α ρ), calls[j]? = some e →
      (calls ++ [d])[j]? = some e := fun j e he => by
    rw [List.getElem?_append_left (List.getElem?_eq_some_iff.1 he).1, he]
  refine ⟨?_, ?_, fun i j => ?_, ?_⟩
  · intro j e id he heid
    rcases hsplit j e he with he | rfl
    · exact h.fresh j e id he heid
    · rw [hid] at heid
      cases heid
  · intro j j' e e' id he he' heid heid'
    rcases hsplit j e he with he | rfl
    · rcases hsplit j' e' he' with he' | rfl
      · exact h.own j j' e e' id he he' heid heid'
      · rw [hid] at heid'
        cases heid'
    · rw [hid] at heid
      cases heid
  · rw [h.listed i j]
    constructor
    · rintro ⟨e, he, hexpects⟩
      exact ⟨e, hkeep j e he, hexpects⟩
    · rintro ⟨e, he, hexpects⟩
      rcases hsplit j e he with he | rfl
      · exact ⟨e, he, hexpects⟩
      · have := CallPhase.id?_of_listedId? hexpects.1
        rw [hid] at this
        cases this
  · intro j e he
    rcases hsplit j e he with he | rfl
    · exact h.honest j e he
    · exact hhonest

/-- More responses are read. -/
theorem Coherent.grow (h : Coherent nextId pending responses calls)
    {responses' : List (Nat × ρ)} (hsub : ∀ p ∈ responses, p ∈ responses') :
    Coherent nextId pending responses' calls := by
  refine ⟨h.fresh, h.own, h.listed, fun j d hd => ?_⟩
  obtain ⟨hearly, hholds, hreturned⟩ := h.honest j d hd
  refine ⟨hearly, fun r hr => ?_, fun id r hr => ?_⟩
  · obtain ⟨id, hid, hmem⟩ := hholds r hr
    exact ⟨id, hid, hsub _ hmem⟩
  · obtain ⟨i, hi, hmem⟩ := hreturned id r hr
    exact ⟨i, hi, hsub _ hmem⟩

end

/-! ### What the threads do -/

theorem dropSender_phase (c : ClientCall α ρ) : (dropSender c).phase = c.phase := by
  unfold dropSender
  split <;> rfl

theorem not_expects_dropSender (c : ClientCall α ρ) (id : Nat) : ¬ (dropSender c).Expects id := by
  rintro ⟨-, h⟩
  unfold dropSender at h
  split at h
  · cases h
  · next hne => exact hne h

theorem honest_dropSender {c : ClientCall α ρ} {responses : List (Nat × ρ)}
    (h : c.Honest responses) (hlate : c.phase.isEarly = false) :
    (dropSender c).Honest responses := by
  refine ⟨fun hearly => ?_, fun r hr => ?_, fun id r hr => ?_⟩
  · rw [dropSender_phase, hlate] at hearly
    cases hearly
  · rw [dropSender_phase]
    unfold dropSender at hr
    split at hr
    · cases hr
    · exact h.holds r hr
  · rw [dropSender_phase] at hr
    exact h.returned id r hr

/-- The client's own calls and table are coherent. -/
def Sound (s : SessionClient α ρ ν) : Prop :=
  Coherent s.nextId s.pending s.responses s.calls

theorem late_of_entry {c : ClientCall α ρ} {id : Nat} (h : c.Expects id) :
    c.phase.isEarly = false := by
  obtain ⟨h, -⟩ := h
  cases hphase : c.phase <;> rw [hphase] at h <;> first | rfl | cases h

section
variable {s : SessionClient α ρ ν} {k : Nat} {c c' : ClientCall α ρ}

theorem holdsSender_iff (s : SessionClient α ρ ν) (k : Nat) :
    s.holdsSender k = true ↔ ∃ id, s.pending.lookup id = some k := by
  simp only [holdsSender, List.any_eq_true, beq_iff_eq]
  constructor
  · rintro ⟨⟨id, k'⟩, hmem, rfl⟩
    exact ⟨id, AList.mem_lookup_iff.2 hmem⟩
  · rintro ⟨id, hid⟩
    exact ⟨⟨id, k⟩, AList.mem_lookup_iff.1 hid, rfl⟩

/-- After `fail_all_pending` nobody is listed, and nobody waits for a sender. -/
theorem Sound.failAllPending (h : s.Sound) : s.failAllPending.Sound := by
  have hcalls : ∀ (j : Nat) (d : ClientCall α ρ), s.failAllPending.calls[j]? = some d →
      ∃ e, s.calls[j]? = some e ∧ d.phase = e.phase ∧ d.Honest s.responses ∧
        ∀ id, ¬ d.Expects id := by
    intro j d hd
    change (s.calls.mapIdx _)[j]? = some d at hd
    rw [List.getElem?_mapIdx, Option.map_eq_some_iff] at hd
    obtain ⟨e, he, rfl⟩ := hd
    refine ⟨e, he, ?_⟩
    split
    · next hsender =>
      obtain ⟨id, hid⟩ := (holdsSender_iff s j).1 hsender
      obtain ⟨e', he', hexpects⟩ := (h.listed id j).1 hid
      cases he.symm.trans he'
      exact ⟨dropSender_phase e, honest_dropSender (h.honest j e he) (late_of_entry hexpects),
        not_expects_dropSender e⟩
    · next hsender =>
      refine ⟨rfl, h.honest j e he, fun id hexpects => hsender ?_⟩
      exact (holdsSender_iff s j).2 ⟨id, (h.listed id j).2 ⟨e, he, hexpects⟩⟩
  refine ⟨?_, ?_, fun i j => ?_, ?_⟩
  · intro j d id hd hid
    obtain ⟨e, he, hphase, -⟩ := hcalls j d hd
    exact h.fresh j e id he (hphase ▸ hid)
  · intro j j' d d' id hd hd' hid hid'
    obtain ⟨e, he, hphase, -⟩ := hcalls j d hd
    obtain ⟨e', he', hphase', -⟩ := hcalls j' d' hd'
    exact h.own j j' e e' id he he' (hphase ▸ hid) (hphase' ▸ hid')
  · refine iff_of_false (fun hlookup => ?_) ?_
    · change (∅ : Map Nat Nat).lookup i = some j at hlookup
      rw [AList.lookup_empty] at hlookup
      cases hlookup
    · rintro ⟨d, hd, hexpects⟩
      obtain ⟨-, -, -, -, hnot⟩ := hcalls j d hd
      exact hnot i hexpects
  · intro j d hd
    obtain ⟨-, -, -, hhonest, -⟩ := hcalls j d hd
    exact hhonest

/-- A caller that gives up removes its own entry, if it is still there. -/
theorem Sound.retire (h : s.Sound) (hc : s.calls[k]? = some c) {id : Nat}
    (hcid : c.phase.id? = some id) (hid : c'.phase.id? = some id) (hentry : c'.phase.listedId? = none)
    (hlate : c'.phase.isEarly = false) (hhonest : c'.Honest s.responses) :
    ((s.setCall k c').removePending id).Sound := by
  have hafter : ∀ i, ¬ c'.Expects i := fun i hexpects => by
    have := hexpects.1
    rw [hentry] at this
    cases this
  have hmoved := moved_set hc c'
  unfold SessionClient.removePending
  split
  · next hlookup =>
    refine Coherent.keep h hc hmoved (hid.trans hcid.symm) (fun i => ?_) hhonest
    refine iff_of_false (hafter i) fun hexpects => ?_
    cases hcid.symm.trans (CallPhase.id?_of_listedId? hexpects.1)
    change s.pending.lookup id = none at hlookup
    rw [(h.listed id k).2 ⟨c, hc, hexpects⟩] at hlookup
    cases hlookup
  · next k' hlookup =>
    change s.pending.lookup id = some k' at hlookup
    obtain ⟨d, hd, hexpects⟩ := (h.listed id k').1 hlookup
    obtain rfl := h.own k' k d c id hd hc (CallPhase.id?_of_listedId? hexpects.1) hcid
    cases hd.symm.trans hc
    have hset : (s.setCall k' c').calls[k']? = some c' := by
      rw [show (s.setCall k' c').calls[k']? = _ from hmoved k', if_pos rfl]
    refine Coherent.leave h hc (hmoved.trans (moved_modify hset dropSender)) ?_ hexpects
      (not_expects_dropSender c') (honest_dropSender hhonest hlate)
    rw [dropSender_phase, hid, hcid]

/-- The reader gives a response to the call that is listed under its number. -/
theorem Sound.readFrame (h : s.Sound) (frame : ServerFrame ρ ν) : (s.readFrame frame).Sound := by
  cases frame with
  | notification note => exact h
  | request => exact h
  | response id r =>
      have hgrow : Coherent s.nextId s.pending (s.responses ++ [(id, r)]) s.calls :=
        Coherent.grow h fun p hp => List.mem_append_left _ hp
      unfold SessionClient.readFrame
      dsimp only
      split
      · exact hgrow
      · next k hlookup =>
        obtain ⟨c, hc, hexpects⟩ := (h.listed id k).1 hlookup
        have hid := CallPhase.id?_of_listedId? hexpects.1
        obtain ⟨-, hholds, hreturned⟩ := hgrow.honest k c hc
        refine Coherent.leave hgrow hc (moved_modify hc (sendResponse r)) rfl hexpects ?_ ?_
        · rintro i ⟨-, hwaiting⟩
          cases hwaiting
        · refine ⟨fun hearly => ?_, fun r' hr' => ?_, hreturned⟩
          · rw [show (sendResponse r c).phase = c.phase from rfl, late_of_entry hexpects] at hearly
            cases hearly
          · cases hr'
            exact ⟨id, hid, List.mem_append_right _ (List.mem_singleton.2 rfl)⟩

/-- A call that goes on to a phase of its own keeps the table as it is. -/
theorem Sound.setPhase (h : s.Sound) (hc : s.calls[k]? = some c) {phase : CallPhase ρ}
    (hid : phase.id? = c.phase.id?) (hentry : phase.listedId? = c.phase.listedId? ∨ c.inbox ≠ .waiting)
    (hlate : phase.isEarly = false)
    (hreturned : ∀ id r, phase = .returned id (.ok (some r)) →
      ∃ i, id = some i ∧ (i, r) ∈ s.responses) :
    (s.setCall k { c with phase }).Sound := by
  obtain ⟨-, hholds, -⟩ := h.honest k c hc
  refine Coherent.keep h hc (moved_set hc _) hid (fun i => ?_) ⟨?_, ?_, hreturned⟩
  · rcases hentry with hentry | hinbox
    · rw [Expects, Expects, hentry]
    · exact iff_of_false (fun hexpects => hinbox hexpects.2) fun hexpects => hinbox hexpects.2
  · intro hearly
    rw [hlate] at hearly
    cases hearly
  · intro r hr
    obtain ⟨id, hcid, hmem⟩ := hholds r hr
    exact ⟨id, hid.trans hcid, hmem⟩

theorem Sound.stepCall (h : s.Sound) (hc : s.calls[k]? = some c) {next : CallStep}
    {s' : SessionClient α ρ ν} (hs : s.stepCall k c next = some s') : s'.Sound := by
  obtain ⟨hearly, hholds, hreturned⟩ := h.honest k c hc
  cases next with
  | number =>
      simp only [SessionClient.stepCall] at hs
      split at hs
      · next hphase =>
        cases hs
        rw [hphase] at hearly hholds
        refine Coherent.number h hc (moved_set hc _) rfl (fun id hexpects => ?_)
          (fun id hexpects => by cases hexpects.1) ⟨fun _ => hearly rfl, fun r hr => ?_, ?_⟩
        · have := hexpects.1
          rw [hphase] at this
          cases this
        · obtain ⟨id, hid, -⟩ := hholds r hr
          cases hid
        · intro id r hr
          cases hr
      · cases hs
  | register =>
      simp only [SessionClient.stepCall] at hs
      split at hs
      · next id hphase _ =>
        cases hs
        rw [hphase] at hearly hholds
        have hwaiting := hearly rfl
        refine Coherent.enter h hc (moved_set hc _) (by rw [hphase]; rfl) rfl (fun i hexpects => ?_)
          ⟨rfl, hwaiting⟩ ⟨fun _ => hwaiting, hholds, fun i r hr => by cases hr⟩
        have := hexpects.1
        rw [hphase] at this
        cases this
      · cases hs
  | enqueue =>
      simp only [SessionClient.stepCall] at hs
      split at hs
      · next id hphase _ =>
        split at hs <;> cases hs
        · refine h.setPhase hc (by rw [hphase]; rfl) (.inl (by rw [hphase]; rfl)) rfl ?_
          intro i r hr
          cases hr
        · have hsent : (s.setCall k { c with phase := .sent id }).Sound := by
            refine h.setPhase hc (by rw [hphase]; rfl) (.inl (by rw [hphase]; rfl)) rfl ?_
            intro i r hr
            cases hr
          exact hsent
      · next id hphase _ =>
        split at hs <;> cases hs
        · refine h.setPhase hc (by rw [hphase]; rfl) (.inl (by rw [hphase]; rfl)) rfl ?_
          intro i r hr
          cases hr
        · have hfired : (s.setCall k { c with phase := .returned (some id) (.ok none) }).Sound := by
            refine h.setPhase hc (by rw [hphase]; rfl) (.inl (by rw [hphase]; rfl)) rfl ?_
            intro i r hr
            cases hr
          exact hfired
      · cases hs
  | receive =>
      simp only [SessionClient.stepCall] at hs
      split at hs
      · next id r hphase hinbox =>
        cases hs
        refine h.setPhase hc (by rw [hphase]; rfl) (.inr (by rw [hinbox]; simp)) rfl ?_
        intro i r' hr
        cases hr
        obtain ⟨i, hi, hmem⟩ := hholds r hinbox
        rw [hphase] at hi
        exact ⟨i, hi, hmem⟩
      · next id hphase hinbox =>
        cases hs
        refine h.setPhase hc (by rw [hphase]; rfl) (.inr (by rw [hinbox]; simp)) rfl ?_
        intro i r hr
        cases hr
      · cases hs
  | expire =>
      simp only [SessionClient.stepCall] at hs
      split at hs
      · next id hphase _ =>
        cases hs
        refine h.setPhase hc (by rw [hphase]; rfl) (.inl (by rw [hphase]; rfl)) rfl ?_
        intro i r hr
        cases hr
      · cases hs
  | retire =>
      simp only [SessionClient.stepCall] at hs
      split at hs
      all_goals try cases hs
      all_goals
        next id hphase =>
        rw [hphase] at hholds
        refine h.retire hc (by rw [hphase]; rfl) rfl rfl rfl ⟨?_, hholds, ?_⟩
        · intro hearly
          cases hearly
        · intro i r hr
          cases hr
  | report =>
      simp only [SessionClient.stepCall] at hs
      split at hs
      · next id hphase =>
        cases hs
        have hreport :
            (s.setCall k { c with phase := .returned (some id) (.error .disconnected) }).Sound := by
          refine h.setPhase hc (by rw [hphase]; rfl) (.inl (by rw [hphase]; rfl)) rfl ?_
          intro i r hr
          cases hr
        exact hreport
      · cases hs

theorem Sound.step (h : s.Sound) {a : Action α ρ ν} {s' : SessionClient α ρ ν}
    (hs : s.step a = some s') : s'.Sound := by
  cases a with
  | call req blocking =>
      simp only [SessionClient.step] at hs
      split at hs
      · cases hs
      · cases hs
        refine Coherent.append h ?_ ⟨fun _ => rfl, fun r hr => (by cases hr), ?_⟩
        · dsimp only
          split <;> rfl
        · intro id r hr
          dsimp only at hr
          split at hr <;> cases hr
  | caller k next =>
      obtain ⟨c, hc, hs⟩ := Option.bind_eq_some_iff.1 hs
      exact h.stepCall hc hs
  | read frame =>
      simp only [SessionClient.step] at hs
      split at hs <;> cases hs
      exact h.readFrame frame
  | writerSweeps =>
      simp only [SessionClient.step] at hs
      split at hs <;> cases hs
      exact h.failAllPending
  | readerSweeps | clientSweeps =>
      simp only [SessionClient.step] at hs
      split at hs <;> cases hs
      exact h.failAllPending
  | clientLeaves | drop | write | writeFails | writerLeaves | writerEnds | readerLeaves =>
      simp only [SessionClient.step] at hs
      split at hs <;> cases hs
      exact h

end

theorem sound_of_reachable {s : SessionClient α ρ ν} (h : (sessionClient α ρ ν).Reachable s) :
    s.Sound :=
  h.invariant (fun s hs => by cases hs; exact coherent_nil) fun _ _ _ h _ hs => h.step hs

/-! ### Runs -/

/-- One call that asks, and another that was numbered before it and has not registered. -/
def askingRun : List (Action Nat Nat Nat) :=
  [.call 5 true, .caller 0 .number, .call 7 true, .caller 1 .number, .caller 1 .register,
    .caller 1 .enqueue, .write]

/-- The same, with an answer for the second that the first does not get. -/
def answeredRun : List (Action Nat Nat Nat) :=
  askingRun ++ [.read (.response 1 8), .read (.response 2 9), .caller 1 .receive]

def clientAfter (actions : List (Action Nat Nat Nat)) : SessionClient Nat Nat Nat :=
  ((sessionClient Nat Nat Nat).run {} actions).getD {}

theorem reachable_clientAfter {actions : List (Action Nat Nat Nat)}
    (h : ((sessionClient Nat Nat Nat).run {} actions).isSome = true) :
    (sessionClient Nat Nat Nat).Reachable (clientAfter actions) := by
  obtain ⟨s, hs⟩ := Option.isSome_iff_exists.1 h
  rw [clientAfter, hs]
  exact Machine.reachable_of_run rfl hs

section
variable {s : SessionClient α ρ ν}

/-- A response that a call returns was read from the server under the number of this call, and no
other call has that number. -/
theorem responses_go_home (h : (sessionClient α ρ ν).Reachable s) {k : Nat} {c : ClientCall α ρ}
    (hc : s.calls[k]? = some c) {id : Option Nat} {r : ρ}
    (hreturned : c.phase = .returned id (.ok (some r))) :
    ∃ i, id = some i ∧ (i, r) ∈ s.responses ∧
      ∀ (k' : Nat) (c' : ClientCall α ρ), s.calls[k']? = some c' → c'.phase.id? = some i →
        k' = k := by
  have hsound := sound_of_reachable h
  obtain ⟨i, rfl, hmem⟩ := (hsound.honest k c hc).returned id r hreturned
  refine ⟨i, rfl, hmem, fun k' c' hc' hid => ?_⟩
  exact hsound.own k' k c' c i hc' hc hid (by rw [hreturned]; rfl)

theorem responses_go_home_sample :
    ∃ i, some 2 = some i ∧ (i, 9) ∈ (clientAfter answeredRun).responses ∧
      ∀ (k' : Nat) (c' : ClientCall Nat Nat), (clientAfter answeredRun).calls[k']? = some c' →
        c'.phase.id? = some i → k' = 1 :=
  responses_go_home (c := ⟨7, true, .returned (some 2) (.ok (some 9)), .holds 9⟩)
    (reachable_clientAfter (by decide)) rfl rfl

/-- `pending` has the calls that are registered and not retired, have no response, and were not
cut off: nothing is left of the calls that returned, and a response that comes late changes
nothing. -/
theorem pending_lists_waiting (h : (sessionClient α ρ ν).Reachable s) :
    (∀ id k, s.pending.lookup id = some k ↔
        ∃ c, s.calls[k]? = some c ∧ c.phase.listedId? = some id ∧ c.inbox = .waiting) ∧
      ((∀ c ∈ s.calls, c.phase.isReturned = true) → ∀ id, s.pending.lookup id = none) ∧
      ∀ id r, (∀ c ∈ s.calls, c.phase.id? = some id → c.phase.isReturned = true) →
        s.readFrame (.response id r) = { s with responses := s.responses ++ [(id, r)] } := by
  have hsound := sound_of_reachable h
  -- a call that is listed has not returned
  have hlisted : ∀ id, s.pending.lookup id ≠ none →
      ∃ c ∈ s.calls, c.phase.id? = some id ∧ c.phase.isReturned = false := by
    intro id hid
    obtain ⟨k, hk⟩ := Option.ne_none_iff_exists'.1 hid
    obtain ⟨c, hc, hentry, -⟩ := (hsound.listed id k).1 hk
    refine ⟨c, List.mem_of_getElem? hc, CallPhase.id?_of_listedId? hentry, ?_⟩
    cases hphase : c.phase <;> rw [hphase] at hentry <;> first | rfl | cases hentry
  refine ⟨hsound.listed, fun hall id => ?_, fun id r hall => ?_⟩
  · by_contra hid
    obtain ⟨c, hc, -, hphase⟩ := hlisted id hid
    rw [hall c hc] at hphase
    cases hphase
  · have hnone : s.pending.lookup id = none := by
      by_contra hid
      obtain ⟨c, hc, hcid, hphase⟩ := hlisted id hid
      rw [hall c hc hcid] at hphase
      cases hphase
    simp only [SessionClient.readFrame, hnone]

theorem pending_lists_waiting_sample :
    (clientAfter askingRun).pending.lookup 2 = some 1 ∧
      (clientAfter answeredRun).pending.lookup 2 = none := by
  obtain ⟨hasking, -⟩ :=
    pending_lists_waiting (s := clientAfter askingRun) (reachable_clientAfter (by decide))
  refine ⟨(hasking 2 1).2 ⟨⟨7, true, .sent 2, .waiting⟩, rfl, rfl, rfl⟩, rfl⟩

/-- A response that is in is what the call returns. -/
theorem receive_holds {k : Nat} {c : ClientCall α ρ} (hc : s.calls[k]? = some c) {id : Nat}
    (hsent : c.phase = .sent id) {r : ρ} (hinbox : c.inbox = .holds r) :
    ∃ s', s.step (.caller k .receive) = some s' ∧
      s'.calls[k]?.map ClientCall.phase = some (.returned (some id) (.ok (some r))) := by
  refine ⟨s.setCall k { c with phase := .returned (some id) (.ok (some r)) }, ?_, ?_⟩
  · simp only [SessionClient.step, hc, Option.bind_some, SessionClient.stepCall, hsent, hinbox]
  · show ((s.calls.set k _)[k]?).map ClientCall.phase = _
    rw [moved_set hc, if_pos rfl]
    rfl

theorem receive_closed {k : Nat} {c : ClientCall α ρ} (hc : s.calls[k]? = some c) {id : Nat}
    (hsent : c.phase = .sent id) (hinbox : c.inbox = .closed) :
    ∃ s', s.step (.caller k .receive) = some s' ∧
      s'.calls[k]?.map ClientCall.phase = some (.cutOff id) := by
  refine ⟨s.setCall k { c with phase := .cutOff id }, ?_, ?_⟩
  · simp only [SessionClient.step, hc, Option.bind_some, SessionClient.stepCall, hsent, hinbox]
  · show ((s.calls.set k _)[k]?).map ClientCall.phase = _
    rw [moved_set hc, if_pos rfl]
    rfl

/-- Who waits is woken: by a response under its number, which it then returns, and by whoever fails
all that is pending (either thread, or the client that is dropped), after which it is cut off unless
its response is in already. -/
theorem sent_calls_wake (h : (sessionClient α ρ ν).Reachable s) {k : Nat} {c : ClientCall α ρ}
    (hc : s.calls[k]? = some c) {id : Nat} (hsent : c.phase = .sent id) :
    (c.inbox = .waiting → s.reader = .running → ∀ r, ∃ s',
        (sessionClient α ρ ν).run s [.read (.response id r), .caller k .receive] = some s' ∧
          (s'.calls[k]?.map ClientCall.phase) = some (.returned (some id) (.ok (some r)))) ∧
      ∀ sweep, sweep = .writerSweeps ∨ sweep = .readerSweeps ∨ sweep = .clientSweeps → ∀ s',
        s.step sweep = some s' → ∃ s'', s'.step (.caller k .receive) = some s'' ∧
          ((s''.calls[k]?.map ClientCall.phase) = some (.cutOff id) ∨
            ∃ r, (id, r) ∈ s.responses ∧
              (s''.calls[k]?.map ClientCall.phase) = some (.returned (some id) (.ok (some r)))) := by
  have hsound := sound_of_reachable h
  constructor
  · intro hwaiting hrunning r
    have hlookup : s.pending.lookup id = some k :=
      (hsound.listed id k).2 ⟨c, hc, by rw [hsent]; rfl, hwaiting⟩
    have hread : s.step (.read (.response id r)) = some { s with
        responses := s.responses ++ [(id, r)], pending := s.pending.erase id,
        calls := s.calls.modify k (sendResponse r) } := by
      simp only [SessionClient.step, if_pos hrunning, SessionClient.readFrame, hlookup]
    have hcall : (s.calls.modify k (sendResponse r))[k]? = some (sendResponse r c) := by
      rw [moved_modify hc (sendResponse r) k, if_pos rfl]
    obtain ⟨s', hs', hphase⟩ := receive_holds (s := { s with
        responses := s.responses ++ [(id, r)], pending := s.pending.erase id,
        calls := s.calls.modify k (sendResponse r) }) hcall hsent rfl
    refine ⟨s', ?_, hphase⟩
    show (s.step (.read (.response id r))).bind (fun s₁ =>
      (s₁.step (.caller k .receive)).bind some) = some s'
    rw [hread, Option.bind_some, hs', Option.bind_some]
  · intro sweep hsweep s' hs
    -- every sweep leaves the calls as `fail_all_pending` does
    have hcalls : s'.calls = s.failAllPending.calls := by
      rcases hsweep with rfl | rfl | rfl <;>
      · simp only [SessionClient.step] at hs
        split at hs <;> cases hs
        rfl
    have hlate : ∃ d, s'.calls[k]? = some d ∧ d.phase = .sent id ∧
        (d.inbox = .closed ∨ ∃ r, d.inbox = .holds r ∧ (id, r) ∈ s.responses) := by
      have hk : s'.calls[k]? = some (if s.holdsSender k then dropSender c else c) := by
        rw [hcalls]
        show (s.calls.mapIdx _)[k]? = _
        rw [List.getElem?_mapIdx, hc]
        rfl
      refine ⟨_, hk, ?_, ?_⟩
      · split
        · rw [dropSender_phase, hsent]
        · exact hsent
      · cases hinbox : c.inbox with
        | waiting =>
            have hsender : s.holdsSender k = true :=
              (holdsSender_iff s k).2 ⟨id, (hsound.listed id k).2 ⟨c, hc, by rw [hsent]; rfl, hinbox⟩⟩
            rw [if_pos hsender, dropSender, hinbox]
            exact .inl rfl
        | closed =>
            refine .inl ?_
            split
            · rw [dropSender, hinbox]
              exact hinbox
            · exact hinbox
        | holds r =>
            obtain ⟨i, hi, hmem⟩ := (hsound.honest k c hc).holds r hinbox
            rw [hsent] at hi
            cases hi
            refine .inr ⟨r, ?_, hmem⟩
            split
            · rw [dropSender, hinbox]
              exact hinbox
            · exact hinbox
    obtain ⟨d, hd, hphase, hinbox⟩ := hlate
    rcases hinbox with hinbox | ⟨r, hinbox, hmem⟩
    · obtain ⟨s'', hs'', hphase''⟩ := receive_closed hd hphase hinbox
      exact ⟨s'', hs'', .inl hphase''⟩
    · obtain ⟨s'', hs'', hphase''⟩ := receive_holds hd hphase hinbox
      exact ⟨s'', hs'', .inr ⟨r, hmem, hphase''⟩⟩

theorem sent_calls_wake_sample :
    ∃ s', (sessionClient Nat Nat Nat).run (clientAfter askingRun)
        [.read (.response 2 9), .caller 1 .receive] = some s' ∧
      (s'.calls[1]?.map ClientCall.phase) = some (.returned (some 2) (.ok (some 9))) :=
  (sent_calls_wake (c := ⟨7, true, .sent 2, .waiting⟩) (reachable_clientAfter (by decide)) rfl
    rfl).1 rfl rfl 9

end

end SessionClient

end Yaldabaoth
