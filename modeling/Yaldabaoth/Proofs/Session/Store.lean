import Yaldabaoth.Model.SessionStore

/-!
# `Yaldabaoth.Proofs.Session.Store`: one session for each id of the server

`Sound` says of a store that its index is the inverse of what the entries
say, and that the next id is free. A call takes a route away, or puts one
between an id of the server and a session that both have none, which
`Routes.release` and `Routes.bind` say once for all calls.
-/

set_option autoImplicit false

namespace Yaldabaoth

namespace SessionStore

variable {ς π : Type}

/-! ### Routes -/

/-- The index leads to the session whose entry has the server's id, and nowhere else. -/
def Routes (locate : ς → Option Nat) (sidOf : Nat → Option ς) : Prop :=
  ∀ sid id, locate sid = some id ↔ sidOf id = some sid

section
variable [DecidableEq ς] {locate : ς → Option Nat} {sidOf : Nat → Option ς} {sid : ς} {id : Nat}

theorem Routes.bind (h : Routes locate sidOf) (hsid : locate sid = none) (hid : sidOf id = none) :
    Routes (fun x => if x = sid then some id else locate x)
      (fun i => if i = id then some sid else sidOf i) := by
  intro x i
  have hx := h sid i
  have hi := h x id
  dsimp only
  grind [Routes]

theorem Routes.release (h : Routes locate sidOf) (hid : sidOf id = some sid) :
    Routes (fun x => if x = sid then none else locate x)
      (fun i => if i = id then none else sidOf i) := by
  intro x i
  have hx := h sid i
  have hi := h x id
  have hboth := h sid id
  dsimp only
  grind [Routes]

end

/-! ### The invariant -/

structure Sound [DecidableEq ς] (s : SessionStore ς π) : Prop where
  routes : Routes s.locate s.sidOf
  fresh : ∀ id, s.next ≤ id → s.entries.lookup id = none

section
variable {s : SessionStore ς π}

theorem sidOf_insert (m : Map Nat (SessionEntry ς π)) (id i : Nat) (e : SessionEntry ς π) :
    ((m.insert id e).lookup i).bind SessionEntry.sid =
      if i = id then e.sid else (m.lookup i).bind SessionEntry.sid := by
  rw [Map.get_insert]
  split <;> rfl

theorem sidOf_erase (m : Map Nat (SessionEntry ς π)) (id i : Nat) :
    ((m.erase id).lookup i).bind SessionEntry.sid =
      if i = id then none else (m.lookup i).bind SessionEntry.sid := by
  rw [Map.get_erase]
  split <;> rfl

/-- An entry is written whose session was there, or is the next one. -/
theorem fresh_insert (h : ∀ id, s.next ≤ id → s.entries.lookup id = none) {id next : Nat}
    (hid : id < next) (hnext : s.next ≤ next) (e : SessionEntry ς π) (i : Nat) (hi : next ≤ i) :
    (s.entries.insert id e).lookup i = none := by
  rw [Map.get_insert, if_neg (by omega)]
  exact h i (by omega)

variable [DecidableEq ς]

theorem Sound.lt_next (h : s.Sound) {id : Nat} {e : SessionEntry ς π}
    (he : s.entries.lookup id = some e) : id < s.next := by
  by_contra hge
  rw [h.fresh id (by omega)] at he
  cases he

theorem Sound.setPayload (h : s.Sound) (id : Nat) (payload : π) : (s.setPayload id payload).Sound := by
  unfold SessionStore.setPayload
  cases he : s.entries.lookup id with
  | none => exact h
  | some e =>
      refine ⟨fun sid i => ?_, fresh_insert h.fresh (h.lt_next he) (Nat.le_refl _) _⟩
      show s.locate sid = some i ↔ ((s.entries.insert id _).lookup i).bind SessionEntry.sid = some sid
      rw [h.routes sid i, sidOf_insert, sidOf]
      split
      · next hi => rw [hi, he]; rfl
      · rfl

theorem Sound.step (h : s.Sound) (call : Call ς π) : (s.perform call).Sound := by
  cases call with
  | openOrFocus sid payload =>
      simp only [perform, openOrFocus]
      cases hsid : s.bySid.lookup sid with
      | some id => exact h
      | none =>
          refine ⟨?_, fresh_insert h.fresh (Nat.lt_succ_self _) (Nat.le_succ _) _⟩
          have hid : s.sidOf s.next = none := by rw [sidOf, h.fresh _ (Nat.le_refl _)]; rfl
          intro x i
          simp only [locate, sidOf, sidOf_insert]
          rw [Map.get_insert]
          exact h.routes.bind hsid hid x i
  | createLocal payload =>
      refine ⟨fun sid i => ?_, fresh_insert h.fresh (Nat.lt_succ_self _) (Nat.le_succ _) _⟩
      show s.locate sid = some i ↔ ((s.entries.insert _ _).lookup i).bind SessionEntry.sid = some sid
      rw [h.routes sid i, sidOf_insert, sidOf]
      split
      · next hi => rw [hi, h.fresh _ (Nat.le_refl _)]; rfl
      · rfl
  | bindSid id sid =>
      simp only [perform, bindSid]
      cases hsid : s.bySid.lookup sid with
      | some owner => dsimp only; split <;> exact h
      | none =>
          cases he : s.entries.lookup id with
          | none => exact h
          | some e =>
              refine ⟨?_, fresh_insert h.fresh (h.lt_next he) (Nat.le_refl _) _⟩
              have hid : s.sidOf id = e.sid := by rw [sidOf, he]; rfl
              intro x i
              simp only [locate, sidOf, sidOf_insert]
              rw [Map.get_insert]
              cases hold : e.sid with
              | none => exact h.routes.bind hsid (hid.trans hold) x i
              | some old =>
                  -- the old route goes, and then both ends are free
                  have hfree : (if sid = old then none else s.locate sid) = none := by
                    split
                    · rfl
                    · exact hsid
                  have hbound := (h.routes.release (hid.trans hold)).bind hfree (if_pos rfl) x i
                  dsimp only at hbound ⊢
                  rw [Map.get_erase]
                  refine hbound.trans ?_
                  split <;> rfl
  | clearSid id =>
      simp only [perform, clearSid]
      cases he : s.entries.lookup id with
      | none => exact h
      | some e =>
          dsimp only
          cases hold : e.sid with
          | none => exact h
          | some old =>
              refine ⟨?_, fresh_insert h.fresh (h.lt_next he) (Nat.le_refl _) _⟩
              have hid : s.sidOf id = some old := by rw [sidOf, he]; exact hold
              intro x i
              simp only [locate, sidOf, Map.get_erase, sidOf_insert]
              exact h.routes.release hid x i
  | setPayload id payload => exact h.setPayload id payload
  | setPayloadBySid sid payload =>
      simp only [perform, setPayloadBySid]
      split
      · exact h
      · exact h.setPayload _ payload
  | close id =>
      simp only [perform, close]
      cases he : s.entries.lookup id with
      | none => exact h
      | some e =>
          refine ⟨?_, fun i hi => ?_⟩
          · have hid : s.sidOf id = e.sid := by rw [sidOf, he]; rfl
            intro x i
            simp only [locate, sidOf, sidOf_erase]
            cases hold : e.sid with
            | none =>
                rw [← locate, h.routes x i]
                split
                · next hi => rw [hi, hid, hold]
                · rfl
            | some old =>
                rw [Map.get_erase]
                exact h.routes.release (hid.trans hold) x i
          · show (s.entries.erase id).lookup i = none
            rw [Map.get_erase, h.fresh i hi]
            split <;> rfl

end

theorem sound_of_reachable [DecidableEq ς] {s : SessionStore ς π} (h : (sessionStore ς π).Reachable s) : s.Sound :=
  h.invariant
    (fun s hs => by
      cases hs
      exact ⟨fun sid id => by simp [locate, sidOf], fun id _ => AList.lookup_empty id⟩)
    fun s call s' h _ hs => by
      cases hs
      exact h.step call

/-! ### Runs -/

section
variable [DecidableEq ς] {s s' : SessionStore ς π}

/-- A route is erased if it leads to the session, and by no other entry. -/
theorem Sound.erase_route (h : s.Sound) {id : Nat} {e : SessionEntry ς π}
    (he : s.entries.lookup id = some e) {old : ς} (hold : e.sid = some old) (x : ς) :
    (s.bySid.erase old).lookup x = if s.locate x = some id then none else s.locate x := by
  have hx : s.locate x = some id ↔ some old = some x := by
    rw [h.routes x id, sidOf, he, Option.bind_some, hold]
  rw [Map.get_erase]
  show (if x = old then none else s.locate x) = _
  by_cases hxo : x = old
  · rw [if_pos hxo, if_pos (hx.2 (congrArg some hxo.symm))]
  · rw [if_neg hxo, if_neg fun hroute => hxo (Option.some.inj (hx.1 hroute)).symm]

/-- Without an entry, or without an id of the server in it, no route leads to the session. -/
theorem Sound.no_route (h : s.Sound) {id : Nat} (hid : s.sidOf id = none) (x : ς) :
    s.locate x = if s.locate x = some id then none else s.locate x := by
  rw [if_neg]
  rw [h.routes x id, hid]
  exact fun heq => by cases heq

theorem Sound.locate_close (h : s.Sound) (id : Nat) (x : ς) :
    (s.close id).2.locate x = if s.locate x = some id then none else s.locate x := by
  unfold close
  cases he : s.entries.lookup id with
  | none => exact h.no_route (by rw [sidOf, he]; rfl) x
  | some e =>
      dsimp only
      cases hold : e.sid with
      | none => exact h.no_route (by rw [sidOf, he]; exact hold) x
      | some old => exact h.erase_route he hold x

theorem Sound.locate_clearSid (h : s.Sound) (id : Nat) (x : ς) :
    (s.clearSid id).2.locate x = if s.locate x = some id then none else s.locate x := by
  unfold clearSid
  cases he : s.entries.lookup id with
  | none => exact h.no_route (by rw [sidOf, he]; rfl) x
  | some e =>
      dsimp only
      cases hold : e.sid with
      | none => exact h.no_route (by rw [sidOf, he]; exact hold) x
      | some old => exact h.erase_route he hold x

theorem Sound.locate_bindSid (h : s.Sound) {id : Nat} {e : SessionEntry ς π}
    (he : s.entries.lookup id = some e) {sid : ς} (hfree : s.locate sid = none) (x : ς) :
    (s.bindSid id sid).2.locate x =
      if x = sid then some id else if s.locate x = some id then none else s.locate x := by
  rw [locate] at hfree
  simp only [bindSid, hfree, he]
  rw [locate, Map.get_insert]
  cases hold : e.sid with
  | none =>
      have hnone : s.sidOf id = none := by
        rw [sidOf, he]
        exact hold
      rw [← h.no_route hnone x]
      rfl
  | some old => rw [h.erase_route he hold x]

def openedStore : SessionStore Nat Nat :=
  ((sessionStore Nat Nat).run {} [.createLocal 1, .openOrFocus 7 2]).getD {}

theorem reachable_openedStore : (sessionStore Nat Nat).Reachable openedStore := by
  have hrun : (sessionStore Nat Nat).run {} [.createLocal 1, .openOrFocus 7 2] = some openedStore :=
    rfl
  exact Machine.reachable_of_run rfl hrun

/-- The call leaves the route to the session alone. -/
def Call.Spares (id : Nat) (sid : ς) : Call ς π → Prop
  | .bindSid id' sid' => id' = id → sid' = sid
  | .clearSid id' | .close id' => id' ≠ id
  | _ => True

theorem locate_setPayload (s : SessionStore ς π) (id : Nat) (payload : π) (x : ς) :
    (s.setPayload id payload).locate x = s.locate x := by
  unfold setPayload
  split <;> rfl

theorem Sound.keeps_route (h : s.Sound) {sid : ς} {id : Nat} (hroute : s.locate sid = some id)
    {call : Call ς π} (hspares : call.Spares id sid) : (s.perform call).locate sid = some id := by
  cases call with
  | openOrFocus sid' payload =>
      simp only [perform, openOrFocus]
      cases hother : s.bySid.lookup sid' with
      | some _ => exact hroute
      | none =>
          have hne : sid ≠ sid' := by
            rintro rfl
            cases hroute.symm.trans hother
          exact (AList.lookup_insert_ne hne).trans hroute
  | createLocal payload => exact hroute
  | bindSid id' sid' =>
      show (s.bindSid id' sid').2.locate sid = some id
      cases hother : s.locate sid' with
      | some owner =>
          have hlookup : s.bySid.lookup sid' = some owner := hother
          simp only [bindSid, hlookup]
          split <;> exact hroute
      | none =>
          cases he : s.entries.lookup id' with
          | none =>
              have hlookup : s.bySid.lookup sid' = none := hother
              simp only [bindSid, hlookup, he]
              exact hroute
          | some e =>
              have hne : sid ≠ sid' := by
                rintro rfl
                cases hroute.symm.trans hother
              rw [h.locate_bindSid he hother, if_neg hne, if_neg, hroute]
              rintro heq
              rw [hroute] at heq
              exact hne (hspares (Option.some.inj heq).symm).symm
  | clearSid id' =>
      rw [perform, h.locate_clearSid, if_neg, hroute]
      rw [hroute]
      exact fun heq => hspares (Option.some.inj heq).symm
  | close id' =>
      rw [perform, h.locate_close, if_neg, hroute]
      rw [hroute]
      exact fun heq => hspares (Option.some.inj heq).symm
  | setPayload id' payload => exact (locate_setPayload _ _ _ _).trans hroute
  | setPayloadBySid sid' payload =>
      simp only [perform, setPayloadBySid]
      split
      · exact hroute
      · exact (locate_setPayload _ _ _ _).trans hroute

/-- Ids go up, and a session that is gone stays gone. -/
theorem gone_step (s : SessionStore ς π) (call : Call ς π) : s.next ≤ (s.perform call).next ∧
    ∀ id, id < s.next → s.entries.lookup id = none → (s.perform call).entries.lookup id = none := by
  have hpayload : ∀ (id' : Nat) (payload : π), s.next ≤ (s.setPayload id' payload).next ∧
      ∀ id, id < s.next → s.entries.lookup id = none →
        (s.setPayload id' payload).entries.lookup id = none := by
    intro id' payload
    unfold setPayload
    cases he : s.entries.lookup id' with
    | none => exact ⟨Nat.le_refl _, fun _ _ h => h⟩
    | some e =>
        refine ⟨Nat.le_refl _, fun id _ hid => ?_⟩
        grind [Map.get_insert]
  cases call with
  | setPayload id' payload => exact hpayload id' payload
  | setPayloadBySid sid payload =>
      simp only [perform, setPayloadBySid]
      split
      · exact ⟨Nat.le_refl _, fun _ _ h => h⟩
      · exact hpayload _ payload
  | openOrFocus sid payload =>
      simp only [perform, openOrFocus]
      split
      · exact ⟨Nat.le_refl _, fun _ _ h => h⟩
      · grind [Map.get_insert]
  | createLocal payload =>
      simp only [perform, createLocal]
      grind [Map.get_insert]
  | bindSid id' sid =>
      simp only [perform, bindSid]
      split
      · split <;> exact ⟨Nat.le_refl _, fun _ _ h => h⟩
      · split
        · exact ⟨Nat.le_refl _, fun _ _ h => h⟩
        · grind [Map.get_insert]
  | clearSid id' =>
      simp only [perform, clearSid]
      split
      · exact ⟨Nat.le_refl _, fun _ _ h => h⟩
      · split
        · exact ⟨Nat.le_refl _, fun _ _ h => h⟩
        · grind [Map.get_insert]
  | close id' =>
      simp only [perform, close]
      split
      · exact ⟨Nat.le_refl _, fun _ _ h => h⟩
      · grind [Map.get_erase]

/-- Along every run a session that is gone stays gone, with no route to its id, and a route leads
to its session until that is closed, cleared, or bound to another id: no other call, and no other
session, takes it. -/
theorem routes_last (h : (sessionStore ς π).Reachable s) {calls : List (Call ς π)}
    (hrun : (sessionStore ς π).run s calls = some s') :
    (∀ id, id < s.next → s.get id = none → s'.get id = none ∧ ∀ sid, s'.locate sid ≠ some id) ∧
    ∀ sid id, s.locate sid = some id → (∀ call ∈ calls, call.Spares id sid) →
      s'.locate sid = some id := by
  have hsound := sound_of_reachable h
  clear h
  induction calls generalizing s with
  | nil =>
      cases hrun
      refine ⟨fun id _ hid => ⟨hid, fun sid hroute => ?_⟩, fun _ _ hroute _ => hroute⟩
      have hsid := (hsound.routes sid id).1 hroute
      rw [sidOf, Option.map_eq_none_iff.1 hid] at hsid
      cases hsid
  | cons call rest ih =>
      obtain ⟨hgone, hkept⟩ := ih hrun (hsound.step call)
      obtain ⟨hnext, hstays⟩ := gone_step s call
      refine ⟨fun id hid hnone => ?_, fun sid id hroute hspares => ?_⟩
      · refine hgone id (Nat.lt_of_lt_of_le hid hnext) (Option.map_eq_none_iff.2 ?_)
        exact hstays id hid (Option.map_eq_none_iff.1 hnone)
      · exact hkept sid id (hsound.keeps_route hroute (hspares call List.mem_cons_self))
          fun call' hcall => hspares call' (List.mem_cons_of_mem call hcall)

/-- Another session is bound, cleared and closed. -/
def otherCalls : List (Call Nat Nat) :=
  [.bindSid 0 8, .createLocal 3, .clearSid 0, .openOrFocus 7 4, .close 0, .setPayloadBySid 7 9]

theorem routes_last_sample :
    ∃ s', (sessionStore Nat Nat).run openedStore otherCalls = some s' ∧ s'.locate 7 = some 1 := by
  obtain ⟨s', hrun⟩ := Option.isSome_iff_exists.1
    (show ((sessionStore Nat Nat).run openedStore otherCalls).isSome = true from rfl)
  refine ⟨s', hrun, (routes_last reachable_openedStore hrun).2 7 1 rfl fun call hcall => ?_⟩
  simp only [otherCalls, List.mem_cons, List.not_mem_nil, or_false] at hcall
  rcases hcall with rfl | rfl | rfl | rfl | rfl | rfl <;> simp [Call.Spares]

end

end SessionStore

end Yaldabaoth
