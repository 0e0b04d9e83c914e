import Mathlib.Data.List.Basic

/-!
# `Yaldabaoth.Lib.Machine`: labelled machines and their runs

A machine is a guarded, executable step function: `step s a` is the
state after the action `a`, or `none` when `a` is not possible in `s`.
`Reaches allowed` is what a run can reach whose every action is
`allowed` where it is taken, so that one machine serves the claims
about all runs and those about the runs that avoid something.

`Reaches.invariant` is the one induction over runs. `Reaches.relative`
is the same with an invariant already established at hand, and
`reaches_of_run` turns a list of actions that was executed into a run.
-/

set_option autoImplicit false

universe u v

/-- Initial states and a guarded step. -/
structure Machine (σ : Type u) (α : Type v) where
  start : σ → Prop
  step : σ → α → Option σ

namespace Machine

variable {σ : Type u} {α : Type v} (M : Machine σ α)

/-- The states that runs of allowed actions reach. -/
inductive Reaches (allowed : σ → α → Prop) : σ → Prop
  | start {s : σ} : M.start s → Reaches allowed s
  | step {s s' : σ} {a : α} :
      Reaches allowed s → allowed s a → M.step s a = some s' → Reaches allowed s'

/-- Every action is allowed. -/
def anything : σ → α → Prop := fun _ _ => True

/-- The states that any run reaches. -/
abbrev Reachable : σ → Prop := M.Reaches anything

/-- Execute a list of actions. -/
def run (s : σ) : List α → Option σ
  | [] => some s
  | a :: rest => (M.step s a).bind fun s' => run s' rest

variable {M} {allowed : σ → α → Prop}

/-- What holds at the start and survives every allowed action holds in
every state reached. -/
theorem Reaches.invariant {P : σ → Prop} (hstart : ∀ s, M.start s → P s)
    (hstep : ∀ s a s', P s → allowed s a → M.step s a = some s' → P s') {s : σ}
    (h : M.Reaches allowed s) : P s := by
  induction h with
  | start h => exact hstart _ h
  | step _ hallowed hs ih => exact hstep _ _ _ ih hallowed hs

/-- The same, for a property whose steps lean on an invariant. -/
theorem Reaches.relative {Q P : σ → Prop} (hQ : ∀ s, M.Reaches allowed s → Q s)
    (hstart : ∀ s, M.start s → P s)
    (hstep : ∀ s a s', Q s → P s → allowed s a → M.step s a = some s' → P s') {s : σ}
    (h : M.Reaches allowed s) : P s := by
  induction h with
  | start h => exact hstart _ h
  | step hr hallowed hs ih => exact hstep _ _ _ (hQ _ hr) ih hallowed hs

/-- A run under a stricter rule is a run under a laxer one. -/
theorem Reaches.mono {lax : σ → α → Prop} (hlax : ∀ s a, allowed s a → lax s a) {s : σ}
    (h : M.Reaches allowed s) : M.Reaches lax s := by
  induction h with
  | start h => exact .start h
  | step _ hallowed hs ih => exact .step ih (hlax _ _ hallowed) hs

/-- Every run is a run of allowed actions when all are. -/
theorem Reaches.reachable {s : σ} (h : M.Reaches allowed s) : M.Reachable s :=
  h.mono fun _ _ _ => trivial

/-- Whether every action of a list is allowed where it is taken. -/
def Obeys (M : Machine σ α) (allowed : σ → α → Prop) (s : σ) : List α → Prop
  | [] => True
  | a :: rest => allowed s a ∧ ∀ s' ∈ M.step s a, Obeys M allowed s' rest

instance decidableObeys [∀ s a, Decidable (allowed s a)] :
    ∀ (actions : List α) (s : σ), Decidable (M.Obeys allowed s actions)
  | [], _ => .isTrue trivial
  | a :: rest, s =>
      have : DecidablePred fun s' => M.Obeys allowed s' rest := decidableObeys rest
      inferInstanceAs (Decidable (allowed s a ∧ ∀ s' ∈ M.step s a, M.Obeys allowed s' rest))

/-- An executed list of allowed actions goes on from a reached state to
a reached state. -/
theorem Reaches.of_run {actions : List α} :
    ∀ {s s' : σ}, M.Reaches allowed s → M.Obeys allowed s actions →
      M.run s actions = some s' → M.Reaches allowed s' := by
  induction actions with
  | nil =>
      intro s s' hs _ hrun
      cases hrun
      exact hs
  | cons a rest ih =>
      intro s s' hs hobeys hrun
      obtain ⟨hallowed, hrest⟩ := hobeys
      cases hstep : M.step s a with
      | none => rw [run, hstep] at hrun; cases hrun
      | some next =>
          rw [run, hstep] at hrun
          exact ih (.step hs hallowed hstep) (hrest next hstep) hrun

/-- A list obeys when every action is allowed in the state that the ones
before it lead to. -/
theorem obeys_iff_forall (actions : List α) : ∀ s : σ, M.Obeys allowed s actions ↔
    ∀ front a back s', actions = front ++ a :: back → M.run s front = some s' → allowed s' a := by
  induction actions with
  | nil =>
      intro s
      refine iff_of_true trivial fun front a back s' hsplit => ?_
      cases front <;> cases hsplit
  | cons b rest ih =>
      intro s
      constructor
      · rintro ⟨hallowed, hrest⟩ front a back s' hsplit hrun
        cases front with
        | nil =>
            cases hsplit
            cases hrun
            exact hallowed
        | cons _ front =>
            cases hsplit
            cases hnext : M.step s b with
            | none => rw [run, hnext] at hrun; cases hrun
            | some next =>
                rw [run, hnext] at hrun
                exact (ih next).1 (hrest next hnext) front a back s' rfl hrun
      · intro hall
        refine ⟨hall [] b rest s rfl rfl, fun next hnext => (ih next).2 ?_⟩
        intro front a back s' hsplit hrun
        refine hall (b :: front) a back s' (by rw [hsplit, List.cons_append]) ?_
        rw [run, Option.mem_def.1 hnext]
        exact hrun

/-- Where the allowed actions keep an invariant that makes every state
good, and the others spoil the state at once, a run passes through good
states only exactly when it obeys. -/
theorem run_good_iff_obeys {P good : σ → Prop} (hgood : ∀ s, P s → good s)
    (hstep : ∀ s a s', P s → allowed s a → M.step s a = some s' → P s')
    (hspoils : ∀ s a, P s → ¬ allowed s a → ∃ s', M.step s a = some s' ∧ ¬ good s') (actions : List α) :
    ∀ {s : σ}, P s →
      ((∀ front back s', actions = front ++ back → M.run s front = some s' → good s') ↔
        M.Obeys allowed s actions) := by
  induction actions with
  | nil =>
      intro s hs
      refine iff_of_true (fun front back s' hsplit hrun => ?_) trivial
      obtain ⟨rfl, rfl⟩ := List.append_eq_nil_iff.1 hsplit.symm
      cases hrun
      exact hgood s hs
  | cons a rest ih =>
      intro s hs
      constructor
      · intro hall
        have hallowed : allowed s a := by
          by_contra hnot
          obtain ⟨s', hs', hbad⟩ := hspoils s a hs hnot
          exact hbad (hall [a] rest s' rfl (by simp [run, hs']))
        refine ⟨hallowed, fun next hnext => (ih (hstep s a next hs hallowed hnext)).1 ?_⟩
        intro front back s' hsplit hrun
        refine hall (a :: front) back s' (by rw [hsplit, List.cons_append]) ?_
        rw [run, Option.mem_def.1 hnext]
        exact hrun
      · rintro ⟨hallowed, hrest⟩ front back s' hsplit hrun
        cases front with
        | nil =>
            cases hrun
            exact hgood s hs
        | cons b front =>
            obtain ⟨rfl, rfl⟩ := List.cons_eq_cons.1 hsplit
            cases hnext : M.step s a with
            | none => rw [run, hnext] at hrun; cases hrun
            | some next =>
                rw [run, hnext] at hrun
                exact (ih (hstep s a next hs hallowed hnext)).2 (hrest next hnext) front back s'
                  rfl hrun

/-- Any executed list of actions ends in a reachable state. -/
theorem reachable_of_run {actions : List α} {s s' : σ} (hs : M.start s)
    (hrun : M.run s actions = some s') : M.Reachable s' := by
  refine Reaches.of_run (.start hs) ?_ hrun
  clear hrun hs
  induction actions generalizing s with
  | nil => trivial
  | cons a rest ih => exact ⟨trivial, fun _ _ => ih⟩

/-! ### Machines from machines -/

/-- The machine whose environment keeps to a rule. -/
def guarded (M : Machine σ α) (ok : σ → α → Prop) [∀ s a, Decidable (ok s a)] : Machine σ α where
  start := M.start
  step s a := if ok s a then M.step s a else none

/-- The machine with an observer beside it, which no step depends on. -/
def observed {γ : Type*} (M : Machine σ α) (first : γ) (observe : σ → γ → α → γ) :
    Machine (σ × γ) α where
  start s := M.start s.1 ∧ s.2 = first
  step s a := (M.step s.1 a).map fun s' => (s', observe s.1 s.2 a)

end Machine
