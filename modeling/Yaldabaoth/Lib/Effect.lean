import Mathlib.Data.List.Basic

/-!
# `Effect`: programs that change a state and may fail

An imperative procedure as a state transformer. A failure keeps the
changes made before it: the state is what the world has become, not
what a transaction would put back.

`Ends m s Q E` says how `m` ends when it is started in `s`: with a value
and a state in `Q`, or with an error and a state in `E`. Its rules
follow the syntax, so that a fact about a procedure is put together
from facts about its parts. `Keeps I m` is the common case of an
invariant, and `Keeps.each` its rule for loops.
-/

set_option autoImplicit false

universe u

/-- A procedure over the state `σ` with errors `ε`. -/
abbrev Effect (σ ε α : Type u) : Type u := ExceptT ε (StateM σ) α

namespace Effect

variable {σ ε α β : Type u}

/-- Run a procedure. -/
def exec (m : Effect σ ε α) (s : σ) : Except ε α × σ := m.run.run s

@[simp] theorem exec_pure (a : α) (s : σ) : exec (pure a : Effect σ ε α) s = (.ok a, s) := rfl

theorem exec_mk (f : σ → Except ε α × σ) (s : σ) : exec (ExceptT.mk f : Effect σ ε α) s = f s := rfl

@[simp] theorem exec_throw (e : ε) (s : σ) :
    exec (throw e : Effect σ ε α) s = (.error e, s) := rfl

@[simp] theorem exec_get (s : σ) : exec (get : Effect σ ε σ) s = (.ok s, s) := rfl

@[simp] theorem exec_modify (f : σ → σ) (s : σ) :
    exec (modify f : Effect σ ε PUnit) s = (.ok ⟨⟩, f s) := rfl

@[simp] theorem exec_set (s s' : σ) :
    exec (set s' : Effect σ ε PUnit) s = (.ok ⟨⟩, s') := rfl

/-- The second part runs only after the first has succeeded. -/
theorem exec_bind (m : Effect σ ε α) (f : α → Effect σ ε β) (s : σ) :
    exec (m >>= f) s = match exec m s with
      | (.ok a, s') => exec (f a) s'
      | (.error e, s') => (.error e, s') := by
  show (ExceptT.bindCont f (exec m s).1).run (exec m s).2 = _
  rcases exec m s with ⟨_ | _, _⟩ <;> rfl

/-- A failure is handled in the state it left. -/
theorem exec_tryCatch (m : Effect σ ε α) (handle : ε → Effect σ ε α) (s : σ) :
    exec (tryCatch m handle) s = match exec m s with
      | (.ok a, s') => (.ok a, s')
      | (.error e, s') => exec (handle e) s' := by
  show (match (exec m s).1 with
    | .ok a => (pure (.ok a) : StateM σ (Except ε α))
    | .error e => (handle e).run).run (exec m s).2 = _
  rcases exec m s with ⟨_ | _, _⟩ <;> rfl

/-! ### How a run ends -/

/-- A run from `s` ends in `Q` of its value or in `E` of its error. -/
def Ends (m : Effect σ ε α) (s : σ) (Q : α → σ → Prop) (E : ε → σ → Prop) : Prop :=
  match exec m s with
  | (.ok a, s') => Q a s'
  | (.error e, s') => E e s'

section rules

variable {m : Effect σ ε α} {f : α → Effect σ ε β} {s : σ} {Q Q' : α → σ → Prop}
  {R : β → σ → Prop} {E E' : ε → σ → Prop}

@[simp] theorem ends_pure {a : α} : Ends (pure a : Effect σ ε α) s Q E ↔ Q a s := Iff.rfl

@[simp] theorem ends_throw {e : ε} : Ends (throw e : Effect σ ε α) s Q E ↔ E e s := Iff.rfl

@[simp] theorem ends_get {Q : σ → σ → Prop} : Ends (get : Effect σ ε σ) s Q E ↔ Q s s := Iff.rfl

@[simp] theorem ends_modify {g : σ → σ} {Q : PUnit → σ → Prop} :
    Ends (modify g : Effect σ ε PUnit) s Q E ↔ Q ⟨⟩ (g s) := Iff.rfl

@[simp] theorem ends_bind : Ends (m >>= f) s R E ↔ Ends m s (fun a s' => Ends (f a) s' R E) E := by
  unfold Ends
  rw [exec_bind]
  rcases exec m s with ⟨_ | _, _⟩ <;> rfl

theorem Ends.mono (h : Ends m s Q E) (hQ : ∀ a s', Q a s' → Q' a s')
    (hE : ∀ e s', E e s' → E' e s') : Ends m s Q' E' := by
  unfold Ends at h ⊢
  split at h
  · exact hQ _ _ h
  · exact hE _ _ h

theorem Ends.and (h : Ends m s Q E) (h' : Ends m s Q' E') :
    Ends m s (fun a s' => Q a s' ∧ Q' a s') (fun e s' => E e s' ∧ E' e s') := by
  unfold Ends at h h' ⊢
  split at h
  · next heq =>
      rw [heq] at h'
      exact ⟨h, h'⟩
  · next heq =>
      rw [heq] at h'
      exact ⟨h, h'⟩

/-- The run itself may be used in what is shown of its end. -/
theorem Ends.observed (h : Ends m s Q E) :
    Ends m s (fun a s' => exec m s = (.ok a, s') ∧ Q a s')
      (fun e s' => exec m s = (.error e, s') ∧ E e s') := by
  unfold Ends at h ⊢
  split at h
  · next heq => exact ⟨heq, h⟩
  · next heq => exact ⟨heq, h⟩

/-- What a run that succeeded ended in. -/
theorem Ends.of_ok (h : Ends m s Q E) {a : α} {s' : σ} (hm : exec m s = (.ok a, s')) : Q a s' := by
  simpa only [Ends, hm] using h

/-- What a run that failed ended in. -/
theorem Ends.of_error (h : Ends m s Q E) {e : ε} {s' : σ} (hm : exec m s = (.error e, s')) :
    E e s' := by
  simpa only [Ends, hm] using h

end rules

/-! ### Invariants -/

/-- The invariant survives the procedure, however it ends. -/
def Keeps (I : σ → Prop) (m : Effect σ ε α) : Prop :=
  ∀ s, I s → Ends m s (fun _ => I) (fun _ => I)

variable {I : σ → Prop}

theorem Keeps.pure (a : α) : Keeps I (pure a : Effect σ ε α) := fun _ h => h

theorem Keeps.throw (e : ε) : Keeps I (throw e : Effect σ ε α) := fun _ h => h

theorem Keeps.get : Keeps I (get : Effect σ ε σ) := fun _ h => h

theorem Keeps.modify {f : σ → σ} (hf : ∀ s, I s → I (f s)) :
    Keeps I (modify f : Effect σ ε PUnit) := hf

theorem Keeps.bind {m : Effect σ ε α} {f : α → Effect σ ε β} (hm : Keeps I m)
    (hf : ∀ a, Keeps I (f a)) : Keeps I (m >>= f) := by
  intro s hs
  rw [ends_bind]
  exact (hm s hs).mono (fun a s' h => hf a s' h) fun _ _ h => h

/-- The invariant holds in the state a run leaves behind. -/
theorem Keeps.exec {m : Effect σ ε α} (hm : Keeps I m) {s : σ} (hs : I s) : I (exec m s).2 := by
  have h := hm s hs
  unfold Ends at h
  split at h
  · next heq => rw [heq]; exact h
  · next heq => rw [heq]; exact h

/-! ### Loops -/

/-- Run a procedure for every item in turn, up to the first failure. -/
def each (f : α → Effect σ ε PUnit) : List α → Effect σ ε PUnit
  | [] => Pure.pure ⟨⟩
  | a :: rest => do
      f a
      each f rest

/-- What every pass keeps, the loop keeps. -/
theorem Keeps.each {f : α → Effect σ ε PUnit} (hf : ∀ a, Keeps I (f a)) (as : List α) :
    Keeps I (each f as) := by
  induction as with
  | nil => exact Keeps.pure _
  | cons a rest ih => exact (hf a).bind fun _ => ih

/-- The passes that a loop makes, each with the state it starts in. -/
def visits (f : α → Effect σ ε PUnit) : List α → σ → List (α × σ)
  | [], _ => []
  | a :: rest, s =>
      (a, s) :: match exec (f a) s with
        | (.ok _, s') => visits f rest s'
        | (.error _, _) => []

/-- A loop ends where one of its passes failed, or goes on behind it. -/
theorem exec_each_of_visit {f : α → Effect σ ε PUnit} {as : List α} {s t : σ} {a : α}
    (h : (a, t) ∈ visits f as s) :
    (∃ s' rest, exec (f a) t = (.ok ⟨⟩, s') ∧
      (exec (each f as) s).2 = (exec (each f rest) s').2) ∨
    (∃ e s', exec (f a) t = (.error e, s') ∧ (exec (each f as) s).2 = s') := by
  induction as generalizing s with
  | nil => cases h
  | cons first rest ih =>
      have heach : exec (each f (first :: rest)) s = match exec (f first) s with
          | (.ok _, s') => exec (each f rest) s'
          | (.error e, s') => (.error e, s') := by
        rw [each, exec_bind]
        rcases exec (f first) s with ⟨_ | _, _⟩ <;> rfl
      rw [visits] at h
      cases hfirst : exec (f first) s with
      | mk result s' =>
          rw [hfirst] at h heach
          rcases List.mem_cons.1 h with heq | h
          · cases heq
            cases result with
            | ok u => exact .inl ⟨s', rest, hfirst, congrArg Prod.snd heach⟩
            | error e => exact .inr ⟨e, s', hfirst, congrArg Prod.snd heach⟩
          · cases result with
            | ok u =>
                have heach : exec (each f (first :: rest)) s = exec (each f rest) s' := heach
                rw [heach]
                exact ih h
            | error e => cases h

end Effect
