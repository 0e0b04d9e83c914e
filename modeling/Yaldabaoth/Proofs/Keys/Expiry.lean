import Yaldabaoth.Proofs.Keys.Keystrokes

/-!
# `Yaldabaoth.Proofs.Keys.Expiry`: a prefix that is too old

The matcher forgets the prefix when the next key is fed, but `feed_key`
asks before that whether one is pending. So the first key after the pause
is never a count digit, and the count typed before the pause is still
there. `expired_prefix_traceless` says when the keystroke goes as on a
manager that was reset: as a rule when there is no such count and the key
is no such digit.
-/

set_option autoImplicit false

namespace Yaldabaoth

namespace Keybind

namespace KeybindManager

/-- What a key does alone: the matcher is empty, and the key is no count
digit. -/
def alone (b : Bindings) (now : Nat) (count : Option Nat) (press : KeyPress) :
    List (String × Option Nat) × KeybindManager :=
  if b.isBound [press] = false ∧ b.isStart [press] = true then
    ([], { matcher := ⟨[press], some now⟩, pendingCount := count })
  else
    match b.single.lookup press with
    | some name => ([(name, count)], {})
    | none => ([], { pendingCount := count })

/-- The keystroke goes as after a reset: no count was typed before, and the
key would be no count digit. Or it would be one and that count was typed
before, while the key alone does nothing. -/
def Traceless (b : Bindings) (s : KeybindManager) (press : KeyPress) : Prop :=
  s.pendingCount = none ∧ s.resetPending.countDigit press = none ∨
    ∃ d, s.resetPending.countDigit press = some d ∧
      s.pendingCount = some (extendCount none d) ∧ b.single.lookup press = none ∧
        (b.isBound [press] = true ∨ b.isStart [press] = false)

/-- A key that finds nothing pending any more and is no count digit is fed
alone. -/
theorem keystroke_alone {b : Bindings} {now : Nat} {s : KeybindManager} {press : KeyPress}
    (hexpired : s.matcher.expire now = {}) (hdigit : s.countDigit press = none)
    (hqueued : s.queued = []) : keystroke b now s press = alone b now s.pendingCount press := by
  obtain ⟨matcher, pendingCount, queued, resolvedCount⟩ := s
  cases hqueued
  have hstep : feedStep b now ⟨matcher, pendingCount, [], none⟩ press =
      ({ (alone b now pendingCount press).2 with queued := (alone b now pendingCount press).1 },
        []) := by
    rw [feedStep]
    have hnone : countDigit ⟨matcher, pendingCount, [], none⟩ press = none := hdigit
    rw [hnone]
    dsimp only at hexpired ⊢
    rw [KeySequenceMatcher.feed, hexpired, alone]
    dsimp only
    rw [List.nil_append]
    cases hbound : b.isBound [press] with
    | true =>
        rw [if_pos rfl, if_neg (by simp)]
        dsimp only [actionOf]
        cases b.single.lookup press <;> rfl
    | false =>
        cases hstart : b.isStart [press] with
        | true => simp
        | false =>
            cases hsingle : b.single.lookup press with
            | some name => simp [actionOf, hsingle, resolve]
            | none => simp
  rw [keystroke_eq, feedKey, feedKeys]
  dsimp only
  rw [hstep, List.append_nil, feedKeys_nil]
  rw [alone]
  split
  · rfl
  · cases b.single.lookup press <;> rfl

/-- A count digit of a manager that was reset. -/
theorem keystroke_digit {b : Bindings} {now d : Nat} {press : KeyPress}
    (hdigit : countDigit {} press = some d) :
    keystroke b now {} press = ([], { pendingCount := some (extendCount none d) }) := by
  have hstep : feedStep b now {} press = ({ pendingCount := some (extendCount none d) }, []) := by
    rw [feedStep, hdigit]
  rw [keystroke_once hstep rfl]

/-- The key alone, with two counts: the same only if the counts are. -/
theorem alone_inj {b : Bindings} {now : Nat} {count count' : Option Nat} {press : KeyPress} :
    alone b now count press = alone b now count' press ↔ count = count' := by
  constructor
  · intro h
    rw [alone, alone] at h
    split at h
    · cases h
      rfl
    · split at h
      · cases h
        rfl
      · cases h
        rfl
  · intro h
    rw [h]

/-- The key alone leaves just a count. -/
theorem alone_eq_count {b : Bindings} {now : Nat} {count : Option Nat} {press : KeyPress}
    {n : Nat} : alone b now count press = ([], { pendingCount := some n }) ↔
      count = some n ∧ b.single.lookup press = none ∧
        (b.isBound [press] = true ∨ b.isStart [press] = false) := by
  rw [alone]
  cases b.isBound [press] <;> cases b.isStart [press] <;>
    cases b.single.lookup press <;> simp

/-- The first keystroke after the pause. -/
theorem keystroke_reset_iff (b : Bindings) {now : Nat} {s : KeybindManager} (press : KeyPress)
    (hexpired : s.matcher.expire now = {}) (hpending : s.matcher.pending ≠ [])
    (hqueued : s.queued = []) :
    keystroke b now s press = keystroke b now s.resetPending press ↔ Traceless b s press := by
  have hkey : s.countDigit press = none := by
    rw [countDigit, if_pos (by simpa [KeySequenceMatcher.hasPending] using hpending)]
  rw [keystroke_alone hexpired hkey hqueued, Traceless]
  cases hdigit : s.resetPending.countDigit press with
  | none =>
      rw [keystroke_alone (s := s.resetPending) rfl hdigit rfl, alone_inj]
      simp [resetPending]
  | some d =>
      rw [show s.resetPending = {} from rfl] at hdigit ⊢
      rw [keystroke_digit hdigit, alone_eq_count]
      simp

/-! ### Runs -/

theorem timed_feedKeys {b : Bindings} {now : Nat} {s : KeybindManager}
    (h : Timed now s.matcher) (keys : List KeyPress) :
    Timed now (feedKeys b now s keys).matcher := by
  induction s, keys using feedKeys.induct b now with
  | case1 s =>
      rw [feedKeys_nil]
      exact h
  | case2 s press keys ih =>
      rw [feedKeys]
      exact ih (timed_feedStep h now press)

/-- After a keystroke, what is pending is from its time, and nothing is
queued. -/
theorem timed_keystroke {b : Bindings} {time : Nat} {s : KeybindManager}
    (h : Timed time s.matcher) (now : Nat) (press : KeyPress) :
    Timed now (keystroke b now s press).2.matcher ∧ (keystroke b now s press).2.queued = [] := by
  rw [keystroke_eq, feedKey, feedKeys]
  exact ⟨timed_feedKeys (timed_feedStep (s := { s with resolvedCount := none }) h now press) _, rfl⟩

theorem strokes_concat (b : Bindings) (s : KeybindManager) (before : List (KeyPress × Nat))
    (press : KeyPress) (now : Nat) : (strokes b s (before ++ [(press, now)])).2 =
      (keystroke b now (strokes b s before).2 press).2 := by
  induction before generalizing s with
  | nil => rfl
  | cons stroke before ih =>
      obtain ⟨first, time⟩ := stroke
      rw [List.cons_append, strokes, strokes]
      exact ih _

theorem timed_strokes (b : Bindings) (before : List (KeyPress × Nat)) :
    ∃ time, Timed time (strokes b {} before).2.matcher := by
  induction before using List.reverseRecOn with
  | nil => exact ⟨0, .inl rfl⟩
  | append_singleton before stroke ih =>
      obtain ⟨press, now⟩ := stroke
      obtain ⟨time, htimed⟩ := ih
      rw [strokes_concat]
      exact ⟨now, (timed_keystroke htimed now press).1⟩

/-- After a pause that is longer than the timeout, the next keystroke goes
as on a manager that was reset exactly if it is traceless, and then so does
every run. -/
theorem expired_prefix_traceless (b : Bindings) (before : List (KeyPress × Nat))
    (last : KeyPress) (time : Nat)
    (hpending : (strokes b {} (before ++ [(last, time)])).2.matcher.pending ≠ [])
    (press : KeyPress) (now : Nat) (hpause : multiKeyTimeout < now - time) :
    let s := (strokes b {} (before ++ [(last, time)])).2
    (keystroke b now s press = keystroke b now s.resetPending press ↔ Traceless b s press) ∧
      (Traceless b s press → ∀ rest,
        strokes b s ((press, now) :: rest) = strokes b s.resetPending ((press, now) :: rest)) := by
  intro s
  obtain ⟨earlier, htimed⟩ := timed_strokes b before
  have hs : s = (keystroke b time (strokes b {} before).2 last).2 := strokes_concat b {} before last time
  obtain ⟨hlast, hqueued⟩ := timed_keystroke (b := b) htimed time last
  rw [← hs] at hlast hqueued
  have hexpired : s.matcher.expire now = {} := by
    rcases hlast with hempty | ⟨-, hsince⟩
    · rw [hempty]
      rfl
    · rw [KeySequenceMatcher.expire, hsince]
      exact if_pos hpause
  have hfirst := keystroke_reset_iff b press hexpired hpending hqueued
  refine ⟨hfirst, fun htraceless rest => ?_⟩
  rw [strokes, strokes, hfirst.2 htraceless]

/-- The first key of a sequence, a pause, and a key with a binding of its
own. -/
theorem expired_prefix_traceless_sample :
    keystroke sampleBindings 2000000000 { matcher := ⟨[plain 'g'], some 0⟩ } (plain 'j') =
      keystroke sampleBindings 2000000000 {} (plain 'j') := by
  have hstart : feedStep sampleBindings 0 {} (plain 'g') =
      ({ matcher := ⟨[plain 'g'], some 0⟩ }, []) := by
    decide
  have hrun : (strokes sampleBindings {} ([] ++ [(plain 'g', 0)])).2 =
      { matcher := ⟨[plain 'g'], some 0⟩ } := by
    rw [strokes_concat, strokes, keystroke_once hstart rfl]
  have hfirst := (expired_prefix_traceless sampleBindings [] (plain 'g') 0
    (by rw [hrun]; decide) (plain 'j') 2000000000 (by decide)).1
  rw [hrun] at hfirst
  exact hfirst.2 (.inl ⟨rfl, by decide⟩)

/-- The count before the prefix goes to the key after the pause. -/
theorem count_outlives_prefix : ¬ ∀ b before last time press now rest,
    (strokes b {} (before ++ [(last, time)])).2.matcher.pending ≠ [] →
      multiKeyTimeout < now - time →
        (strokes b (strokes b {} (before ++ [(last, time)])).2 ((press, now) :: rest)).1 =
          (strokes b (resetPending (strokes b {} (before ++ [(last, time)])).2)
            ((press, now) :: rest)).1 := by
  intro h
  have hcount : feedStep sampleBindings 0 {} (plain '3') = ({ pendingCount := some 3 }, []) := by
    decide
  have hstart : feedStep sampleBindings 1 { pendingCount := some 3 } (plain 'g') =
      ({ matcher := ⟨[plain 'g'], some 1⟩, pendingCount := some 3 }, []) := by
    decide
  have hrun : (strokes sampleBindings {} ([(plain '3', 0)] ++ [(plain 'g', 1)])).2 =
      { matcher := ⟨[plain 'g'], some 1⟩, pendingCount := some 3 } := by
    simp only [strokes_concat, strokes, keystroke_once hcount rfl, keystroke_once hstart rfl]
  have hsame := h sampleBindings [(plain '3', 0)] (plain 'g') 1 (plain 'j') 2000000000 []
    (by rw [hrun]; decide) (by decide)
  have hdown : feedStep sampleBindings 2000000000
      { matcher := ⟨[plain 'g'], some 1⟩, pendingCount := some 3 } (plain 'j') =
        ({ queued := [("move-down", some 3)] }, []) := by
    decide
  have hreset : feedStep sampleBindings 2000000000 {} (plain 'j') =
      ({ queued := [("move-down", none)] }, []) := by
    decide
  rw [hrun, strokes, strokes, keystroke_once hdown rfl, resetPending,
    keystroke_once hreset rfl] at hsame
  cases hsame

end KeybindManager

end Keybind

end Yaldabaoth
