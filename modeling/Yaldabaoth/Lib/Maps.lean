import Mathlib.Data.List.AList

/-!
# `Yaldabaoth.Lib.Maps`: finite maps, and pairs of maps that are inverse

A `Map` is an association list without repeated keys. `Inverse` says of
two maps that each undoes the other; `Owns` says of an index that every
owner in it is known by exactly one key.
-/

set_option autoImplicit false

universe u v

/-- A finite map. -/
abbrev Map (κ : Type u) (β : Type v) : Type (max u v) := AList fun _ : κ => β

namespace Map

variable {κ : Type u} {β : Type v} [DecidableEq κ]

theorem get_insert (m : Map κ β) (k a : κ) (v : β) :
    (m.insert k v).lookup a = if a = k then some v else m.lookup a := by
  split
  · next h =>
    subst h
    exact AList.lookup_insert m
  · next h => exact AList.lookup_insert_ne h

theorem get_erase (m : Map κ β) (k a : κ) :
    (m.erase k).lookup a = if a = k then none else m.lookup a := by
  split
  · next h =>
    subst h
    exact AList.lookup_erase a m
  · next h => exact AList.lookup_erase_ne h

theorem mem_keys_of_get {m : Map κ β} {k : κ} {v : β} (h : m.lookup k = some v) : k ∈ m.keys :=
  AList.mem_keys.1 (AList.lookup_isSome.1 (by rw [h]; rfl))

/-! ### Two maps that undo each other -/

section inverse

variable {ι : Type v} [DecidableEq ι]

/-- Each map undoes the other. -/
def Inverse (f : Map κ ι) (g : Map ι κ) : Prop :=
  ∀ k i, f.lookup k = some i ↔ g.lookup i = some k

theorem inverse_empty : Inverse (∅ : Map κ ι) (∅ : Map ι κ) := by
  intro k i
  rw [AList.lookup_empty, AList.lookup_empty]
  exact ⟨fun h => (by cases h), fun h => (by cases h)⟩

/-- A pair of values that neither map knows goes into both. -/
theorem Inverse.insert {f : Map κ ι} {g : Map ι κ} (h : Inverse f g) {k : κ} {i : ι}
    (hk : f.lookup k = none) (hi : g.lookup i = none) : Inverse (f.insert k i) (g.insert i k) := by
  intro k' i'
  rw [get_insert, get_insert]
  by_cases hkk : k' = k <;> by_cases hii : i' = i
  · subst hkk hii
    simp
  · subst hkk
    rw [if_pos rfl, if_neg hii, ← h, hk]
    exact ⟨fun heq => absurd (Option.some.inj heq).symm hii, fun heq => (by cases heq)⟩
  · subst hii
    rw [if_neg hkk, if_pos rfl, h, hi]
    exact ⟨fun heq => (by cases heq), fun heq => absurd (Option.some.inj heq).symm hkk⟩
  · rw [if_neg hkk, if_neg hii]
    exact h k' i'

/-- A pair that is in both goes from both. -/
theorem Inverse.erase {f : Map κ ι} {g : Map ι κ} (h : Inverse f g) {k : κ} {i : ι}
    (hk : f.lookup k = some i) : Inverse (f.erase k) (g.erase i) := by
  intro k' i'
  rw [get_erase, get_erase]
  have hi := (h k i).1 hk
  by_cases hkk : k' = k <;> by_cases hii : i' = i
  · rw [if_pos hkk, if_pos hii]
    exact ⟨fun heq => (by cases heq), fun heq => (by cases heq)⟩
  · subst hkk
    rw [if_pos rfl, if_neg hii, ← h, hk]
    exact ⟨fun heq => (by cases heq), fun heq => absurd (Option.some.inj heq).symm hii⟩
  · subst hii
    rw [if_neg hkk, if_pos rfl, h, hi]
    exact ⟨fun heq => absurd (Option.some.inj heq).symm hkk, fun heq => (by cases heq)⟩
  · rw [if_neg hkk, if_neg hii]
    exact h k' i'

/-- A value moves to a key that is free. -/
theorem Inverse.move {f : Map κ ι} {g : Map ι κ} (h : Inverse f g) {k k' : κ} {i : ι}
    (hk : f.lookup k = some i) (hk' : f.lookup k' = none) :
    Inverse ((f.erase k).insert k' i) (g.insert i k') := by
  intro x j
  rw [get_insert, get_insert, get_erase]
  by_cases hx : x = k' <;> by_cases hj : j = i
  · rw [if_pos hx, if_pos hj, hx, hj]
    exact ⟨fun _ => rfl, fun _ => rfl⟩
  · rw [if_pos hx, if_neg hj, ← h, hx, hk']
    exact ⟨fun heq => absurd (Option.some.inj heq).symm hj, fun heq => (by cases heq)⟩
  · rw [if_neg hx, if_pos hj, hj]
    refine ⟨fun heq => ?_, fun heq => absurd (Option.some.inj heq).symm hx⟩
    split at heq
    · cases heq
    · next hne =>
      have hboth : some x = some k := ((h x i).1 heq).symm.trans ((h k i).1 hk)
      exact absurd (Option.some.inj hboth) hne
  · rw [if_neg hx, if_neg hj]
    split
    · next heq =>
      subst heq
      rw [← h, hk]
      exact ⟨fun heq => (by cases heq), fun heq => absurd (Option.some.inj heq).symm hj⟩
    · exact h x j

end inverse

/-! ### Keys of owners -/

section owners

variable {ι : Type v}

/-- The owner has exactly one key. -/
def Owns (m : Map κ ι) (i : ι) : Prop := ∃! k, m.lookup k = some i

theorem Owns.insert_other {m : Map κ ι} {i j : ι} {k : κ} (h : Owns m i) (hne : j ≠ i)
    (hk : m.lookup k = none) : Owns (m.insert k j) i := by
  obtain ⟨key, hkey, hunique⟩ := h
  have hkk : key ≠ k := by
    rintro rfl
    rw [hk] at hkey
    cases hkey
  refine ⟨key, by simpa only [get_insert, if_neg hkk] using hkey, fun k' hk' => ?_⟩
  dsimp only at hk'
  rw [get_insert] at hk'
  split at hk'
  · exact absurd (Option.some.inj hk') hne
  · exact hunique k' hk'

theorem Owns.erase_other {m : Map κ ι} {i : ι} {k : κ} (h : Owns m i)
    (hk : m.lookup k ≠ some i) : Owns (m.erase k) i := by
  obtain ⟨key, hkey, hunique⟩ := h
  have hkk : key ≠ k := by
    rintro rfl
    exact hk hkey
  refine ⟨key, by simpa only [get_erase, if_neg hkk] using hkey, fun k' hk' => ?_⟩
  dsimp only at hk'
  rw [get_erase] at hk'
  split at hk'
  · cases hk'
  · exact hunique k' hk'

/-- An owner without a key gets one. -/
theorem owns_insert {m : Map κ ι} {i : ι} (k : κ) (h : ∀ k', m.lookup k' ≠ some i) :
    Owns (m.insert k i) i := by
  refine ⟨k, AList.lookup_insert m, fun k' hk' => ?_⟩
  dsimp only at hk'
  rw [get_insert] at hk'
  split at hk'
  · next heq => exact heq
  · exact absurd hk' (h k')

/-- Without its key an owner has none. -/
theorem Owns.erase_own {m : Map κ ι} {i : ι} {k : κ} (h : Owns m i) (hk : m.lookup k = some i)
    (k' : κ) : (m.erase k).lookup k' ≠ some i := by
  rw [get_erase]
  split
  · intro heq
    cases heq
  · next hne => exact fun heq => hne (h.unique heq hk)

end owners

end Map
