import Mathlib.Data.List.Basic

/-!
# `Yaldabaoth.Lib.EpochLog`: logs numbered within epochs

The entries of a log belong to epochs and carry a number within their
epoch. `Numbered` says that the epochs never go back along the log and
that the entries of each one are numbered from zero without gap or
repeat; `Headed` says that each epoch starts with a head entry and
holds no second one. Both are kept by appending an entry of the last
or of a later epoch with the right number, and by cutting the log
anywhere, which is what a crash does.
-/

set_option autoImplicit false

namespace EpochLog

variable {ε : Type} (epoch seq : ε → Nat) (head : ε → Bool)

/-- The entries of one epoch, in order. -/
def within (g : Nat) (l : List ε) : List ε := l.filter fun e => epoch e = g

structure Numbered (l : List ε) : Prop where
  sorted : l.Pairwise fun a b => epoch a ≤ epoch b
  numbers : ∀ g, (within epoch g l).map seq = List.range (within epoch g l).length

def Headed (l : List ε) : Prop :=
  ∀ g, within epoch g l = [] ∨
    ∃ e rest, within epoch g l = e :: rest ∧ head e = true ∧ ∀ x ∈ rest, head x = false

variable {epoch seq head} {l : List ε} {e : ε} {g : Nat}

theorem within_append_same (h : epoch e = g) :
    within epoch g (l ++ [e]) = within epoch g l ++ [e] := by
  simp [within, h]

theorem within_append_other (h : epoch e ≠ g) :
    within epoch g (l ++ [e]) = within epoch g l := by
  simp [within, h]

/-- An epoch that every entry is older than is empty. -/
theorem within_eq_nil (h : ∀ x ∈ l, epoch x < g) : within epoch g l = [] := by
  refine List.filter_eq_nil_iff.2 fun x hx => ?_
  have hlt := h x hx
  simp only [decide_eq_true_eq]
  omega

theorem within_cut {l' : List ε} (h : l' <+: l) : within epoch g l' <+: within epoch g l :=
  h.filter _

/-! ### Numbered logs -/

theorem Numbered.nil : Numbered epoch seq ([] : List ε) :=
  ⟨List.Pairwise.nil, fun _ => rfl⟩

/-- The next entry of the last epoch, or the first of a later one. -/
theorem Numbered.append (h : Numbered epoch seq l) (hle : ∀ x ∈ l, epoch x ≤ epoch e)
    (hseq : seq e = (within epoch (epoch e) l).length) : Numbered epoch seq (l ++ [e]) := by
  refine ⟨?_, fun g => ?_⟩
  · refine List.pairwise_append.2 ⟨h.sorted, List.pairwise_singleton _ _, ?_⟩
    intro a ha b hb
    rw [List.mem_singleton.1 hb]
    exact hle a ha
  · by_cases hg : epoch e = g
    · subst hg
      rw [within_append_same rfl, List.map_append, List.length_append, h.numbers]
      rw [List.map_singleton, List.length_singleton, List.range_succ, hseq]
    · rw [within_append_other hg]
      exact h.numbers g

/-- A numbered log stays one wherever it is cut. -/
theorem Numbered.cut {l' : List ε} (h : Numbered epoch seq l) (hp : l' <+: l) :
    Numbered epoch seq l' := by
  refine ⟨h.sorted.sublist hp.sublist, fun g => ?_⟩
  have hcut : within epoch g l' <+: within epoch g l := within_cut hp
  obtain ⟨rest, hrest⟩ := hcut
  have hnumbers := h.numbers g
  rw [← hrest, List.map_append, List.length_append] at hnumbers
  have htake := congrArg (List.take (within epoch g l').length) hnumbers
  rw [List.take_left' (List.length_map _), List.take_range] at htake
  rw [htake]
  congr 1
  omega

/-! ### Headed logs -/

theorem Headed.nil : Headed epoch head ([] : List ε) := fun _ => .inl rfl

/-- A head opens an epoch that is still empty; any other entry goes to
one that is not. -/
theorem Headed.append (h : Headed epoch head l)
    (hhead : head e = true ↔ within epoch (epoch e) l = []) :
    Headed epoch head (l ++ [e]) := by
  intro g
  by_cases hg : epoch e = g
  · subst hg
    rw [within_append_same rfl]
    right
    rcases h (epoch e) with hnil | ⟨first, rest, hcons, hfirst, hrest⟩
    · exact ⟨e, [], by rw [hnil]; rfl, hhead.2 hnil, by simp⟩
    · refine ⟨first, rest ++ [e], by rw [hcons]; rfl, hfirst, ?_⟩
      intro x hx
      rcases List.mem_append.1 hx with hx | hx
      · exact hrest x hx
      · rw [List.mem_singleton.1 hx]
        refine Bool.eq_false_iff.2 fun he => ?_
        rw [hhead.1 he] at hcons
        cases hcons
  · rw [within_append_other hg]
    exact h g

/-- A headed log stays one wherever it is cut. -/
theorem Headed.cut {l' : List ε} (h : Headed epoch head l) (hp : l' <+: l) :
    Headed epoch head l' := by
  intro g
  have hpre : within epoch g l' <+: within epoch g l := within_cut hp
  cases hl' : within epoch g l' with
  | nil => exact .inl rfl
  | cons x xs =>
      right
      rw [hl'] at hpre
      obtain ⟨rest, hrest⟩ := hpre
      rcases h g with hnil | ⟨first, tail, hcons, hfirst, htail⟩
      · rw [hnil] at hrest; cases hrest
      · rw [hcons] at hrest
        injection hrest with hx hxs
        subst hx
        exact ⟨x, xs, rfl, hfirst, fun y hy => htail y (hxs ▸ List.mem_append_left rest hy)⟩

/-- Whether a log is headed can be read off the epochs and the heads. -/
theorem Headed.marks (h : Headed epoch head l) :
    Headed Prod.fst Prod.snd (l.map fun e => (epoch e, head e)) := by
  intro g
  have hmap : within Prod.fst g (l.map fun e => (epoch e, head e)) =
      (within epoch g l).map fun e => (epoch e, head e) := List.filter_map
  rw [hmap]
  rcases h g with hnil | ⟨e, rest, hcons, he, hrest⟩
  · rw [hnil]
    exact .inl rfl
  · rw [hcons]
    refine .inr ⟨_, _, rfl, he, fun x hx => ?_⟩
    obtain ⟨y, hy, rfl⟩ := List.mem_map.1 hx
    exact hrest y hy

/-! ### Thinned logs

A copy of a log that may have lost entries, but of no epoch its first
one without the rest. -/

def Thins (epoch : ε → Nat) (l d : List ε) : Prop :=
  ∀ g, within epoch g d = [] ∨
    ∃ e rest kept, within epoch g l = e :: rest ∧ within epoch g d = e :: kept ∧
      kept.Sublist rest

theorem Thins.refl (l : List ε) : Thins epoch l l := by
  intro g
  cases hl : within epoch g l with
  | nil => exact .inl rfl
  | cons e rest => exact .inr ⟨e, rest, rest, rfl, rfl, List.Sublist.refl rest⟩

/-- The copy loses an entry. -/
theorem Thins.lose {d : List ε} (h : Thins epoch l d) (e : ε) : Thins epoch (l ++ [e]) d := by
  intro g
  rcases h g with hnil | ⟨x, rest, kept, hl, hd, hsub⟩
  · exact .inl hnil
  · right
    by_cases hg : epoch e = g
    · refine ⟨x, rest ++ [e], kept, ?_, hd, hsub.trans (List.sublist_append_left rest [e])⟩
      rw [within_append_same hg, hl]
      rfl
    · exact ⟨x, rest, kept, (within_append_other hg).trans hl, hd, hsub⟩

/-- The copy keeps an entry of an epoch it has lost no first entry of. -/
theorem Thins.keep {d : List ε} (h : Thins epoch l d)
    (hheld : within epoch (epoch e) l = [] ∨ within epoch (epoch e) d ≠ []) :
    Thins epoch (l ++ [e]) (d ++ [e]) := by
  intro g
  by_cases hg : epoch e = g
  · subst hg
    right
    rw [within_append_same rfl, within_append_same rfl]
    rcases h (epoch e) with hnil | ⟨x, rest, kept, hl, hd, hsub⟩
    · have hempty : within epoch (epoch e) l = [] := hheld.resolve_right (not_not.2 hnil)
      rw [hempty, hnil]
      exact ⟨e, [], [], rfl, rfl, List.Sublist.refl _⟩
    · rw [hl, hd]
      exact ⟨x, rest ++ [e], kept ++ [e], rfl, rfl, hsub.append (List.Sublist.refl _)⟩
  · rw [within_append_other hg, within_append_other hg]
    exact h g

/-- A thinned copy of a headed log is headed. -/
theorem Headed.thin {d : List ε} (h : Headed epoch head l) (hthins : Thins epoch l d) :
    Headed epoch head d := by
  intro g
  rcases hthins g with hnil | ⟨e, rest, kept, hl, hd, hsub⟩
  · exact .inl hnil
  · rcases h g with hnil | ⟨first, tail, hcons, hfirst, htail⟩
    · rw [hnil] at hl
      cases hl
    · rw [hl] at hcons
      injection hcons with he hrest
      subst he hrest
      exact .inr ⟨e, kept, hd, hfirst, fun x hx => htail x (hsub.subset hx)⟩

end EpochLog
