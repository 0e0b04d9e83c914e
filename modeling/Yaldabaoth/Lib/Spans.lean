import Mathlib.Data.List.Basic
import Mathlib.Data.List.Sort
import Mathlib.Data.List.TakeWhile

/-!
# `Yaldabaoth.Lib.Spans`: sorted lists of half-open spans

A list of spans `[s, e)` stands for the set of the numbers in them. In a
`Sorted` list a binary search on the ends finds the only span that can
hold a number, or the first that can meet a stretch. `merge` folds spans
that touch or overlap into one; `covers_mergeFrom` says what is covered
then, also where the spans that are folded in begin before the one they
are folded into.
-/

set_option autoImplicit false

namespace Spans

/-! ### What a list of spans covers -/

/-- A span has the number in it. -/
def Within (span : Nat × Nat) (i : Nat) : Prop := span.1 ≤ i ∧ i < span.2

/-- A span of the list has the number in it. -/
def Covers (spans : List (Nat × Nat)) (i : Nat) : Prop := ∃ span ∈ spans, Within span i

instance (span : Nat × Nat) (i : Nat) : Decidable (Within span i) :=
  inferInstanceAs (Decidable (span.1 ≤ i ∧ i < span.2))

instance (spans : List (Nat × Nat)) (i : Nat) : Decidable (Covers spans i) :=
  inferInstanceAs (Decidable (∃ span ∈ spans, Within span i))

@[simp] theorem covers_nil (i : Nat) : ¬ Covers [] i := by
  rintro ⟨span, hspan, -⟩
  cases hspan

@[simp] theorem covers_cons (span : Nat × Nat) (spans : List (Nat × Nat)) (i : Nat) :
    Covers (span :: spans) i ↔ Within span i ∨ Covers spans i := by
  simp only [Covers, List.exists_mem_cons_iff]

@[simp] theorem covers_append (spans rest : List (Nat × Nat)) (i : Nat) :
    Covers (spans ++ rest) i ↔ Covers spans i ∨ Covers rest i := by
  simp only [Covers, List.mem_append, or_and_right, exists_or]

theorem covers_perm {spans rest : List (Nat × Nat)} (h : spans.Perm rest) (i : Nat) :
    Covers spans i ↔ Covers rest i := by
  simp only [Covers, h.mem_iff]

/-! ### Sorted lists -/

/-- No span is empty, and each ends before the next begins. -/
structure Sorted (spans : List (Nat × Nat)) : Prop where
  nonempty : ∀ span ∈ spans, span.1 < span.2
  apart : spans.Pairwise fun a b => a.2 ≤ b.1

instance (spans : List (Nat × Nat)) : Decidable (Sorted spans) :=
  decidable_of_iff ((∀ span ∈ spans, span.1 < span.2) ∧ spans.Pairwise fun a b => a.2 ≤ b.1)
    ⟨fun h => ⟨h.1, h.2⟩, fun h => ⟨h.nonempty, h.apart⟩⟩

theorem sorted_nil : Sorted [] := ⟨List.forall_mem_nil _, List.Pairwise.nil⟩

theorem sorted_cons {span : Nat × Nat} {spans : List (Nat × Nat)} :
    Sorted (span :: spans) ↔
      span.1 < span.2 ∧ (∀ next ∈ spans, span.2 ≤ next.1) ∧ Sorted spans := by
  constructor
  · intro h
    have hapart := List.pairwise_cons.1 h.apart
    exact ⟨h.nonempty span List.mem_cons_self, hapart.1,
      ⟨fun next hnext => h.nonempty next (List.mem_cons_of_mem _ hnext), hapart.2⟩⟩
  · rintro ⟨hspan, hnext, h⟩
    exact ⟨List.forall_mem_cons.2 ⟨hspan, h.nonempty⟩, List.pairwise_cons.2 ⟨hnext, h.apart⟩⟩

theorem Sorted.append_left {spans rest : List (Nat × Nat)} (h : Sorted (spans ++ rest)) :
    Sorted spans :=
  ⟨fun span hspan => h.nonempty span (List.mem_append_left _ hspan),
    (List.pairwise_append.1 h.apart).1⟩

theorem Sorted.append_right {spans rest : List (Nat × Nat)} (h : Sorted (spans ++ rest)) :
    Sorted rest :=
  ⟨fun span hspan => h.nonempty span (List.mem_append_right _ hspan),
    (List.pairwise_append.1 h.apart).2.1⟩

theorem Sorted.starts {spans : List (Nat × Nat)} (h : Sorted spans) :
    spans.Pairwise fun a b => a.1 ≤ b.1 :=
  h.apart.imp_of_mem fun ha _ hle => Nat.le_trans (Nat.le_of_lt (h.nonempty _ ha)) hle

theorem Sorted.apart_of_ne {spans : List (Nat × Nat)} (h : Sorted spans) {a b : Nat × Nat}
    (ha : a ∈ spans) (hb : b ∈ spans) (hne : a ≠ b) : a.2 ≤ b.1 ∨ b.2 ≤ a.1 := by
  induction spans with
  | nil => cases ha
  | cons span spans ih =>
      obtain ⟨-, hnext, hsorted⟩ := sorted_cons.1 h
      rcases List.mem_cons.1 ha with rfl | ha' <;> rcases List.mem_cons.1 hb with rfl | hb'
      · exact absurd rfl hne
      · exact .inl (hnext b hb')
      · exact .inr (hnext a ha')
      · exact ih hsorted ha' hb'

/-- What is covered behind the first span is behind its end. -/
theorem Sorted.le_of_covers {span : Nat × Nat} {spans : List (Nat × Nat)}
    (h : Sorted (span :: spans)) {i : Nat} (hi : Covers spans i) : span.2 ≤ i := by
  obtain ⟨next, hnext, hle, -⟩ := hi
  exact Nat.le_trans ((sorted_cons.1 h).2.1 next hnext) hle

/-- The spans that begin up to a number stand in front of the others. -/
theorem Sorted.filter_append {spans : List (Nat × Nat)} (h : Sorted spans) (n : Nat) :
    spans = spans.filter (fun span => decide (span.1 ≤ n)) ++
      spans.filter fun span => decide (n < span.1) := by
  induction spans with
  | nil => rfl
  | cons span spans ih =>
      obtain ⟨hspan, hnext, hsorted⟩ := sorted_cons.1 h
      by_cases hle : span.1 ≤ n
      · rw [List.filter_cons, List.filter_cons, if_pos (decide_eq_true hle),
          if_neg (by rw [decide_eq_true_eq]; omega), List.cons_append, ← ih hsorted]
      · -- Every later span begins behind this one.
        have hall : ∀ next ∈ span :: spans, n < next.1 := by
          refine List.forall_mem_cons.2 ⟨Nat.lt_of_not_le hle, fun next hmem => ?_⟩
          have := hnext next hmem
          omega
        have hnone : (span :: spans).filter (fun span => decide (span.1 ≤ n)) = [] := by
          refine List.filter_eq_nil_iff.2 fun next hmem => ?_
          have := hall next hmem
          rw [decide_eq_true_eq]
          omega
        rw [hnone, List.nil_append]
        exact (List.filter_eq_self.2 fun next hmem => decide_eq_true (hall next hmem)).symm

/-! ### Binary search -/

/-- The index of the first element that `p` does not hold of, where `p`
holds of a front part of the list only. -/
def partitionPoint {α : Type} (p : α → Bool) (xs : List α) : Nat := (xs.takeWhile p).length

theorem getElem?_partitionPoint {α : Type} (p : α → Bool) (xs : List α) :
    xs[partitionPoint p xs]? = (xs.dropWhile p).head? := by
  have hsplit : xs = xs.takeWhile p ++ xs.dropWhile p := List.takeWhile_append_dropWhile.symm
  have hget : (xs.takeWhile p ++ xs.dropWhile p)[partitionPoint p xs]? = (xs.dropWhile p)[0]? := by
    rw [partitionPoint, List.getElem?_append_right (Nat.le_refl _), Nat.sub_self]
  rw [← hsplit] at hget
  rw [hget, List.head?_eq_getElem?]

/-- The span that has the number in it. -/
def containing (spans : List (Nat × Nat)) (i : Nat) : Option (Nat × Nat) :=
  (spans[partitionPoint (fun span => decide (span.2 ≤ i)) spans]?).filter
    fun span => decide (span.1 ≤ i)

/-- A span meets the stretch from `lo` to `hi`, both included. -/
def overlap (spans : List (Nat × Nat)) (lo hi : Nat) : Bool :=
  (spans[partitionPoint (fun span => decide (span.2 ≤ lo)) spans]?).any
    fun span => decide (span.1 ≤ hi)

/-- The first span that ends behind `lo`. -/
theorem Sorted.head_dropWhile {spans : List (Nat × Nat)} (h : Sorted spans) (lo i : Nat)
    (hlo : lo ≤ i) :
    Covers spans i ↔ Covers (spans.dropWhile fun span => decide (span.2 ≤ lo)) i := by
  induction spans with
  | nil => exact Iff.rfl
  | cons span spans ih =>
      rw [List.dropWhile_cons]
      split
      · next hspan =>
        have hout : ¬ Within span i := by
          have := of_decide_eq_true hspan
          rintro ⟨-, hlt⟩
          omega
        rw [covers_cons, ih (sorted_cons.1 h).2.2]
        exact or_iff_right hout
      · exact Iff.rfl

theorem overlap_iff {spans : List (Nat × Nat)} (h : Sorted spans) {lo hi : Nat} (hle : lo ≤ hi) :
    overlap spans lo hi = true ↔ ∃ i, lo ≤ i ∧ i ≤ hi ∧ Covers spans i := by
  rw [overlap, getElem?_partitionPoint]
  have hsuffix := List.dropWhile_suffix (l := spans) fun span => decide (span.2 ≤ lo)
  obtain ⟨front, hfront⟩ := hsuffix
  have hsorted : Sorted (spans.dropWhile fun span => decide (span.2 ≤ lo)) :=
    Sorted.append_right (by rw [hfront]; exact h)
  have hcovers := fun i hi => h.head_dropWhile lo i hi
  have hhead := List.head?_dropWhile_not (fun span : Nat × Nat => decide (span.2 ≤ lo)) spans
  generalize (spans.dropWhile fun span => decide (span.2 ≤ lo)) = rest at hsorted hcovers hhead ⊢
  cases rest with
  | nil =>
      refine ⟨fun hnone => absurd hnone Bool.false_ne_true, ?_⟩
      rintro ⟨i, hlo, -, hi⟩
      exact absurd ((hcovers i hlo).1 hi) (covers_nil i)
  | cons span rest =>
      have hend : lo < span.2 := by
        have : decide (span.2 ≤ lo) = false := by simpa using hhead
        have := of_decide_eq_false this
        omega
      have hspan := (sorted_cons.1 hsorted).1
      show decide (span.1 ≤ hi) = true ↔ _
      rw [decide_eq_true_iff]
      constructor
      · intro hstart
        -- The later one of the two starts is in both.
        have hin : Within span (max lo span.1) := ⟨by omega, by omega⟩
        exact ⟨max lo span.1, by omega, by omega,
          (hcovers _ (by omega)).2 ((covers_cons _ _ _).2 (.inl hin))⟩
      · rintro ⟨i, hlo, hhi, hi⟩
        rcases (covers_cons _ _ _).1 ((hcovers i hlo).1 hi) with hin | hin
        · exact Nat.le_trans hin.1 hhi
        · have := hsorted.le_of_covers hin
          omega

theorem containing_isSome {spans : List (Nat × Nat)} (h : Sorted spans) (i : Nat) :
    (containing spans i).isSome = true ↔ Covers spans i := by
  have hoverlap : (containing spans i).isSome = overlap spans i i := by
    rw [containing, overlap]
    cases spans[partitionPoint (fun span => decide (span.2 ≤ i)) spans]? with
    | none => rfl
    | some span =>
        rw [Option.filter_some, Option.any_some]
        cases decide (span.1 ≤ i) <;> rfl
  rw [hoverlap, overlap_iff h (Nat.le_refl i)]
  constructor
  · rintro ⟨j, hlo, hhi, hj⟩
    rwa [Nat.le_antisymm hlo hhi]
  · intro hi
    exact ⟨i, Nat.le_refl i, Nat.le_refl i, hi⟩

/-! ### Folding spans into one -/

/-- The spans behind `cur`, each folded into the one before it where
`joins` says so of its start and of the end before it. -/
def mergeFrom (joins : Nat → Nat → Bool) (cur : Nat × Nat) : List (Nat × Nat) → List (Nat × Nat)
  | [] => [cur]
  | span :: rest =>
      if joins span.1 cur.2 then mergeFrom joins (cur.1, max cur.2 span.2) rest
      else cur :: mergeFrom joins span rest

def merge (joins : Nat → Nat → Bool) : List (Nat × Nat) → List (Nat × Nat)
  | [] => []
  | span :: rest => mergeFrom joins span rest

/-- Spans are folded together where they overlap, and may be where they
touch. -/
structure Folds (joins : Nat → Nat → Bool) : Prop where
  touch : ∀ s e, joins s e = true → s ≤ e
  apart : ∀ s e, joins s e = false → e ≤ s

theorem folds_le : Folds fun s e => decide (s ≤ e) where
  touch _ _ h := of_decide_eq_true h
  apart _ _ h := Nat.le_of_lt (Nat.lt_of_not_le (of_decide_eq_false h))

theorem folds_lt : Folds fun s e => decide (s < e) where
  touch _ _ h := Nat.le_of_lt (of_decide_eq_true h)
  apart _ _ h := Nat.le_of_not_lt (of_decide_eq_false h)

section merge

variable {joins : Nat → Nat → Bool}

theorem mergeFrom_sorted (hjoins : Folds joins) (cur : Nat × Nat) {spans : List (Nat × Nat)}
    (hcur : cur.1 < cur.2) (hspans : ∀ span ∈ spans, span.1 < span.2) :
    Sorted (mergeFrom joins cur spans) ∧ ∀ span ∈ mergeFrom joins cur spans, cur.1 ≤ span.1 := by
  induction spans generalizing cur with
  | nil =>
      refine ⟨sorted_cons.2 ⟨hcur, List.forall_mem_nil _, sorted_nil⟩, fun span hspan => ?_⟩
      rw [List.mem_singleton.1 hspan]
  | cons span spans ih =>
      obtain ⟨hspan, hrest⟩ := List.forall_mem_cons.1 hspans
      rw [mergeFrom]
      cases hj : joins span.1 cur.2 with
      | true =>
          rw [if_pos rfl]
          exact ih (cur.1, max cur.2 span.2) (by show cur.1 < max _ _; omega) hrest
      | false =>
          rw [if_neg Bool.false_ne_true]
          have hle := hjoins.apart _ _ hj
          obtain ⟨hsorted, hstart⟩ := ih span hspan hrest
          refine ⟨sorted_cons.2 ⟨hcur, fun next hnext => Nat.le_trans hle (hstart next hnext),
            hsorted⟩, List.forall_mem_cons.2 ⟨Nat.le_refl _, fun next hnext => ?_⟩⟩
          have := hstart next hnext
          omega

theorem merge_sorted (hjoins : Folds joins) {spans : List (Nat × Nat)}
    (hspans : ∀ span ∈ spans, span.1 < span.2) : Sorted (merge joins spans) := by
  cases spans with
  | nil => exact sorted_nil
  | cons span spans =>
      obtain ⟨hspan, hrest⟩ := List.forall_mem_cons.1 hspans
      exact (mergeFrom_sorted hjoins _ hspan hrest).1

/-- Of the spans that are folded in, what is below the end of the first
one is lost unless the first one covers it. -/
theorem covers_mergeFrom (hjoins : Folds joins) (cur : Nat × Nat) {spans : List (Nat × Nat)}
    (hcur : cur.1 ≤ cur.2) (hspans : ∀ span ∈ spans, span.1 ≤ span.2)
    (hstarts : spans.Pairwise fun a b => a.1 ≤ b.1) (i : Nat) :
    Covers (mergeFrom joins cur spans) i ↔ Within cur i ∨ cur.2 ≤ i ∧ Covers spans i := by
  induction spans generalizing cur with
  | nil => simp [mergeFrom]
  | cons span spans ih =>
      obtain ⟨hspan, hrest⟩ := List.forall_mem_cons.1 hspans
      obtain ⟨hfirst, hstarts⟩ := List.pairwise_cons.1 hstarts
      rw [mergeFrom, covers_cons]
      cases hj : joins span.1 cur.2 with
      | true =>
          have hle := hjoins.touch _ _ hj
          rw [if_pos rfl, ih (cur.1, max cur.2 span.2) (by show cur.1 ≤ max _ _; omega)
            hrest hstarts]
          by_cases hi : Covers spans i
          · simp only [Within, hi, and_true, or_true]
            omega
          · simp only [Within, hi, and_false, or_false]
            omega
      | false =>
          have hle := hjoins.apart _ _ hj
          rw [if_neg Bool.false_ne_true, covers_cons, ih span hspan hrest hstarts]
          by_cases hi : Covers spans i
          · -- A later span begins where this one does, or behind.
            have hstart : span.1 ≤ i := by
              obtain ⟨next, hnext, hin, -⟩ := hi
              exact Nat.le_trans (hfirst next hnext) hin
            simp only [Within, hi, and_true, or_true]
            omega
          · simp only [Within, hi, and_false, or_false]
            omega

/-- Spans in the order of their starts cover what they covered. -/
theorem covers_merge (hjoins : Folds joins) {spans : List (Nat × Nat)}
    (hspans : ∀ span ∈ spans, span.1 ≤ span.2)
    (hstarts : spans.Pairwise fun a b => a.1 ≤ b.1) (i : Nat) :
    Covers (merge joins spans) i ↔ Covers spans i := by
  cases spans with
  | nil => exact Iff.rfl
  | cons span spans =>
      obtain ⟨hspan, hrest⟩ := List.forall_mem_cons.1 hspans
      obtain ⟨hfirst, hstarts⟩ := List.pairwise_cons.1 hstarts
      rw [merge, covers_mergeFrom hjoins _ hspan hrest hstarts, covers_cons]
      by_cases hi : Covers spans i
      · have hstart : span.1 ≤ i := by
          obtain ⟨next, hnext, hin, -⟩ := hi
          exact Nat.le_trans (hfirst next hnext) hin
        simp only [Within, hi, and_true, or_true, iff_true]
        omega
      · simp only [hi, and_false, or_false]

/-- Where the last span ends. -/
def reach (spans : List (Nat × Nat)) : Nat := (spans.getLast?.map Prod.snd).getD 0

theorem Sorted.le_reach {spans : List (Nat × Nat)} (h : Sorted spans) {span : Nat × Nat}
    (hspan : span ∈ spans) : span.2 ≤ reach spans := by
  obtain ⟨init, last, rfl⟩ :=
    (List.eq_nil_or_concat' spans).resolve_left (List.ne_nil_of_mem hspan)
  rw [reach, List.getLast?_concat]
  show span.2 ≤ last.2
  rcases List.mem_append.1 hspan with hinit | hlast
  · have hle := (List.pairwise_append.1 h.apart).2.2 span hinit last List.mem_cons_self
    have hlast := h.nonempty last (List.mem_append_right _ List.mem_cons_self)
    exact Nat.le_trans hle (Nat.le_of_lt hlast)
  · rw [List.mem_singleton.1 hlast]

/-- Behind a sorted front only what is not below its reach comes through
the folding. -/
theorem covers_merge_append {front rest : List (Nat × Nat)} (hfront : Sorted front)
    (hrest : ∀ span ∈ rest, span.1 ≤ span.2) (hstarts : rest.Pairwise fun a b => a.1 ≤ b.1)
    (i : Nat) :
    Covers (merge (fun s e => decide (s < e)) (front ++ rest)) i ↔
      Covers front i ∨ reach front ≤ i ∧ Covers rest i := by
  cases front with
  | nil =>
      rw [List.nil_append, covers_merge folds_lt hrest hstarts]
      show _ ↔ Covers [] i ∨ 0 ≤ i ∧ _
      simp
  | cons cur front =>
      show Covers (mergeFrom _ cur (front ++ rest)) i ↔ _
      induction front generalizing cur with
      | nil =>
          have hcur := Nat.le_of_lt (sorted_cons.1 hfront).1
          rw [List.nil_append, covers_mergeFrom folds_lt cur hcur hrest hstarts, covers_cons]
          show _ ↔ (_ ∨ Covers [] i) ∨ cur.2 ≤ i ∧ _
          simp
      | cons next front ih =>
          obtain ⟨-, hnext, hsorted⟩ := sorted_cons.1 hfront
          have hapart : decide (next.1 < cur.2) = false :=
            decide_eq_false (Nat.not_lt_of_le (hnext next List.mem_cons_self))
          rw [List.cons_append, mergeFrom, if_neg (by rw [hapart]; exact Bool.false_ne_true),
            covers_cons, ih next hsorted, covers_cons cur]
          rw [or_assoc, reach, reach, List.getLast?_cons_cons]

/-- A span is put to a sorted list: the list is sorted by the starts
again, and spans that meet are folded together. -/
def add (span : Nat × Nat) (spans : List (Nat × Nat)) : List (Nat × Nat) :=
  merge (fun s e => decide (s ≤ e)) ((spans ++ [span]).insertionSort fun p q => p.1 ≤ q.1)

theorem Sorted.add {spans : List (Nat × Nat)} (h : Sorted spans) {span : Nat × Nat}
    (hspan : span.1 < span.2) :
    Sorted (add span spans) ∧ ∀ i, Covers (add span spans) i ↔ Covers spans i ∨ Within span i := by
  have hperm := List.perm_insertionSort (fun p q : Nat × Nat => p.1 ≤ q.1) (spans ++ [span])
  have hnonempty : ∀ next ∈ (spans ++ [span]).insertionSort (fun p q => p.1 ≤ q.1),
      next.1 < next.2 := by
    intro next hnext
    rcases List.mem_append.1 (hperm.mem_iff.1 hnext) with hnext | hnext
    · exact h.nonempty next hnext
    · rw [List.mem_singleton.1 hnext]
      exact hspan
  have hstarts : ((spans ++ [span]).insertionSort fun p q => p.1 ≤ q.1).Pairwise
      fun a b => a.1 ≤ b.1 := by
    have : Std.Total fun p q : Nat × Nat => p.1 ≤ q.1 := ⟨fun p q => Nat.le_total p.1 q.1⟩
    have : IsTrans (Nat × Nat) fun p q => p.1 ≤ q.1 := ⟨fun _ _ _ => Nat.le_trans⟩
    exact List.pairwise_insertionSort _ _
  refine ⟨merge_sorted folds_le hnonempty, fun i => ?_⟩
  have hle : ∀ next ∈ (spans ++ [span]).insertionSort (fun p q => p.1 ≤ q.1),
      next.1 ≤ next.2 := fun next hnext => Nat.le_of_lt (hnonempty next hnext)
  rw [Spans.add, covers_merge folds_le hle hstarts, covers_perm hperm, covers_append, covers_cons]
  exact or_congr_right (or_iff_left (covers_nil i))

end merge

end Spans
