import Mathlib.Data.List.Basic
import Mathlib.Data.List.Induction
import Mathlib.Data.List.Nodup
import Mathlib.Data.List.Perm.Subperm

/-!
# `Yaldabaoth.Lib.PairLog`: logs of boundaries in two records

A boundary is written as two records: a first that carries its number,
and a second, directly behind it, that carries the count of boundaries
up to it, one more than the number. `InOrder` says that both increase
strictly along the log, and that no second record stands without its
first. A crash may cut the log between the two, so the count of a log
(`after`) is read off the first records alone; `seconds_length_le`
bounds the other way of counting by it.
-/

set_option autoImplicit false

namespace PairLog

variable {ε : Type} (first second : ε → Option Nat)

/-- The count of boundaries a log has come to: one more than the number
of the last first record, zero without one. -/
def after (l : List ε) : Nat :=
  match (l.filterMap first).getLast? with
  | none => 0
  | some n => n + 1

structure InOrder (l : List ε) : Prop where
  firsts : (l.filterMap first).Pairwise (· < ·)
  seconds : (l.filterMap second).Pairwise (· < ·)
  paired : ∀ i e n, l[i]? = some e → second e = some n →
    ∃ j d m, i = j + 1 ∧ l[j]? = some d ∧ first d = some m ∧ n = m + 1

variable {first second} {l : List ε}

theorem after_append_quiet {ns : List ε} (h : ns.filterMap first = []) :
    after first (l ++ ns) = after first l := by
  rw [after, List.filterMap_append, h, List.append_nil]
  rfl

theorem after_append_first {ns : List ε} {n : Nat} (h : ns.filterMap first = [n]) :
    after first (l ++ ns) = n + 1 := by
  rw [after, List.filterMap_append, h, List.getLast?_concat]

theorem InOrder.nil : InOrder first second ([] : List ε) :=
  ⟨List.Pairwise.nil, List.Pairwise.nil, fun i e n h => by cases h⟩

/-- No number is as large as the count. -/
theorem InOrder.lt_after (h : InOrder first second l) : ∀ n ∈ l.filterMap first, n < after first l := by
  intro n hn
  obtain ⟨ns, last, hns⟩ : ∃ ns last, l.filterMap first = ns ++ [last] :=
    ⟨_, _, (List.dropLast_append_getLast (List.ne_nil_of_mem hn)).symm⟩
  have hafter : after first l = last + 1 := by
    rw [after, hns, List.getLast?_concat]
  have hfirsts := h.firsts
  rw [hns] at hn hfirsts
  rcases List.mem_append.1 hn with hn | hn
  · have hlt := (List.pairwise_append.1 hfirsts).2.2 n hn last (List.mem_singleton_self last)
    omega
  · rw [List.mem_singleton.1 hn, hafter]
    exact Nat.lt_succ_self last

/-- The count is one more than the largest number. -/
theorem InOrder.after_eq (h : InOrder first second l) {m : Nat} (hm : m ∈ l.filterMap first)
    (hmax : ∀ n ∈ l.filterMap first, n ≤ m) : after first l = m + 1 := by
  have hlt := h.lt_after m hm
  have hle : after first l ≤ m + 1 := by
    unfold after
    split
    · exact Nat.zero_le _
    · rename_i n hlast
      exact Nat.succ_le_succ (hmax n (List.mem_of_getLast? hlast))
  omega

/-- Every count that was written is a number that was, plus one. -/
theorem InOrder.le_after (h : InOrder first second l) :
    ∀ n ∈ l.filterMap second, n ≤ after first l := by
  intro n hn
  obtain ⟨e, he, hsecond⟩ := List.mem_filterMap.1 hn
  obtain ⟨i, hi⟩ := List.mem_iff_getElem?.1 he
  obtain ⟨j, d, m, -, hd, hfirst, rfl⟩ := h.paired i e n hi hsecond
  exact h.lt_after m (List.mem_filterMap.2 ⟨d, List.mem_of_getElem? hd, hfirst⟩)

/-- Records that are of no boundary. -/
theorem InOrder.quiet {ns : List ε} (h : InOrder first second l) (hfirst : ns.filterMap first = [])
    (hsecond : ns.filterMap second = []) : InOrder first second (l ++ ns) := by
  refine ⟨?_, ?_, fun i e n hi hn => ?_⟩
  · rw [List.filterMap_append, hfirst, List.append_nil]
    exact h.firsts
  · rw [List.filterMap_append, hsecond, List.append_nil]
    exact h.seconds
  · rcases Nat.lt_or_ge i l.length with hlt | hge
    · rw [List.getElem?_append_left hlt] at hi
      obtain ⟨j, d, m, rfl, hd, hm⟩ := h.paired i e n hi hn
      exact ⟨j, d, m, rfl, by rw [List.getElem?_append_left (by omega)]; exact hd, hm⟩
    · rw [List.getElem?_append_right hge] at hi
      have hmem : n ∈ ns.filterMap second := List.mem_filterMap.2 ⟨e, List.mem_of_getElem? hi, hn⟩
      rw [hsecond] at hmem
      cases hmem

/-- The two records of the next boundary, or of a later one. -/
theorem InOrder.boundary {d e : ε} {n : Nat} (h : InOrder first second l)
    (hd : first d = some n ∧ second d = none) (he : first e = none ∧ second e = some (n + 1))
    (hlater : after first l ≤ n) : InOrder first second (l ++ [d, e]) := by
  have hfirsts : [d, e].filterMap first = [n] := by simp [hd.1, he.1]
  have hseconds : [d, e].filterMap second = [n + 1] := by simp [hd.2, he.2]
  refine ⟨?_, ?_, fun i x m hi hm => ?_⟩
  · rw [List.filterMap_append, hfirsts]
    refine List.pairwise_append.2 ⟨h.firsts, List.pairwise_singleton _ _, fun a ha b hb => ?_⟩
    have hlt := h.lt_after a ha
    rw [List.mem_singleton.1 hb]
    omega
  · rw [List.filterMap_append, hseconds]
    refine List.pairwise_append.2 ⟨h.seconds, List.pairwise_singleton _ _, fun a ha b hb => ?_⟩
    have hle := h.le_after a ha
    rw [List.mem_singleton.1 hb]
    omega
  · rcases Nat.lt_or_ge i l.length with hlt | hge
    · rw [List.getElem?_append_left hlt] at hi
      obtain ⟨j, d', m', rfl, hd', hm'⟩ := h.paired i x m hi hm
      exact ⟨j, d', m', rfl, by rw [List.getElem?_append_left (by omega)]; exact hd', hm'⟩
    · rw [List.getElem?_append_right hge] at hi
      -- the new second record stands directly behind the new first one
      match hk : i - l.length with
      | 0 =>
          rw [hk] at hi
          cases hi
          rw [hd.2] at hm
          cases hm
      | 1 =>
          rw [hk] at hi
          cases hi
          rw [he.2] at hm
          cases hm
          refine ⟨l.length, d, n, by omega, ?_, hd.1, rfl⟩
          rw [List.getElem?_append_right (Nat.le_refl _), Nat.sub_self]
          rfl
      | k + 2 =>
          rw [hk] at hi
          cases hi

/-- An ordered log stays one wherever it is cut. -/
theorem InOrder.cut {l' : List ε} (h : InOrder first second l) (hp : l' <+: l) :
    InOrder first second l' := by
  refine ⟨h.firsts.sublist (hp.filterMap _).sublist, h.seconds.sublist (hp.filterMap _).sublist,
    fun i e n hi hn => ?_⟩
  obtain ⟨rest, rfl⟩ := hp
  have hlt : i < l'.length := (List.getElem?_eq_some_iff.1 hi).1
  have hwhole : (l' ++ rest)[i]? = some e := by rw [List.getElem?_append_left hlt]; exact hi
  obtain ⟨j, d, m, rfl, hd, hm⟩ := h.paired i e n hwhole hn
  rw [List.getElem?_append_left (by omega)] at hd
  exact ⟨j, d, m, rfl, hd, hm⟩

/-- Strictly increasing numbers are no more than the largest allows. -/
theorem InOrder.firsts_length_le (h : InOrder first second l) :
    (l.filterMap first).length ≤ after first l := by
  have hnodup : (l.filterMap first).Nodup := h.firsts.imp Nat.ne_of_lt
  have hsubset : l.filterMap first ⊆ List.range (after first l) :=
    fun n hn => List.mem_range.2 (h.lt_after n hn)
  have hle := (hnodup.subperm hsubset).length_le
  rwa [List.length_range] at hle

/-- There are no more second records than first ones; one fewer, when
the log ends between the two. -/
theorem InOrder.seconds_le_firsts (hexclusive : ∀ e, first e = none ∨ second e = none)
    (h : InOrder first second l) :
    (l.filterMap second).length ≤ (l.filterMap first).length ∧
      ∀ e n, l.getLast? = some e → first e = some n →
        (l.filterMap second).length + 1 ≤ (l.filterMap first).length := by
  induction l using List.reverseRecOn with
  | nil => exact ⟨Nat.le_refl _, fun e n hlast => by cases hlast⟩
  | append_singleton l e ih =>
      obtain ⟨hle, hopen⟩ := ih (h.cut (List.prefix_append l [e]))
      rw [List.filterMap_append, List.filterMap_append, List.length_append, List.length_append]
      cases hfirst : first e with
      | some n =>
          have hsecond : second e = none := (hexclusive e).resolve_left (by simp [hfirst])
          rw [List.filterMap_cons_some hfirst, List.filterMap_cons_none hsecond]
          simp only [List.filterMap_nil, List.length_nil, List.length_singleton]
          exact ⟨by omega, fun _ _ _ _ => by omega⟩
      | none =>
          have hnext (e' : ε) (n : Nat) (hlast : (l ++ [e]).getLast? = some e')
              (hfirst' : first e' = some n) : False := by
            rw [List.getLast?_concat] at hlast
            cases hlast
            rw [hfirst] at hfirst'
            cases hfirst'
          refine ⟨?_, fun e' n hlast hfirst' => (hnext e' n hlast hfirst').elim⟩
          rw [List.filterMap_cons_none hfirst]
          cases hsecond : second e with
          | none =>
              rw [List.filterMap_cons_none hsecond]
              simpa using hle
          | some n =>
              -- its first record is the last of the log before it
              have hlast : (l ++ [e])[l.length]? = some e := by simp
              obtain ⟨j, d, m, hj, hd, hfirst', -⟩ := h.paired l.length e n hlast hsecond
              have hgetLast : l.getLast? = some d := by
                rw [List.getLast?_eq_getElem?, hj, Nat.add_sub_cancel]
                rwa [List.getElem?_append_left (by omega)] at hd
              have hone := hopen d m hgetLast hfirst'
              rw [List.filterMap_cons_some hsecond]
              simpa using hone

/-- Counting the second records never exceeds the count. -/
theorem InOrder.seconds_length_le (hexclusive : ∀ e, first e = none ∨ second e = none)
    (h : InOrder first second l) : (l.filterMap second).length ≤ after first l :=
  Nat.le_trans (h.seconds_le_firsts hexclusive).1 h.firsts_length_le

end PairLog
