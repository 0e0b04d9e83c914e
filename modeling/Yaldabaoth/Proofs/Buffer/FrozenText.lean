import Yaldabaoth.Proofs.Buffer.Rows
import Yaldabaoth.Proofs.Buffer.Shifts

/-!
# `Yaldabaoth.Proofs.Buffer.FrozenText`: frozen lines under splices of the program

`SameRow` says which row of a text is which row of the text after a
splice: all characters of the row are in front of the splice, or all are
behind it, and they make up a row there.

`TextSplice.Aligned` is when the frozen ranges of a core go with the
rows. The ranges that end in front of the splice, and those that begin
behind it, always do. A range that an insertion into the middle of a row
lies in keeps its end, and a deletion moves or keeps every range as a
whole, by where it begins.
-/

set_option autoImplicit false

namespace Yaldabaoth

open Rope Spans

variable {α μ : Type} [Glyph α]

/-! ### Rows across a splice -/

/-- Row `i` of a text is row `j` of the text after `n` characters came
in the place of those from `s` to `e`. -/
def SameRow (text text' : List α) (s e n i j : Nat) : Prop :=
  i < lenLines text ∧ j < lenLines text' ∧
    (lineToChar text (i + 1) ≤ s ∧
        lineToChar text' j = lineToChar text i ∧
        lineToChar text' (j + 1) = lineToChar text (i + 1) ∨
      e ≤ lineToChar text i ∧
        lineToChar text' j + e = lineToChar text i + s + n ∧
        lineToChar text' (j + 1) + e = lineToChar text (i + 1) + s + n)

/-- A text before and after a splice, around what goes and what comes. -/
structure Cut (text text' front mid added back : List α) (s e n : Nat) : Prop where
  text_eq : text = front ++ mid ++ back
  text'_eq : text' = front ++ added ++ back
  start : s = front.length
  stop : e = front.length + mid.length
  count : n = added.length

omit [Glyph α] in
theorem take_append_slice (text : List α) {s e : Nat} (hle : s ≤ e) :
    text.take s ++ slice text s e = text.take e := by
  have hsplit := List.take_append_drop s (text.take e)
  rwa [List.take_take, Nat.min_eq_left hle] at hsplit

omit [Glyph α] in
theorem cut_splice (text added : List α) {s e : Nat} (hle : s ≤ e) (he : e ≤ text.length) :
    Cut text (text.take s ++ added ++ text.drop e) (text.take s) (slice text s e) added
      (text.drop e) s e added.length := by
  have hslice : (slice text s e).length = e - s := by
    rw [slice, List.length_drop, List.length_take, Nat.min_eq_left he]
  have hfront : (text.take s).length = s := by
    rw [List.length_take, Nat.min_eq_left (Nat.le_trans hle he)]
  refine ⟨?_, rfl, hfront.symm, ?_, rfl⟩
  · rw [take_append_slice text hle, List.take_append_drop]
  · rw [hfront, hslice]
    omega

section rows

variable {text text' front mid added back : List α} {s e n : Nat}

theorem Cut.countNl_eq (h : Cut text text' front mid added back s e n) :
    countNl text = countNl front + countNl mid + countNl back := by
  rw [h.text_eq, countNl_append, countNl_append]

/-- The rows above the one that the splice begins on. -/
theorem Cut.row_above (h : Cut text text' front mid added back s e n) {i : Nat}
    (hi : i < countNl front) : SameRow text text' s e n i i := by
  have hcount := h.countNl_eq
  have hsame : ∀ k, k ≤ countNl front →
      lineToChar (front ++ added ++ back) k = lineToChar text k := by
    intro k hk
    rw [h.text_eq, List.append_assoc, List.append_assoc, lineToChar_append_front front _ hk,
      lineToChar_append_front front _ hk]
  refine ⟨by rw [lenLines]; omega, ?_, .inl ⟨?_, ?_, ?_⟩⟩
  · rw [h.text'_eq, lenLines, countNl_append, countNl_append]
    omega
  · rw [h.start, h.text_eq, List.append_assoc, lineToChar_append_front front _ hi]
    exact lineToChar_le_length front _
  · rw [h.text'_eq, hsame i (Nat.le_of_lt hi)]
  · rw [h.text'_eq, hsame (i + 1) hi]

/-- The rows below the one that the splice ends on. -/
theorem Cut.row_below (h : Cut text text' front mid added back s e n) {k : Nat}
    (hk : k < countNl back) :
    SameRow text text' s e n (countNl front + countNl mid + (k + 1))
      (countNl front + countNl added + (k + 1)) := by
  have hcount := h.countNl_eq
  have hn := h.count
  have hold : ∀ k, lineToChar text (countNl front + countNl mid + (k + 1))
      = e + lineToChar back (k + 1) := by
    intro k
    rw [h.text_eq, ← countNl_append, lineToChar_append_back, List.length_append, h.stop]
  have hnew : ∀ k, lineToChar (front ++ added ++ back) (countNl front + countNl added + (k + 1))
      = s + added.length + lineToChar back (k + 1) := by
    intro k
    rw [← countNl_append, lineToChar_append_back, List.length_append, h.start]
  refine ⟨by rw [lenLines]; omega, ?_, .inr ⟨?_, ?_, ?_⟩⟩
  · rw [h.text'_eq, lenLines, countNl_append, countNl_append]
    omega
  · rw [hold]
    omega
  · rw [h.text'_eq, hnew, hold]
    omega
  · rw [h.text'_eq, Nat.add_assoc _ (k + 1) 1, Nat.add_assoc _ (k + 1) 1, hnew, hold]
    omega

/-- The row that the splice ends on, where it ends at its start and
leaves it at the start of a row. -/
theorem Cut.row_pushed (h : Cut text text' front mid added back s e n)
    (hold : EndsRow (front ++ mid)) (hnew : EndsRow (front ++ added)) :
    SameRow text text' s e n (countNl front + countNl mid) (countNl front + countNl added) := by
  have hcount := h.countNl_eq
  have hn := h.count
  have hstart : ∀ part, EndsRow (front ++ part) →
      lineToChar (front ++ part ++ back) (countNl front + countNl part)
        = front.length + part.length := by
    intro part hpart
    rw [← countNl_append, lineToChar_append_front _ _ (Nat.le_refl _), (endsRow_iff _).1 hpart,
      List.length_append]
  have hnext : ∀ part, lineToChar (front ++ part ++ back) (countNl front + countNl part + 1)
      = front.length + part.length + lineToChar back 1 := by
    intro part
    rw [← countNl_append, lineToChar_append_back, List.length_append]
  refine ⟨by rw [lenLines]; omega, ?_, .inr ⟨?_, ?_, ?_⟩⟩
  · rw [h.text'_eq, lenLines, countNl_append, countNl_append]
    omega
  · rw [h.text_eq, hstart mid hold, h.stop]
  · rw [h.text'_eq, h.text_eq, hstart mid hold, hstart added hnew, h.start, h.stop]
    omega
  · rw [h.text'_eq, h.text_eq, hnext, hnext, h.start, h.stop]
    omega

/-- There are no other rows that a splice carries along, but for the
last one where nothing is put behind it. -/
theorem Cut.sameRow_cases (h : Cut text text' front mid added back s e n) {i j : Nat}
    (hrow : SameRow text text' s e n i j) :
    (i < countNl front ∧ j = i) ∨
      (∃ k, k < countNl back ∧ i = countNl front + countNl mid + (k + 1) ∧
        j = countNl front + countNl added + (k + 1)) ∨
      (EndsRow (front ++ mid) ∧ EndsRow (front ++ added) ∧
        i = countNl front + countNl mid ∧ j = countNl front + countNl added) ∨
      (mid = [] ∧ added = [] ∧ i = countNl front ∧ j = i) := by
  obtain ⟨hi, hj, hrow⟩ := hrow
  rw [h.text'_eq] at hj hrow
  rw [h.text_eq] at hi hrow
  have hi := Nat.le_of_lt_succ hi
  have hj := Nat.le_of_lt_succ hj
  rcases hrow with ⟨hle, hstart, hend⟩ | ⟨hle, hstart, hend⟩
  · rcases Nat.lt_or_ge i (countNl front) with habove | hbelow
    · -- The row begins in the front, and is known by that.
      left
      refine ⟨habove, lineToChar_inj _ hj (by rw [countNl_append, countNl_append]; omega) ?_⟩
      rw [hstart, List.append_assoc, List.append_assoc,
        lineToChar_append_front front _ (Nat.le_of_lt habove),
        lineToChar_append_front front _ (Nat.le_of_lt habove)]
    · -- The row ends in the front, so that there is nothing behind it.
      obtain ⟨d, rfl⟩ := Nat.exists_eq_add_of_le hbelow
      rw [h.start, Nat.add_assoc, List.append_assoc, lineToChar_append_back] at hle
      have hnil : mid ++ back = [] := by
        refine List.eq_nil_iff_length_eq_zero.2 (Nat.eq_zero_of_not_pos fun hpos => ?_)
        have := lineToChar_succ_pos (List.ne_nil_of_length_pos hpos) d
        omega
      obtain ⟨rfl, rfl⟩ := List.append_eq_nil_iff.1 hnil
      simp only [List.append_nil] at hi hj hstart hend
      have hd : d = 0 := by omega
      subst hd
      rw [Nat.add_zero] at hstart hend ⊢
      have hj' : j = countNl front := by
        refine lineToChar_inj _ hj (by rw [countNl_append]; omega) ?_
        rw [hstart, lineToChar_append_front front _ (Nat.le_refl _)]
      subst hj'
      rw [lineToChar_append_back, lineToChar_end] at hend
      refine .inr (.inr (.inr ⟨rfl, ?_, rfl, rfl⟩))
      refine List.eq_nil_iff_length_eq_zero.2 (Nat.eq_zero_of_not_pos fun hpos => ?_)
      have := lineToChar_succ_pos (List.ne_nil_of_length_pos hpos) 0
      omega
  · rw [h.stop] at hle hstart
    rw [h.start, h.count] at hstart
    rcases Nat.lt_or_ge (countNl front + countNl mid) i with hbelow | habove
    · -- The row begins in the back, and is known by that.
      obtain ⟨k, rfl⟩ := Nat.exists_eq_add_of_lt hbelow
      right; left
      rw [Nat.add_assoc _ k 1, ← countNl_append, lineToChar_append_back, List.length_append] at hstart
      refine ⟨k, ?_, rfl, lineToChar_inj _ hj ?_ ?_⟩
      · rw [countNl_append, countNl_append] at hi
        omega
      · rw [countNl_append, countNl_append] at hi ⊢
        omega
      · rw [← countNl_append, lineToChar_append_back, List.length_append]
        omega
    · -- The row begins where the splice ends.
      have hlast := lineToChar_le_length (front ++ mid) (countNl (front ++ mid))
      have habove' : i ≤ countNl (front ++ mid) := by
        rw [countNl_append]
        exact habove
      have hmono := lineToChar_mono (front ++ mid) habove' (Nat.le_refl _)
      rw [lineToChar_append_front (front ++ mid) back habove'] at hle hstart
      rw [List.length_append] at hlast
      have hi' : i = countNl (front ++ mid) :=
        lineToChar_inj _ habove' (Nat.le_refl _) (by omega)
      have hold : EndsRow (front ++ mid) := by
        rw [endsRow_iff, List.length_append]
        omega
      have hnew : lineToChar (front ++ added ++ back) j = (front ++ added).length := by
        rw [List.length_append]
        omega
      have hj' : j ≤ countNl (front ++ added) := by
        refine Nat.le_of_not_lt fun hlt => ?_
        obtain ⟨k, rfl⟩ := Nat.exists_eq_add_of_lt hlt
        rw [Nat.add_assoc _ k 1, lineToChar_append_back] at hnew
        have hback : back ≠ [] := by
          rintro rfl
          rw [List.append_nil] at hj
          omega
        have := lineToChar_succ_pos hback k
        omega
      rw [lineToChar_append_front _ _ hj'] at hnew
      have hlast' := lineToChar_le_length (front ++ added) (countNl (front ++ added))
      have hmono' := lineToChar_mono (front ++ added) hj' (Nat.le_refl _)
      have hstart' : EndsRow (front ++ added) := by
        rw [endsRow_iff]
        omega
      have hj'' : j = countNl (front ++ added) :=
        lineToChar_inj _ hj' (Nat.le_refl _) (by rw [hnew, (endsRow_iff _).1 hstart'])
      rw [countNl_append] at hi' hj''
      exact .inr (.inr (.inl ⟨hold, hstart', hi', hj''⟩))

end rows

/-! ### What an insertion does to the rows -/

section insertion

variable {text text' front added back : List α} {s n : Nat} {Frozen Frozen' : Nat → Prop}

/-- At the end of a row the rows below move. A row that whole rows come
in front of should move too. -/
theorem Cut.insert_behind (h : Cut text text' front [] added back s s n)
    (hnl : 0 < countNl added)
    (hfrozen : ∀ line, Frozen' line ↔ line < countNl front + 1 ∧ Frozen line ∨
      countNl front + 1 + countNl added ≤ line ∧ Frozen (line - countNl added)) :
    (∀ i j, SameRow text text' s s n i j → (Frozen' j ↔ Frozen i)) ↔
      (EndsRow front → EndsRow (front ++ added) → ¬ Frozen (countNl front)) := by
  constructor
  · intro hrows hfront hadded hline
    have hpushed := hrows _ _ (h.row_pushed (by rwa [List.append_nil]) hadded)
    rw [hfrozen] at hpushed
    have := hpushed.2 hline
    omega
  · intro hclear i j hrow
    rw [hfrozen]
    have hzero : countNl ([] : List α) = 0 := rfl
    rcases h.sameRow_cases hrow with ⟨hi, rfl⟩ | ⟨k, -, rfl, rfl⟩ | ⟨hold, hnew, rfl, rfl⟩ |
      ⟨-, rfl, -, -⟩
    · constructor
      · rintro (⟨-, hline⟩ | ⟨hle, -⟩)
        · exact hline
        · omega
      · intro hline
        exact .inl ⟨by omega, hline⟩
    · have hback : countNl front + countNl added + (k + 1) - countNl added
          = countNl front + countNl ([] : List α) + (k + 1) := by omega
      rw [hback]
      constructor
      · rintro (⟨hlt, -⟩ | ⟨-, hline⟩)
        · omega
        · exact hline
      · intro hline
        exact .inr ⟨by omega, hline⟩
    · rw [List.append_nil] at hold
      have hnot := hclear hold hnew
      rw [hzero, Nat.add_zero]
      constructor
      · rintro (⟨hlt, -⟩ | ⟨hle, -⟩) <;> omega
      · intro hline
        exact absurd hline hnot
    · exact absurd hnl (Nat.lt_irrefl 0)

/-- At the start of a row it moves with the rows below. -/
theorem Cut.insert_before (h : Cut text text' front [] added back s s n)
    (hnl : 0 < countNl added)
    (hfrozen : ∀ line, Frozen' line ↔ line < countNl front ∧ Frozen line ∨
      countNl front + countNl added ≤ line ∧ Frozen (line - countNl added)) :
    ∀ i j, SameRow text text' s s n i j → (Frozen' j ↔ Frozen i) := by
  intro i j hrow
  rw [hfrozen]
  have hzero : countNl ([] : List α) = 0 := rfl
  rcases h.sameRow_cases hrow with ⟨hi, rfl⟩ | ⟨k, -, rfl, rfl⟩ | ⟨-, -, rfl, rfl⟩ | ⟨-, rfl, -, -⟩
  · constructor
    · rintro (⟨-, hline⟩ | ⟨hle, -⟩)
      · exact hline
      · omega
    · intro hline
      exact .inl ⟨hi, hline⟩
  · have hback : countNl front + countNl added + (k + 1) - countNl added
        = countNl front + countNl ([] : List α) + (k + 1) := by omega
    rw [hback]
    constructor
    · rintro (⟨hlt, -⟩ | ⟨-, hline⟩)
      · omega
      · exact hline
    · intro hline
      exact .inr ⟨by omega, hline⟩
  · rw [Nat.add_sub_cancel, hzero, Nat.add_zero]
    constructor
    · rintro (⟨hlt, -⟩ | ⟨-, hline⟩)
      · omega
      · exact hline
    · intro hline
      exact .inr ⟨Nat.le_refl _, hline⟩
  · exact absurd hnl (Nat.lt_irrefl 0)

/-- In the middle of a row inside a range, the range keeps its end: the
rows below have to find room in it. -/
theorem Cut.insert_inside (h : Cut text text' front [] added back s s n)
    (hnl : 0 < countNl added) (hmid : ¬ EndsRow front) {ranges : List (Nat × Nat)}
    (hsorted : Sorted ranges) {range : Nat × Nat} (hrange : range ∈ ranges)
    (hlo : range.1 < countNl front) (hhi : countNl front < range.2)
    (hfrozen : ∀ line, Frozen' line ↔ Within range line ∨ ∃ other ∈ ranges, other ≠ range ∧
      (line < countNl front ∧ Within other line ∨
        countNl front + countNl added ≤ line ∧ Within other (line - countNl added))) :
    (∀ i j, SameRow text text' s s n i j → (Frozen' j ↔ Covers ranges i)) ↔
      ∀ row, countNl front < row → row < lenLines text → row < range.2 →
        row + countNl added < range.2 := by
  have hcount := h.countNl_eq
  have hzero : countNl ([] : List α) = 0 := rfl
  constructor
  · intro hrows row hrow hlen hin
    obtain ⟨k, rfl⟩ := Nat.exists_eq_add_of_lt hrow
    have hsame := hrows _ _ (h.row_below (k := k) (by rw [lenLines] at hlen; omega))
    rw [hzero, Nat.add_zero, hfrozen] at hsame
    have hwas : Covers ranges (countNl front + (k + 1)) := ⟨range, hrange, by omega, by omega⟩
    rcases hsame.2 hwas with hin' | ⟨other, hother, hne, hin'⟩
    · have := hin'.2
      omega
    · -- Another range has the row only where it has it already.
      rcases hin' with ⟨hlt, -⟩ | ⟨-, hin'⟩
      · omega
      · have := hin'.1
        have := hin'.2
        rcases hsorted.apart_of_ne hother hrange hne with hle | hle <;> omega
  · intro hroom i j hrow
    rw [hfrozen]
    have hsplit : Covers ranges i ↔ Within range i ∨ ∃ other ∈ ranges, other ≠ range ∧
        Within other i := by
      constructor
      · rintro ⟨other, hother, hin⟩
        by_cases hne : other = range
        · subst hne
          exact .inl hin
        · exact .inr ⟨other, hother, hne, hin⟩
      · rintro (hin | ⟨other, hother, -, hin⟩)
        · exact ⟨range, hrange, hin⟩
        · exact ⟨other, hother, hin⟩
    rw [hsplit]
    have hlen := hrow.1
    rcases h.sameRow_cases hrow with ⟨hi, rfl⟩ | ⟨k, -, rfl, rfl⟩ | ⟨hold, -, -, -⟩ | ⟨-, rfl, -, -⟩
    · refine or_congr_right (exists_congr fun other => and_congr_right fun _ =>
        and_congr_right fun _ => ?_)
      constructor
      · rintro (⟨-, hin⟩ | ⟨hle, -⟩)
        · exact hin
        · omega
      · intro hin
        exact .inl ⟨hi, hin⟩
    · rw [hzero, Nat.add_zero] at hlen ⊢
      have hback : countNl front + countNl added + (k + 1) - countNl added
          = countNl front + (k + 1) := by omega
      rw [hback]
      refine or_congr ?_ (exists_congr fun other => and_congr_right fun _ =>
        and_congr_right fun _ => ?_)
      · constructor
        · rintro ⟨-, hin⟩
          exact ⟨by omega, by omega⟩
        · rintro ⟨-, hin⟩
          have := hroom _ (by omega) hlen hin
          exact ⟨by omega, by omega⟩
      · constructor
        · rintro (⟨hlt, -⟩ | ⟨-, hin⟩)
          · omega
          · exact hin
        · intro hin
          exact .inr ⟨by omega, hin⟩
    · rw [List.append_nil] at hold
      exact absurd hold hmid
    · exact absurd hnl (Nat.lt_irrefl 0)

end insertion

/-! ### What a deletion does to the rows -/

section deletion

variable {text text' front mid back : List α} {s e n : Nat} {Frozen' : Nat → Prop}

/-- Of the rows below a deletion those up to `above` come out frozen.
Above it a row comes out frozen if it was, or if it is not below `above`
and the row that far below it was. -/
theorem Cut.delete_rows (h : Cut text text' front mid [] back s e n) (hnl : 0 < countNl mid)
    {ranges : List (Nat × Nat)} (hsorted : Sorted ranges)
    (hfrozen : ∀ line, Frozen' line ↔
      Covers (ranges.filter fun range => decide (range.1 ≤ countNl front)) line ∨
        reach (ranges.filter fun range => decide (range.1 ≤ countNl front)) ≤ line ∧
          ∃ range ∈ ranges, countNl front < range.1 ∧ Within range (line + countNl mid)) :
    (∀ i j, SameRow text text' s e n i j → (Frozen' j ↔ Covers ranges i)) ↔
      (∀ row, reach (ranges.filter fun range => decide (range.1 ≤ countNl front)) ≤ row →
          row < countNl front → ¬ Covers ranges (row + countNl mid)) ∧
        ∀ row, countNl front ≤ row →
          row < reach (ranges.filter fun range => decide (range.1 ≤ countNl front)) →
          row + countNl mid < lenLines text →
          countNl front < row ∨ EndsRow front ∧ EndsRow (front ++ mid) →
          Covers ranges (row + countNl mid) := by
  have hcount := h.countNl_eq
  have hsplit := hsorted.filter_append (countNl front)
  have habove : Sorted (ranges.filter fun range => decide (range.1 ≤ countNl front)) :=
    Sorted.append_left (hsplit ▸ hsorted)
  have hmem : ∀ range, range ∈ ranges.filter (fun range => decide (range.1 ≤ countNl front)) ↔
      range ∈ ranges ∧ range.1 ≤ countNl front := fun range => by
    rw [List.mem_filter, decide_eq_true_eq]
  generalize (ranges.filter fun range => decide (range.1 ≤ countNl front)) = above at *
  -- What is frozen is frozen by a range above, or by one below.
  have hcovers : ∀ line, Covers ranges line ↔
      Covers above line ∨ ∃ range ∈ ranges, countNl front < range.1 ∧ Within range line := by
    intro line
    constructor
    · rintro ⟨range, hrange, hin⟩
      rcases Nat.lt_or_ge (countNl front) range.1 with hlt | hle
      · exact .inr ⟨range, hrange, hlt, hin⟩
      · exact .inl ⟨range, (hmem range).2 ⟨hrange, hle⟩, hin⟩
    · rintro (⟨range, hrange, hin⟩ | ⟨range, hrange, -, hin⟩)
      · exact ⟨range, ((hmem range).1 hrange).1, hin⟩
      · exact ⟨range, hrange, hin⟩
  have hend : ∀ line, Covers above line → line < reach above := by
    rintro line ⟨range, hrange, hin⟩
    exact Nat.lt_of_lt_of_le hin.2 (habove.le_reach hrange)
  have hlast : ∀ line, countNl front ≤ line → line < reach above → Covers above line := by
    intro line hlo hhi
    rcases List.eq_nil_or_concat' above with rfl | ⟨init, last, rfl⟩
    · exact absurd hhi (Nat.not_lt_zero line)
    · have hstart := ((hmem last).1 (List.mem_append_right _ List.mem_cons_self)).2
      rw [reach, List.getLast?_concat] at hhi
      exact ⟨last, List.mem_append_right _ List.mem_cons_self, Nat.le_trans hstart hlo, hhi⟩
  -- Where the line is not below `above`, only the ranges below count.
  have hbelow : ∀ line, reach above ≤ line → (Frozen' line ↔ Covers ranges (line + countNl mid)) := by
    intro line hle
    rw [hfrozen, hcovers, or_iff_right (fun hin => absurd (hend line hin) (by omega)),
      or_iff_right (fun hin => absurd (hend _ hin) (by omega)), and_iff_right hle]
  constructor
  · intro hrows
    refine ⟨fun row hle hlt hin => ?_, fun row hlo hhi hlen hwhole => ?_⟩
    · have hwas := (hrows row row (h.row_above hlt)).1 ((hbelow row hle).2 hin)
      rcases (hcovers row).1 hwas with hwas | ⟨range, -, hstart, hwas⟩
      · have := hend row hwas
        omega
      · have := hwas.1
        omega
    · have hnow : Frozen' row := (hfrozen row).2 (.inl (hlast row hlo hhi))
      have hsame : SameRow text text' s e n (row + countNl mid) row := by
        rw [lenLines, hcount] at hlen
        rcases Nat.eq_or_lt_of_le hlo with rfl | hlt
        · have hends := hwhole.resolve_left (Nat.lt_irrefl _)
          have := h.row_pushed hends.2 (by rw [List.append_nil]; exact hends.1)
          exact this
        · obtain ⟨k, rfl⟩ := Nat.exists_eq_add_of_lt hlt
          have := h.row_below (k := k) (by omega)
          rw [show countNl ([] : List α) = 0 from rfl, Nat.add_zero] at this
          have hrow : countNl front + k + 1 + countNl mid = countNl front + countNl mid + (k + 1) := by
            omega
          rw [hrow]
          exact this
      exact (hrows _ _ hsame).1 hnow
  · rintro ⟨hclear, hfull⟩ i j hrow
    have hlen := hrow.1
    have hback : ∀ row, countNl front ≤ row → row + countNl mid < lenLines text →
        countNl front < row ∨ EndsRow front ∧ EndsRow (front ++ mid) →
        (Frozen' row ↔ Covers ranges (row + countNl mid)) := by
      intro row hlo hlen hwhole
      rcases Nat.lt_or_ge row (reach above) with hlt | hge
      · exact iff_of_true ((hfrozen row).2 (.inl (hlast row hlo hlt)))
          (hfull row hlo hlt hlen hwhole)
      · exact hbelow row hge
    rcases h.sameRow_cases hrow with ⟨hi, rfl⟩ | ⟨k, -, rfl, rfl⟩ | ⟨hold, hnew, rfl, rfl⟩ |
      ⟨rfl, -, rfl, rfl⟩
    · rw [hfrozen, hcovers]
      refine or_congr_right ⟨?_, ?_⟩
      · rintro ⟨hle, range, hrange, hstart, hin⟩
        exact absurd ⟨range, hrange, hin⟩ (hclear _ hle hi)
      · rintro ⟨range, -, hstart, hin⟩
        have := hin.1
        omega
    · have hrow : countNl front + countNl mid + (k + 1)
          = countNl front + countNl ([] : List α) + (k + 1) + countNl mid := by
        rw [show countNl ([] : List α) = 0 from rfl]
        omega
      rw [hrow] at hlen ⊢
      exact hback _ (by rw [show countNl ([] : List α) = 0 from rfl]; omega) hlen (.inl (by omega))
    · rw [List.append_nil] at hnew
      rw [show countNl ([] : List α) = 0 from rfl, Nat.add_zero]
      exact hback _ (Nat.le_refl _) hlen (.inr ⟨hnew, hold⟩)
    · exact absurd hnl (Nat.lt_irrefl 0)

end deletion

/-! ### Splices of the program -/

inductive TextSplice (α : Type) where
  | insert (charIdx : Nat) (text : List α)
  | delete (delS delE : Nat)
deriving Repr, DecidableEq

namespace TextSplice

/-- Where the splice begins in a text of that length. -/
def start (len : Nat) : TextSplice α → Nat
  | .insert charIdx _ => min charIdx len
  | .delete delS _ => min delS len

/-- Where what it takes out ends. -/
def stop (len : Nat) : TextSplice α → Nat
  | .insert charIdx _ => min charIdx len
  | .delete delS delE => max (min delS len) (min delE len)

def added : TextSplice α → List α
  | .insert _ text => text
  | .delete _ _ => []

end TextSplice

namespace EditorCore

def splice (core : EditorCore α μ) : TextSplice α → EditorCore α μ
  | .insert charIdx text => core.programmaticInsert charIdx text
  | .delete delS delE => core.programmaticDelete delS delE

/-- The ranges are sorted after the splice, and every row that it carries
along is frozen just if it was. -/
def FrozenFollows (core : EditorCore α μ) (sp : TextSplice α) : Prop :=
  let rope := core.document.rope
  let core' := core.splice sp
  Sorted core'.frozenLines ∧
    ∀ i j, SameRow rope core'.document.rope (sp.start rope.length) (sp.stop rope.length)
        sp.added.length i j →
      (Covers core'.frozenLines j ↔ Covers core.frozenLines i)

/-- Whole rows do not come in front of an empty row that is frozen. And
where line breaks come into the middle of a row that lies inside a range,
the range has no row of the text behind it that they push out of it. -/
def InsertAligned (core : EditorCore α μ) (charIdx : Nat) (text : List α) : Prop :=
  let rope := core.document.rope
  let pos := lineColOfChar rope charIdx
  (pos.2 = 0 → lineLenChars rope pos.1 = 0 → text ≠ [] → EndsRow text →
      ¬ Covers core.frozenLines pos.1) ∧
    (0 < pos.2 → pos.2 < lineLenChars rope pos.1 → 0 < countNl text →
      ∀ range ∈ core.frozenLines, range.1 < pos.1 → ∀ row, pos.1 < row → row < lenLines rope →
        row < range.2 → row + countNl text < range.2)

/-- With the end of the last range that begins up to the row where the
deletion does: what was frozen behind it does not come above that row,
and the rows that come up to it were frozen. -/
def DeleteAligned (core : EditorCore α μ) (delS delE : Nat) : Prop :=
  let rope := core.document.rope
  let s := min delS rope.length
  let e := min delE rope.length
  let line := (lineColOfChar rope s).1
  let nl := countNl (slice rope s e)
  let above := reach (core.frozenLines.filter fun range => decide (range.1 ≤ line))
  s < e → 0 < nl →
    (∀ row, above ≤ row → row < line → ¬ Covers core.frozenLines (row + nl)) ∧
      ∀ row, line ≤ row → row < above → row + nl < lenLines rope →
        line < row ∨ (lineColOfChar rope s).2 = 0 ∧ (lineColOfChar rope e).2 = 0 →
        Covers core.frozenLines (row + nl)

def Aligned (core : EditorCore α μ) : TextSplice α → Prop
  | .insert charIdx text => core.InsertAligned charIdx text
  | .delete delS delE => core.DeleteAligned delS delE

/-- The row begins at the character just if the text up to there ends
one. -/
theorem col_eq_zero_iff (text : List α) (idx : Nat) :
    (lineColOfChar text idx).2 = 0 ↔ EndsRow (text.take (min idx text.length)) := by
  have hsplit := List.take_append_drop (min idx text.length) text
  have hfront := lineToChar_append_front (text.take (min idx text.length))
    (text.drop (min idx text.length)) (Nat.le_refl _)
  have hle := lineToChar_le_length (text.take (min idx text.length))
    (countNl (text.take (min idx text.length)))
  rw [hsplit] at hfront
  rw [List.length_take, Nat.min_eq_left (Nat.min_le_right _ _)] at hle
  rw [endsRow_iff, List.length_take, Nat.min_eq_left (Nat.min_le_right _ _), lineColOfChar]
  dsimp only [charToLine]
  rw [hfront]
  omega

/-- Every row keeps its place or moves with the line breaks, and none of
the ranges is touched. -/
theorem follows_of_eq {core : EditorCore α μ} (h : Sorted core.frozenLines) {sp : TextSplice α}
    {front mid added back : List α}
    (hcut : Cut core.document.rope (core.splice sp).document.rope front mid added back
      (sp.start core.document.rope.length) (sp.stop core.document.rope.length) sp.added.length)
    (hcount : countNl mid = countNl added)
    (hsame : (core.splice sp).frozenLines = core.frozenLines) : core.FrozenFollows sp := by
  rw [FrozenFollows, hsame]
  refine ⟨h, fun i j hrow => ?_⟩
  have hij : j = i := by
    rcases hcut.sameRow_cases hrow with ⟨-, hj⟩ | ⟨k, -, hi, hj⟩ | ⟨-, -, hi, hj⟩ | ⟨-, -, -, hj⟩
    · exact hj
    · omega
    · omega
    · exact hj
  rw [hij]

theorem shiftFrozenLinesForInsert_document (core : EditorCore α μ) (line col : Nat)
    (text : List α) : (core.shiftFrozenLinesForInsert line col text).document = core.document := by
  rw [shiftFrozenLinesForInsert]
  split
  · rfl
  · split <;> rfl

theorem insert_rope (core : EditorCore α μ) (charIdx : Nat) (text : List α) :
    let s := min charIdx core.document.rope.length
    (core.splice (.insert charIdx text)).document.rope
      = core.document.rope.take s ++ text ++ core.document.rope.drop s := by
  show (((core.shiftFrozenLinesForInsert _ _ text).document).insertStrAtCharNoUndo charIdx text).rope
    = _
  rw [shiftFrozenLinesForInsert_document]
  rfl

theorem insert_frozenLines (core : EditorCore α μ) (charIdx : Nat) (text : List α) :
    let pos := lineColOfChar core.document.rope charIdx
    (core.splice (.insert charIdx text)).frozenLines =
      if countNl text = 0 then core.frozenLines
      else if lineLenChars core.document.rope pos.1 ≤ pos.2 then
        core.frozenLines.flatMap (insertedRange (pos.1 + 1) 0 (countNl text))
      else core.frozenLines.flatMap (insertedRange pos.1 pos.2 (countNl text)) := by
  intro pos
  show (core.shiftFrozenLinesForInsert pos.1 pos.2 text).frozenLines = _
  rw [shiftFrozenLinesForInsert]
  split
  · rfl
  · split <;> rfl

theorem insert_follows_iff {core : EditorCore α μ} (h : Sorted core.frozenLines) (charIdx : Nat)
    (text : List α) :
    core.FrozenFollows (.insert charIdx text) ↔ core.InsertAligned charIdx text := by
  have hcut := cut_splice core.document.rope text
    (Nat.le_refl (min charIdx core.document.rope.length)) (Nat.min_le_right _ _)
  have hmid : slice core.document.rope (min charIdx core.document.rope.length)
      (min charIdx core.document.rope.length) = [] := by
    rw [slice, List.drop_take, Nat.sub_self, List.take_zero]
  rw [hmid, ← insert_rope] at hcut
  have hfrozen := insert_frozenLines core charIdx text
  have hcol := col_eq_zero_iff core.document.rope charIdx
  have hends : EndsRow text → text ≠ [] → 0 < countNl text := by
    rintro (hnil | ⟨init, a, rfl, ha⟩) hne
    · exact absurd hnil hne
    · rw [countNl_append, countNl_cons, ha]
      exact Nat.lt_of_lt_of_le (by decide) (Nat.le_add_left 1 _)
  dsimp only at hfrozen
  by_cases hnl : countNl text = 0
  · -- Without a line break nothing is shifted.
    rw [if_pos hnl] at hfrozen
    refine iff_of_true (follows_of_eq h hcut hnl.symm hfrozen)
      ⟨fun _ _ hne hend => absurd (hends hend hne) (by omega), fun _ _ hpos => absurd hnl (by omega)⟩
  have hpos := Nat.pos_of_ne_zero hnl
  have hne : text ≠ [] := by
    rintro rfl
    exact hnl rfl
  rw [if_neg hnl] at hfrozen
  by_cases hend : lineLenChars core.document.rope (lineColOfChar core.document.rope charIdx).1
      ≤ (lineColOfChar core.document.rope charIdx).2
  · rw [if_pos hend] at hfrozen
    have hmoved := fun line => covers_inserted h
      ((lineColOfChar core.document.rope charIdx).1 + 1) 0 (countNl text) line (.inl rfl)
    have hrows := hcut.insert_behind hpos hmoved
    rw [FrozenFollows, hfrozen, and_iff_right (sorted_inserted h _ _ _), InsertAligned]
    refine hrows.trans ⟨fun hclear => ⟨fun hzero _ _ hlast => ?_, fun _ hlt => absurd hend (by omega)⟩,
      fun haligned hfront hback => ?_⟩
    · exact hclear (hcol.1 hzero) ((endsRow_append _ hne).2 hlast)
    · have hzero := hcol.2 hfront
      exact haligned.1 hzero (by omega) hne ((endsRow_append _ hne).1 hback)
  rw [if_neg hend] at hfrozen
  rw [FrozenFollows, hfrozen, and_iff_right (sorted_inserted h _ _ _), InsertAligned]
  by_cases hzero : (lineColOfChar core.document.rope charIdx).2 = 0
  · -- At the start of a row that has characters.
    refine iff_of_true (hcut.insert_before hpos fun line =>
      covers_inserted h _ _ _ line (.inl hzero)) ⟨fun _ hvisible => ?_, fun hlt => ?_⟩ <;> omega
  by_cases hinside : ∃ range ∈ core.frozenLines,
      range.1 < (lineColOfChar core.document.rope charIdx).1 ∧
        (lineColOfChar core.document.rope charIdx).1 < range.2
  · obtain ⟨range, hrange, hlo, hhi⟩ := hinside
    refine (hcut.insert_inside hpos (fun hfront => hzero (hcol.2 hfront)) h hrange hlo hhi
      fun line => covers_inserted_inside h hrange _ line hlo hhi hzero).trans
      ⟨fun hroom => ⟨fun hcol => absurd hcol hzero, fun _ _ _ other hother hstart row hrow hlen hin => ?_⟩,
        fun haligned row hrow hlen hin => ?_⟩
    · -- No other range reaches from above the row to behind it.
      have hself : other = range := by
        by_contra hdiff
        rcases h.apart_of_ne hother hrange hdiff with hle | hle <;> omega
      subst hself
      exact hroom row hrow hlen hin
    · exact haligned.2 (by omega) (by omega) hpos range hrange hlo row hrow hlen hin
  · have hnone : ∀ range ∈ core.frozenLines,
        ¬ (range.1 < (lineColOfChar core.document.rope charIdx).1 ∧
          (lineColOfChar core.document.rope charIdx).1 < range.2) :=
      fun range hrange hin => hinside ⟨range, hrange, hin⟩
    refine iff_of_true (hcut.insert_before hpos fun line =>
      covers_inserted h _ _ _ line (.inr hnone)) ⟨fun hcol => absurd hcol hzero,
        fun _ _ _ range hrange hstart row hrow _ hin => ?_⟩
    have := hnone range hrange
    omega

omit [Glyph α] in
theorem shiftFrozenForDeleteAt_document (core : EditorCore α μ) (line col nl : Nat) :
    (core.shiftFrozenForDeleteAt line col nl).document = core.document := by
  rw [shiftFrozenForDeleteAt]
  split <;> rfl

theorem shiftFrozenLinesForDelete_real (core : EditorCore α μ) {s e : Nat} (hlt : s < e)
    (he : e ≤ core.document.rope.length) :
    core.shiftFrozenLinesForDelete s e =
      core.shiftFrozenForDeleteAt (lineColOfChar core.document.rope s).1
        (lineColOfChar core.document.rope s).2 (countNl (slice core.document.rope s e)) := by
  rw [shiftFrozenLinesForDelete]
  dsimp only
  rw [if_neg (Nat.not_le_of_lt hlt), Nat.min_eq_left he, if_neg (Nat.not_le_of_lt hlt)]

/-- A deletion of something. -/
theorem delete_real (core : EditorCore α μ) {delS delE : Nat}
    (hlt : min delS core.document.rope.length < min delE core.document.rope.length) :
    let rope := core.document.rope
    let s := min delS rope.length
    let e := min delE rope.length
    let pos := lineColOfChar rope s
    let nl := countNl (slice rope s e)
    (core.splice (.delete delS delE)).document.rope = rope.take s ++ [] ++ rope.drop e ∧
      (core.splice (.delete delS delE)).frozenLines =
        if nl = 0 then core.frozenLines
        else normalizeRanges (core.frozenLines.map (deletedRange pos.1 nl)) := by
  intro rope s e pos nl
  have he : e ≤ rope.length := Nat.min_le_right _ _
  have hdeletion : core.splice (.delete delS delE) =
      { core.shiftFrozenForDeleteAt pos.1 pos.2 nl with
          document := core.document.deleteRangeNoUndo s e } := by
    show core.programmaticDelete delS delE = _
    rw [programmaticDelete]
    dsimp only
    rw [if_neg (Nat.not_le_of_lt hlt), shiftFrozenLinesForDelete_real core hlt he,
      shiftFrozenForDeleteAt_document]
  rw [hdeletion]
  constructor
  · show (core.document.deleteRangeNoUndo s e).rope = _
    rw [Document.deleteRangeNoUndo, Nat.min_eq_left he, Nat.min_eq_left (Nat.min_le_right _ _),
      if_pos hlt, List.append_nil]
    rfl
  · show (core.shiftFrozenForDeleteAt pos.1 pos.2 nl).frozenLines = _
    rw [shiftFrozenForDeleteAt]
    split <;> rfl

theorem delete_follows_iff {core : EditorCore α μ} (h : Sorted core.frozenLines) (delS delE : Nat) :
    core.FrozenFollows (.delete delS delE) ↔ core.DeleteAligned delS delE := by
  by_cases hlt : min delS core.document.rope.length < min delE core.document.rope.length
  · have he : min delE core.document.rope.length ≤ core.document.rope.length := Nat.min_le_right _ _
    have hstop : TextSplice.stop core.document.rope.length (.delete delS delE : TextSplice α)
        = min delE core.document.rope.length := Nat.max_eq_right (Nat.le_of_lt hlt)
    obtain ⟨hrope, hfrozen⟩ := core.delete_real hlt
    have hcut := cut_splice core.document.rope [] (Nat.le_of_lt hlt) he
    rw [← hrope] at hcut
    by_cases hnl : countNl (slice core.document.rope (min delS core.document.rope.length)
        (min delE core.document.rope.length)) = 0
    · rw [if_pos hnl] at hfrozen
      refine iff_of_true (follows_of_eq h (by rw [hstop]; exact hcut) hnl hfrozen) fun _ hpos => ?_
      omega
    rw [if_neg hnl] at hfrozen
    have hpos := Nat.pos_of_ne_zero hnl
    have hline : (lineColOfChar core.document.rope (min delS core.document.rope.length)).1
        = countNl (core.document.rope.take (min delS core.document.rope.length)) :=
      lineColOfChar_fst _ (Nat.min_le_right _ _)
    have hrows := hcut.delete_rows hpos h fun line => covers_deleted h _ _ line
    have htake := (take_append_slice core.document.rope (Nat.le_of_lt hlt))
    have hstart := col_eq_zero_iff core.document.rope (min delS core.document.rope.length)
    have hend := col_eq_zero_iff core.document.rope (min delE core.document.rope.length)
    rw [Nat.min_eq_left (Nat.min_le_right _ _)] at hstart hend
    rw [htake, ← hstart, ← hend] at hrows
    rw [FrozenFollows, hfrozen, hstop, and_iff_right (sorted_deleted _ _ _), DeleteAligned, hline]
    exact hrows.trans ⟨fun haligned _ _ => haligned, fun haligned => haligned hlt hpos⟩
  · -- Nothing goes.
    have hsame : core.splice (.delete delS delE) = core := by
      show core.programmaticDelete delS delE = core
      rw [programmaticDelete]
      exact if_pos (Nat.le_of_not_lt hlt)
    have hstop : TextSplice.stop core.document.rope.length (.delete delS delE : TextSplice α)
        = min delS core.document.rope.length := Nat.max_eq_left (Nat.le_of_not_lt hlt)
    have hcut := cut_splice core.document.rope [] (Nat.le_refl (min delS core.document.rope.length))
      (Nat.min_le_right _ _)
    rw [List.append_nil, List.take_append_drop] at hcut
    refine iff_of_true (follows_of_eq h (by rw [hsame, hstop]; exact hcut) ?_ (by rw [hsame]))
      fun hreal => absurd hreal hlt
    rw [slice, List.drop_take, Nat.sub_self]
    rfl

/-- The frozen ranges stay sorted, and every row that a splice of the
program carries along is frozen as before, just where the ranges are
aligned with the splice. -/
theorem frozen_follows_iff {core : EditorCore α μ} (h : Sorted core.frozenLines)
    (sp : TextSplice α) : core.FrozenFollows sp ↔ core.Aligned sp := by
  cases sp with
  | insert charIdx text => exact insert_follows_iff h charIdx text
  | delete delS delE => exact delete_follows_iff h delS delE

/-- Three lines that are frozen together, the middle one split. -/
def threeFrozen : EditorCore Char Unit :=
  (EditorCore.new "ab\ncd\nef\n".toList "").addFrozenLines 0 3

theorem frozen_follows_iff_sample :
    Sorted threeFrozen.frozenLines ∧
      (threeFrozen.FrozenFollows (.insert 3 ['\n']) ↔ threeFrozen.Aligned (.insert 3 ['\n'])) :=
  ⟨by decide, frozen_follows_iff (by decide) _⟩

/-- The third line is not frozen any more. -/
theorem split_strands_frozen_line :
    ¬ ∀ (core : EditorCore Char Unit) (sp : TextSplice Char), Sorted core.frozenLines →
      core.FrozenFollows sp := by
  intro h
  have hfollows := (h threeFrozen (.insert 4 ['\n']) (by decide)).2 2 3
  have hsame : SameRow threeFrozen.document.rope
      (threeFrozen.splice (.insert 4 ['\n'])).document.rope 4 4 1 2 3 := by
    rw [SameRow]
    decide
  have hwas : Covers threeFrozen.frozenLines 2 := by decide
  have hnow : ¬ Covers (threeFrozen.splice (.insert 4 ['\n'])).frozenLines 3 := by decide
  exact hnow ((hfollows hsame).2 hwas)

end EditorCore

end Yaldabaoth
