import Yaldabaoth.Model.Editor

/-!
# `Yaldabaoth.Proofs.Buffer.Shifts`: what the shifts make of the frozen ranges

Which lines are frozen after line breaks came in, or went, and that the
ranges stay sorted.
-/

set_option autoImplicit false

namespace Yaldabaoth

open Spans

/-! ### Line breaks come in -/

/-- An insertion at the start of a line parts what is frozen above it and
below it. -/
theorem covers_insertedRange {range : Nat × Nat} (hrange : range.1 < range.2)
    (effLine effCol insertedNl line : Nat)
    (hcol : effCol = 0 ∨ ¬ (range.1 < effLine ∧ effLine < range.2)) :
    Covers (insertedRange effLine effCol insertedNl range) line ↔
      line < effLine ∧ Within range line ∨
        effLine + insertedNl ≤ line ∧ Within range (line - insertedNl) := by
  rw [insertedRange]
  split
  · simp only [covers_cons, covers_nil, or_false, Within]
    omega
  split
  · simp only [covers_cons, covers_nil, or_false, Within]
    omega
  · rw [if_pos (by omega), if_pos (by omega), if_pos (by omega)]
    simp only [List.cons_append, List.nil_append, covers_cons, covers_nil, or_false, Within]
    omega

/-- A range that is cut in the middle of a line stays where it is. -/
theorem insertedRange_inside {range : Nat × Nat} {effLine effCol : Nat} (insertedNl : Nat)
    (hlo : range.1 < effLine) (hhi : effLine < range.2) (hcol : effCol ≠ 0) :
    insertedRange effLine effCol insertedNl range = [range] := by
  rw [insertedRange, if_neg (by omega), if_neg (by omega), if_neg hcol]

theorem covers_flatMap (ranges : List (Nat × Nat)) (f : Nat × Nat → List (Nat × Nat)) (line : Nat) :
    Covers (ranges.flatMap f) line ↔ ∃ range ∈ ranges, Covers (f range) line := by
  simp only [Covers, List.mem_flatMap]
  constructor
  · rintro ⟨part, ⟨range, hrange, hpart⟩, hin⟩
    exact ⟨range, hrange, part, hpart, hin⟩
  · rintro ⟨range, hrange, part, hpart, hin⟩
    exact ⟨part, ⟨range, hrange, hpart⟩, hin⟩

theorem covers_inserted {ranges : List (Nat × Nat)} (h : Sorted ranges)
    (effLine effCol insertedNl line : Nat)
    (hcol : effCol = 0 ∨ ∀ range ∈ ranges, ¬ (range.1 < effLine ∧ effLine < range.2)) :
    Covers (ranges.flatMap (insertedRange effLine effCol insertedNl)) line ↔
      line < effLine ∧ Covers ranges line ∨
        effLine + insertedNl ≤ line ∧ Covers ranges (line - insertedNl) := by
  rw [covers_flatMap]
  have heach : ∀ range ∈ ranges, _ := fun range hrange =>
    covers_insertedRange (h.nonempty range hrange) effLine effCol insertedNl line
      (hcol.imp_right fun hcol => hcol range hrange)
  constructor
  · rintro ⟨range, hrange, hin⟩
    rcases (heach range hrange).1 hin with ⟨hline, hin⟩ | ⟨hline, hin⟩
    · exact .inl ⟨hline, range, hrange, hin⟩
    · exact .inr ⟨hline, range, hrange, hin⟩
  · rintro (⟨hline, range, hrange, hin⟩ | ⟨hline, range, hrange, hin⟩)
    · exact ⟨range, hrange, (heach range hrange).2 (.inl ⟨hline, hin⟩)⟩
    · exact ⟨range, hrange, (heach range hrange).2 (.inr ⟨hline, hin⟩)⟩

/-- With a range that is cut in the middle of a line, the other ranges do
what they do at the start of one. -/
theorem covers_inserted_inside {ranges : List (Nat × Nat)} (h : Sorted ranges) {cut : Nat × Nat}
    (hcut : cut ∈ ranges) {effLine effCol : Nat} (insertedNl line : Nat) (hlo : cut.1 < effLine)
    (hhi : effLine < cut.2) (hcol : effCol ≠ 0) :
    Covers (ranges.flatMap (insertedRange effLine effCol insertedNl)) line ↔
      Within cut line ∨ ∃ range ∈ ranges, range ≠ cut ∧
        (line < effLine ∧ Within range line ∨
          effLine + insertedNl ≤ line ∧ Within range (line - insertedNl)) := by
  rw [covers_flatMap]
  have heach : ∀ range ∈ ranges, range ≠ cut → _ := fun range hrange hne =>
    covers_insertedRange (h.nonempty range hrange) effLine effCol insertedNl line (.inr (by
      rcases h.apart_of_ne hrange hcut hne with hle | hle <;> omega))
  have hself : Covers (insertedRange effLine effCol insertedNl cut) line ↔ Within cut line := by
    rw [insertedRange_inside insertedNl hlo hhi hcol, covers_cons]
    exact or_iff_left (covers_nil line)
  constructor
  · rintro ⟨range, hrange, hin⟩
    by_cases hne : range = cut
    · subst hne
      exact .inl (hself.1 hin)
    · exact .inr ⟨range, hrange, hne, (heach range hrange hne).1 hin⟩
  · rintro (hin | ⟨range, hrange, hne, hin⟩)
    · exact ⟨cut, hcut, hself.2 hin⟩
    · exact ⟨range, hrange, (heach range hrange hne).2 hin⟩

/-- The parts of a range after an insertion, and where they lie. -/
theorem mem_insertedRange {range part : Nat × Nat} (hrange : range.1 < range.2)
    {effLine effCol insertedNl : Nat} (hpart : part ∈ insertedRange effLine effCol insertedNl range) :
    part.1 < part.2 ∧ (part.2 ≤ range.2 ∨ effLine < range.2 ∧ part.2 ≤ range.2 + insertedNl) ∧
      (range.1 < effLine ∧ range.1 ≤ part.1 ∨ range.1 + insertedNl ≤ part.1) := by
  rw [insertedRange] at hpart
  split at hpart
  · rw [List.mem_singleton.1 hpart]
    omega
  split at hpart
  · rw [List.mem_singleton.1 hpart]
    dsimp only
    omega
  split at hpart
  · rw [if_pos (by omega), if_pos (by omega)] at hpart
    rcases List.mem_cons.1 hpart with rfl | hpart
    · dsimp only
      omega
    · rw [List.mem_singleton.1 hpart]
      dsimp only
      omega
  · rw [List.mem_singleton.1 hpart]
    omega

theorem sorted_inserted {ranges : List (Nat × Nat)} (h : Sorted ranges)
    (effLine effCol insertedNl : Nat) :
    Sorted (ranges.flatMap (insertedRange effLine effCol insertedNl)) := by
  constructor
  · intro part hpart
    obtain ⟨range, hrange, hpart⟩ := List.mem_flatMap.1 hpart
    exact (mem_insertedRange (h.nonempty range hrange) hpart).1
  · refine List.pairwise_flatMap.2 ⟨fun range hrange => ?_, ?_⟩
    · -- Only a range that is parted in two has more than one part.
      rw [insertedRange]
      split
      · exact List.pairwise_singleton _ _
      split
      · exact List.pairwise_singleton _ _
      split
      · rw [if_pos (by omega), if_pos (by omega)]
        refine List.pairwise_pair.2 ?_
        show effLine ≤ effLine + insertedNl
        omega
      · exact List.pairwise_singleton _ _
    · refine h.apart.imp_of_mem fun {a b} ha hb hab part hpart next hnext => ?_
      have hpart := (mem_insertedRange (h.nonempty a ha) hpart).2.1
      have hnext := (mem_insertedRange (h.nonempty b hb) hnext).2.2
      omega

/-! ### Line breaks go -/

/-- The ranges that begin up to the line where the deletion does stay. Of
the others, moved up, only what lies behind those is frozen. -/
theorem covers_deleted {ranges : List (Nat × Nat)} (h : Sorted ranges)
    (startLine deletedNl line : Nat) :
    let above := ranges.filter fun range => decide (range.1 ≤ startLine)
    Covers (normalizeRanges (ranges.map (deletedRange startLine deletedNl))) line ↔
      Covers above line ∨
        reach above ≤ line ∧
          ∃ range ∈ ranges, startLine < range.1 ∧ Within range (line + deletedNl) := by
  intro above
  have hsplit := h.filter_append startLine
  have habove : Sorted above := Sorted.append_left (hsplit ▸ h)
  have hbelow := Sorted.append_right (hsplit ▸ h)
  have hmem : ∀ range, range ∈ ranges.filter (fun range => decide (startLine < range.1)) ↔
      range ∈ ranges ∧ startLine < range.1 := fun range => by
    rw [List.mem_filter, decide_eq_true_eq]
  generalize (ranges.filter fun range => decide (startLine < range.1)) = below at hsplit hbelow hmem
  have hkept : above.map (deletedRange startLine deletedNl) = above := by
    refine (List.map_congr_left fun range hrange => ?_).trans (List.map_id above)
    have hle := of_decide_eq_true (List.mem_filter.1 hrange).2
    rw [deletedRange, if_neg (Nat.not_lt_of_le hle)]
    rfl
  have hmoved : ∀ range ∈ below,
      deletedRange startLine deletedNl range = (range.1 - deletedNl, range.2 - deletedNl) :=
    fun range hrange => if_pos ((hmem range).1 hrange).2
  have hnonempty : above.filter (fun range => decide (range.1 < range.2)) = above :=
    List.filter_eq_self.2 fun range hrange => decide_eq_true (habove.nonempty range hrange)
  have hmap : ranges.map (deletedRange startLine deletedNl)
      = above ++ below.map (deletedRange startLine deletedNl) := by
    rw [← hkept, ← List.map_append, ← hsplit]
  rw [normalizeRanges, hmap, List.filter_append, hnonempty, covers_merge_append habove]
  · -- What comes through of a range that was moved up.
    refine or_congr_right (and_congr_right fun _ => ?_)
    constructor
    · rintro ⟨moved, hmem', hin⟩
      obtain ⟨range, hrange, rfl⟩ := List.mem_map.1 (List.mem_filter.1 hmem').1
      rw [hmoved range hrange, Within] at hin
      exact ⟨range, ((hmem range).1 hrange).1, ((hmem range).1 hrange).2, by
        dsimp only at hin
        exact ⟨by omega, by omega⟩⟩
    · rintro ⟨range, hrange, hstart, hlo, hhi⟩
      have hrange := (hmem range).2 ⟨hrange, hstart⟩
      have hin : Within (deletedRange startLine deletedNl range) line := by
        rw [hmoved range hrange, Within]
        dsimp only
        omega
      refine ⟨_, List.mem_filter.2 ⟨List.mem_map_of_mem hrange, decide_eq_true ?_⟩, hin⟩
      exact Nat.lt_of_le_of_lt hin.1 hin.2
  · intro range hrange
    exact Nat.le_of_lt (of_decide_eq_true (List.mem_filter.1 hrange).2)
  · refine List.Pairwise.filter _ (List.pairwise_map.2 (hbelow.starts.imp_of_mem ?_))
    intro a b ha hb hab
    rw [hmoved a ha, hmoved b hb]
    exact Nat.sub_le_sub_right hab deletedNl

theorem sorted_deleted (ranges : List (Nat × Nat)) (startLine deletedNl : Nat) :
    Sorted (normalizeRanges (ranges.map (deletedRange startLine deletedNl))) :=
  merge_sorted folds_lt fun _ hrange => of_decide_eq_true (List.mem_filter.1 hrange).2

end Yaldabaoth
