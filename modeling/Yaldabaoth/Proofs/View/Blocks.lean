import Mathlib.Data.List.TakeWhile
import Yaldabaoth.Model.AgentViewModel

/-!
# `Yaldabaoth.Proofs.View.Blocks`: the detected blocks of a transcript

The ranges of `detectBlockRanges` follow one another, each is made of frozen
lines, and a fence stays in the turn that it opens in.
-/

set_option autoImplicit false

namespace Yaldabaoth

namespace TranscriptLines

variable (t : TranscriptLines)

/-- A range of frozen lines, at or below line `i`; a fence is in one turn. -/
structure BlockRange (i : Nat) (r : Nat × Nat) : Prop where
  above : i ≤ r.1
  nonempty : r.1 < r.2
  bound : r.2 ≤ t.lineCount
  frozen : ∀ l, r.1 ≤ l → l < r.2 → t.isFrozen l = true
  turn : isFence (t.trimmed r.1) = true → ∃ f ∈ t.frozen, f.1 ≤ r.1 ∧ r.2 ≤ f.2

variable {t}

theorem BlockRange.mono {i j : Nat} {r : Nat × Nat} (h : t.BlockRange j r) (hij : i ≤ j) :
    t.BlockRange i r :=
  { h with above := le_trans hij h.above }

theorem isFrozen_iff {i : Nat} :
    t.isFrozen i = true ↔ ∃ r ∈ t.frozen, r.1 ≤ i ∧ i < r.2 := by
  simp [isFrozen]

theorem turnEnd_spec {start : Nat} (h : t.isFrozen start = true) :
    ∃ f ∈ t.frozen, f.1 ≤ start ∧ start < f.2 ∧ t.turnEnd start = f.2 := by
  obtain ⟨r, hr, hin⟩ := isFrozen_iff.1 h
  cases hfind : t.frozen.find? fun r => decide (r.1 ≤ start) && decide (start < r.2) with
  | none =>
      have hnone := List.find?_eq_none.1 hfind r hr
      simp [hin] at hnone
  | some f =>
      have hf := List.find?_some hfind
      simp only [Bool.and_eq_true, decide_eq_true_eq] at hf
      refine ⟨f, List.mem_of_find?_eq_some hfind, hf.1, hf.2, ?_⟩
      simp [turnEnd, hfind]

theorem closingFence_spec {start j : Nat} (h : t.closingFence start = some j) :
    start < j ∧ j < t.turnEnd start := by
  have hmem := List.mem_of_find?_eq_some h
  rw [List.mem_range'_1] at hmem
  omega

/-- A closed fence is a block. -/
theorem blockRange_fence {i j : Nat} (hfrozen : t.isFrozen i = true)
    (h : t.closingFence i = some j) : t.BlockRange i (i, j + 1) := by
  obtain ⟨f, hf, hstart, -, hturn⟩ := turnEnd_spec hfrozen
  have hj := closingFence_spec h
  rw [hturn] at hj
  have hbound := (t.frozen_bounds f hf).2
  exact
    { above := le_refl i
      nonempty := Nat.lt_succ_of_lt hj.1
      bound := le_trans hj.2 hbound
      frozen := fun l hl hlj => isFrozen_iff.2 ⟨f, hf, by simp at hl; omega, by simp at hlj; omega⟩
      turn := fun _ => ⟨f, hf, hstart, hj.2⟩ }

theorem tableRows_le (start : Nat) : t.tableRows start ≤ t.lineCount - start := by
  have hle := (List.takeWhile_sublist (fun i => t.isFrozen i && isTableRow (t.trimmed i))
    (l := List.range' start (t.lineCount - start))).length_le
  simpa [tableRows] using hle

/-- The rows of a table are frozen. -/
theorem tableRows_spec {start l : Nat} (hl : start ≤ l) (hlt : l < start + t.tableRows start) :
    t.isFrozen l = true ∧ isTableRow (t.trimmed l) = true := by
  have hle := t.tableRows_le start
  have hget : (List.range' start (t.lineCount - start))[l - start]? = some l := by
    rw [List.getElem?_range' (by omega)]
    congr 1
    omega
  obtain ⟨behind, hsplit⟩ := List.takeWhile_prefix (l := List.range' start (t.lineCount - start))
    fun i => t.isFrozen i && isTableRow (t.trimmed i)
  rw [← hsplit, List.getElem?_append_left (by unfold tableRows at hlt; omega)] at hget
  simpa using List.mem_takeWhile_imp (List.mem_of_getElem? hget)

/-- The row that a table begins with is one of its rows. -/
theorem tableRows_pos {start : Nat} (h : start < t.lineCount) (hfrozen : t.isFrozen start = true)
    (hrow : isTableRow (t.trimmed start) = true) : 0 < t.tableRows start := by
  obtain ⟨n, hn⟩ : ∃ n, t.lineCount - start = n + 1 := ⟨t.lineCount - start - 1, by omega⟩
  simp [tableRows, hn, List.range'_succ, hfrozen, hrow]

theorem not_isFence_of_isTableRow {text : List Char} (h : isTableRow text = true) :
    isFence text = false := by
  cases text with
  | nil => rfl
  | cons c text =>
      have hc : c = '|' := by
        simp [isTableRow] at h
        exact h.1
      subst hc
      rfl

theorem blockRange_table {i : Nat} (h : 3 ≤ t.tableRows i) :
    t.BlockRange i (i, i + t.tableRows i) where
  above := le_refl i
  nonempty := by simp; omega
  bound := by
    have hle := t.tableRows_le i
    simp
    omega
  frozen l hl hlt := (tableRows_spec hl hlt).1
  turn hfence := by
    have hrow := (tableRows_spec (le_refl i) (by omega : i < i + t.tableRows i)).2
    rw [not_isFence_of_isTableRow hrow] at hfence
    cases hfence

/-- What the loop finds from line `i` on. -/
theorem detectFrom_spec (fuel i : Nat) :
    (∀ r ∈ t.detectFrom fuel i, t.BlockRange i r) ∧
      (t.detectFrom fuel i).Pairwise fun a b => a.2 ≤ b.1 := by
  induction fuel generalizing i with
  | zero => simp [detectFrom]
  | succ fuel ih =>
      have hlater (j : Nat) (hj : i ≤ j) : (∀ r ∈ t.detectFrom fuel j, t.BlockRange i r) ∧
          (t.detectFrom fuel j).Pairwise fun a b => a.2 ≤ b.1 :=
        ⟨fun r hr => ((ih j).1 r hr).mono hj, (ih j).2⟩
      have hcons (j : Nat) (hblock : t.BlockRange i (i, j)) :
          (∀ r ∈ (i, j) :: t.detectFrom fuel j, t.BlockRange i r) ∧
            ((i, j) :: t.detectFrom fuel j).Pairwise fun a b => a.2 ≤ b.1 := by
        have hij : i ≤ j := le_of_lt hblock.nonempty
        constructor
        · intro r hr
          rcases List.mem_cons.1 hr with rfl | hr
          · exact hblock
          · exact (hlater j hij).1 r hr
        · exact List.pairwise_cons.2 ⟨fun r hr => ((ih j).1 r hr).above, (ih j).2⟩
      rw [detectFrom]
      split
      · split
        · exact hlater (i + 1) (Nat.le_succ i)
        · rename_i hfrozen
          split
          · split
            · rename_i j hclose
              exact hcons (j + 1) (blockRange_fence (by simpa using hfrozen) hclose)
            · exact hlater (i + 1) (Nat.le_succ i)
          · split
            · simp only
              split
              · rename_i h
                exact hcons _ (blockRange_table h)
              · exact hlater _ (Nat.le_add_right i _)
            · exact hlater (i + 1) (Nat.le_succ i)
      · simp

/-- One turn of the loop for each line is enough. -/
theorem detectFrom_enough {fuel i : Nat} (h : t.lineCount ≤ fuel + i) :
    t.detectFrom (fuel + 1) i = t.detectFrom fuel i := by
  induction fuel generalizing i with
  | zero => simp [detectFrom]; omega
  | succ fuel ih =>
      have hlater (j : Nat) (hj : i < j) : t.detectFrom (fuel + 1) j = t.detectFrom fuel j :=
        ih (by omega)
      rw [detectFrom.eq_2 t i (fuel + 1), detectFrom.eq_2 t i fuel]
      split
      · rename_i hi
        split
        · exact hlater (i + 1) (Nat.lt_succ_self i)
        · rename_i hfrozen
          split
          · split
            · rename_i j hclose
              have hj := (closingFence_spec hclose).1
              rw [hlater (j + 1) (by omega)]
            · exact hlater (i + 1) (Nat.lt_succ_self i)
          · split
            · rename_i hrow
              have hpos := tableRows_pos hi (by simpa using hfrozen) hrow
              simp only [hlater (i + t.tableRows i) (by omega)]
            · exact hlater (i + 1) (Nat.lt_succ_self i)
      · rfl

theorem detectBlockRanges_spec (t : TranscriptLines) :
    (∀ r ∈ t.detectBlockRanges, t.BlockRange 0 r) ∧
      t.detectBlockRanges.Pairwise fun a b => a.2 ≤ b.1 :=
  detectFrom_spec t.lineCount 0

end TranscriptLines

end Yaldabaoth
