import Mathlib.Data.List.Find
import Yaldabaoth.Model.ViewMemo
import Yaldabaoth.Proofs.View.Blocks

/-!
# `Yaldabaoth.Proofs.View.Reads`: what a rebuild reads of the transcript

The blocks come from the frozen lines alone (`resolve_congr`). The rest of
the rebuild asks a line whether it is blank and frozen, and what its tag is
(`TranscriptLines.Alike`).
-/

set_option autoImplicit false

namespace Yaldabaoth

namespace TranscriptLines

/-! ### Blocks -/

/-- The same lines are frozen in both transcripts, with the same text. -/
structure FrozenAlike (t t' : TranscriptLines) : Prop where
  frozen : t'.frozen = t.frozen
  text : ∀ i, t.isFrozen i = true → t'.lines[i]? = t.lines[i]?

variable {t t' : TranscriptLines}

theorem isFrozen_eq (h : t'.frozen = t.frozen) (i : Nat) : t'.isFrozen i = t.isFrozen i := by
  rw [isFrozen, isFrozen, h]

theorem FrozenAlike.isFrozen (h : FrozenAlike t t') (i : Nat) : t'.isFrozen i = t.isFrozen i :=
  isFrozen_eq h.frozen i

theorem FrozenAlike.trimmed (h : FrozenAlike t t') {i : Nat} (hi : t.isFrozen i = true) :
    t'.trimmed i = t.trimmed i := by
  simp only [TranscriptLines.trimmed, h.text i hi]

theorem lt_of_isFrozen {i : Nat} (h : t.isFrozen i = true) : i < t.lineCount := by
  obtain ⟨r, hr, -, hlt⟩ := isFrozen_iff.1 h
  have := (t.frozen_bounds r hr).2
  exact lt_of_lt_of_le hlt this

theorem isFrozen_below_turnEnd {start i : Nat} (h : t.isFrozen start = true) (hle : start ≤ i)
    (hlt : i < t.turnEnd start) : t.isFrozen i = true := by
  obtain ⟨f, hf, hstart, -, hend⟩ := turnEnd_spec h
  exact isFrozen_iff.2 ⟨f, hf, le_trans hstart hle, by omega⟩

theorem FrozenAlike.turnEnd (h : FrozenAlike t t') {start : Nat}
    (hstart : t.isFrozen start = true) : t'.turnEnd start = t.turnEnd start := by
  obtain ⟨r, hr, hin⟩ := isFrozen_iff.1 hstart
  rw [TranscriptLines.turnEnd, TranscriptLines.turnEnd, h.frozen]
  cases hfind : t.frozen.find? fun r => decide (r.1 ≤ start) && decide (start < r.2) with
  | none =>
      have hnone := List.find?_eq_none.1 hfind r hr
      simp [hin] at hnone
  | some f => rfl

theorem FrozenAlike.closingFence (h : FrozenAlike t t') {start : Nat}
    (hstart : t.isFrozen start = true) : t'.closingFence start = t.closingFence start := by
  rw [TranscriptLines.closingFence, TranscriptLines.closingFence, h.turnEnd hstart]
  refine List.find?_congr fun i hi => ?_
  have hi := List.mem_range'_1.1 hi
  rw [h.trimmed hstart, h.trimmed (isFrozen_below_turnEnd hstart (by omega) (by omega))]

/-- A scan that stops inside of a range does not see how long the range is. -/
theorem takeWhile_range' (p : Nat → Bool) (start n k : Nat) (h : p (start + n) = false) :
    (List.range' start (n + k)).takeWhile p = (List.range' start n).takeWhile p := by
  induction n generalizing start with
  | zero =>
      cases k with
      | zero => rfl
      | succ k => simp [List.range'_succ, show p start = false from h]
  | succ n ih =>
      rw [Nat.succ_add, List.range'_succ, List.range'_succ, List.takeWhile_cons,
        List.takeWhile_cons, ih (start + 1) (by rw [Nat.add_right_comm]; exact h)]

/-- The rows of a table end with the frozen lines. -/
theorem tableRows_eq (start n : Nat) (hn : t.lineCount ≤ start + n) :
    t.tableRows start = ((List.range' start n).takeWhile fun i =>
      t.isFrozen i && isTableRow (t.trimmed i)).length := by
  obtain ⟨k, hk⟩ : ∃ k, n = (t.lineCount - start) + k := ⟨n - (t.lineCount - start), by omega⟩
  have hstop : (t.isFrozen (start + (t.lineCount - start)) &&
      isTableRow (t.trimmed (start + (t.lineCount - start)))) = false := by
    cases hfrozen : t.isFrozen (start + (t.lineCount - start)) with
    | true =>
        have := lt_of_isFrozen hfrozen
        omega
    | false => rfl
  rw [tableRows, hk, takeWhile_range' _ start _ k hstop]

theorem FrozenAlike.tableRows (h : FrozenAlike t t') (start : Nat) :
    t'.tableRows start = t.tableRows start := by
  have hrow : (fun i => t'.isFrozen i && isTableRow (t'.trimmed i)) =
      fun i => t.isFrozen i && isTableRow (t.trimmed i) := by
    funext i
    rw [h.isFrozen]
    cases hi : t.isFrozen i with
    | true => rw [h.trimmed hi]
    | false => rfl
  rw [tableRows_eq (t := t') start (t.lineCount + t'.lineCount) (by omega),
    tableRows_eq (t := t) start (t.lineCount + t'.lineCount) (by omega), hrow]

theorem detectFrom_end {i : Nat} (h : ∀ j, i ≤ j → t.isFrozen j = false) (fuel : Nat) :
    t.detectFrom fuel i = [] := by
  induction fuel generalizing i with
  | zero => rfl
  | succ fuel ih =>
      rw [detectFrom, h i (le_refl i)]
      split
      · exact ih fun j hj => h j (by omega)
      · rfl

/-- A line that is not frozen is passed over, if there is one. -/
theorem detectFrom_skip {i : Nat} (h : t.isFrozen i = false) (fuel : Nat) :
    t.detectFrom (fuel + 1) i = t.detectFrom fuel (i + 1) := by
  rw [detectFrom, h]
  split
  · rfl
  · rename_i hi
    refine (detectFrom_end (fun j hj => ?_) fuel).symm
    cases hfrozen : t.isFrozen j with
    | true =>
        have := lt_of_isFrozen hfrozen
        omega
    | false => rfl

theorem FrozenAlike.detectFrom (h : FrozenAlike t t') (fuel i : Nat) :
    t'.detectFrom fuel i = t.detectFrom fuel i := by
  induction fuel generalizing i with
  | zero => rfl
  | succ fuel ih =>
      cases hi : t.isFrozen i with
      | false =>
          rw [detectFrom_skip hi, detectFrom_skip ((h.isFrozen i).trans hi), ih]
      | true =>
          have hi' : t'.isFrozen i = true := (h.isFrozen i).trans hi
          rw [TranscriptLines.detectFrom, TranscriptLines.detectFrom, if_pos (lt_of_isFrozen hi),
            if_pos (lt_of_isFrozen hi'), hi, hi', h.trimmed hi, h.closingFence hi, h.tableRows]
          simp only [ih]

/-- Turns of the loop behind the last line find nothing. -/
theorem detectFrom_add (n : Nat) : t.detectFrom (t.lineCount + n) 0 = t.detectBlockRanges := by
  induction n with
  | zero => rfl
  | succ n ih =>
      have hmore : t.detectFrom (t.lineCount + n + 1) 0 = t.detectFrom (t.lineCount + n) 0 :=
        detectFrom_enough (by omega)
      exact hmore.trans ih

theorem FrozenAlike.detectBlockRanges (h : FrozenAlike t t') :
    t'.detectBlockRanges = t.detectBlockRanges := by
  rw [← detectFrom_add (t := t') t.lineCount, ← detectFrom_add (t := t) t'.lineCount,
    Nat.add_comm t'.lineCount, h.detectFrom]

/-- The text of a range of frozen lines. -/
theorem FrozenAlike.slice (h : FrozenAlike t t') {r : Nat × Nat}
    (hr : ∀ l, r.1 ≤ l → l < r.2 → t.isFrozen l = true) :
    (t'.lines.drop r.1).take (r.2 - r.1) = (t.lines.drop r.1).take (r.2 - r.1) := by
  apply List.ext_getElem?
  intro k
  by_cases hk : k < r.2 - r.1
  · rw [List.getElem?_take_of_lt hk, List.getElem?_take_of_lt hk, List.getElem?_drop,
      List.getElem?_drop, h.text _ (hr _ (by omega) (by omega))]
  · rw [List.getElem?_take_eq_none (by omega), List.getElem?_take_eq_none (by omega)]

theorem FrozenAlike.resolve {β : Type} (h : FrozenAlike t t')
    (parse : List (List Char) → Option β) :
    ViewModel.resolve t' parse = ViewModel.resolve t parse := by
  rw [ViewModel.resolve, ViewModel.resolve, h.detectBlockRanges]
  refine List.map_congr_left fun r hr => ?_
  rw [h.slice ((detectBlockRanges_spec t).1 r hr).frozen]

/-! ### Lines -/

/-- Both transcripts have as many lines, with the same marks. -/
structure Alike (t t' : TranscriptLines) : Prop where
  lineCount : t'.lineCount = t.lineCount
  frozen : t'.frozen = t.frozen
  tag : ∀ i, t'.tag i = t.tag i
  blank : ∀ i, t'.isBlank i = t.isBlank i

theorem Alike.refl (t : TranscriptLines) : Alike t t := ⟨rfl, rfl, fun _ => rfl, fun _ => rfl⟩

theorem Alike.isFrozen (h : Alike t t') (i : Nat) : t'.isFrozen i = t.isFrozen i :=
  isFrozen_eq h.frozen i

theorem Alike.latestTurn (h : Alike t t') : t'.latestTurn = t.latestTurn := by
  simp only [TranscriptLines.latestTurn, h.lineCount, h.tag]

theorem Alike.youBlockAnchorIsLegal (h : Alike t t') (l : Nat) :
    t'.youBlockAnchorIsLegal l = t.youBlockAnchorIsLegal l := by
  simp only [TranscriptLines.youBlockAnchorIsLegal, h.lineCount, h.tag, h.latestTurn]

end TranscriptLines

/-! ### The list -/

namespace ViewModel

open TranscriptLines

variable {κ β : Type} {t t' : TranscriptLines}

theorem runNonEmpty_congr (h : Alike t t') (l : Nat) : runNonEmpty t' l = runNonEmpty t l := by
  simp only [runNonEmpty, h.lineCount, h.tag, h.blank]

theorem headerAt_congr (h : Alike t t') (prev : Option TurnId) (l : Nat) :
    headerAt t' prev l = headerAt t prev l := by
  simp only [headerAt, h.tag, runNonEmpty_congr h]

/-- Both have the same calls at each line. -/
def SameTools (tools : ToolCalls κ t.lineCount) (tools' : ToolCalls κ t'.lineCount) : Prop :=
  ∀ l, toolsAtLine t' tools' l = toolsAtLine t tools l

theorem flatLoop_congr (h : Alike t t') {tools : ToolCalls κ t.lineCount}
    {tools' : ToolCalls κ t'.lineCount} (htools : SameTools tools tools')
    (prev : Option TurnId) (blocks : List (ResolvedBlock β)) (ls : List Nat) :
    flatLoop t' tools' prev blocks ls = flatLoop t tools prev blocks ls := by
  induction ls generalizing prev blocks with
  | nil => rfl
  | cons l ls ih =>
      simp only [flatLoop, headerAt_congr h, toolGroupAt, htools l, ih]

theorem keeps_congr (h : Alike t t') (protect : Option Nat)
    (before : Option (FlatItem κ β × Bool)) (item : FlatItem κ β)
    (behind : Option (FlatItem κ β)) :
    keeps t' protect before item behind = keeps t protect before item behind := by
  have hblank (item : FlatItem κ β) : isBlankLine t' protect item = isBlankLine t protect item := by
    cases item <;> simp only [isBlankLine, h.blank]
  have hfrozen : isFrozenLine t' item = isFrozenLine t item := by
    cases item <;> simp only [isFrozenLine, h.isFrozen]
  simp only [keeps, hblank, hfrozen]

theorem collapseFrom_congr (h : Alike t t') (protect : Option Nat)
    (before : Option (FlatItem κ β × Bool)) (items : List (FlatItem κ β)) :
    collapseFrom t' protect before items = collapseFrom t protect before items := by
  induction items generalizing before with
  | nil => rfl
  | cons item items ih => simp only [collapseFrom, keeps_congr h, ih]

/-- Both surfaces ask for the same blocks, and protect the same line. -/
structure SameSurface (s s' : AgentSurface) : Prop where
  chatbox : s'.chatbox = s.chatbox
  awaiting : s'.turnPhase.isAwaiting = s.turnPhase.isAwaiting
  active : s'.inlineYouBlockActive = s.inlineYouBlockActive
  anchor : s'.youBlockAnchor = s.youBlockAnchor
  parked : s'.parked = s.parked
  protect : s'.protectLine = s.protectLine

theorem inserts_congr (h : Alike t t') {s s' : AgentSurface} (hs : SameSurface s s')
    (items : List (FlatItem κ β)) : inserts t' s' items = inserts t s items := by
  simp only [inserts, AgentSurface.effectiveYouBlockAnchor, h.youBlockAnchorIsLegal, hs.active,
    hs.anchor, hs.parked]

theorem flatItemsWith_congr (h : Alike t t') {tools : ToolCalls κ t.lineCount}
    {tools' : ToolCalls κ t'.lineCount} (htools : SameTools tools tools') {s s' : AgentSurface}
    (hs : SameSurface s s') (resolved : List (ResolvedBlock β)) :
    flatItemsWith t' tools' s' resolved = flatItemsWith t tools s resolved := by
  simp only [flatItemsWith, insertYouBlocks, h.lineCount, flatLoop_congr h htools,
    collapseFrom_congr h, inserts_congr h hs, hs.protect, hs.awaiting, hs.chatbox]

theorem buildNavStops_congr (h : Alike t t') (items : List (FlatItem κ β)) :
    buildNavStops t' items = buildNavStops t items := by
  simp only [buildNavStops, h.lineCount, h.isFrozen, h.blank]

end ViewModel

end Yaldabaoth
