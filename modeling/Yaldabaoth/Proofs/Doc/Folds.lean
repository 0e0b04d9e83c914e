import Yaldabaoth.Proofs.Doc.FoldLayout

/-!
# `Yaldabaoth.Proofs.Doc.Folds`: folding commands and the cursor

Every command ends in `refold`, so the layout is always that of the
folds, and a cursor that a fold hides goes up to the heading of the fold.
A cursor behind the last block is not hidden in the layout: `refold`
leaves it there. `KeepsRoom` says of a command that it does not take the
block of the cursor away.
-/

set_option autoImplicit false

namespace Yaldabaoth

namespace DocState

def InSync (d : DocState) : Prop := d.foldLayout = FoldLayout.compute d.blocks d.foldKey d.folds

/-- The cursor is on a block that is painted, where there are blocks. -/
def CursorPainted (d : DocState) : Prop :=
  d.blocks ≠ [] → d.cursorBlock < d.blocks.length ∧ d.isBlockHidden d.cursorBlock = false

/-! ### The layout again -/

@[simp] theorem refold_folds (d : DocState) : d.refold.folds = d.folds := rfl

theorem refold_inSync (d : DocState) : d.refold.InSync := rfl

theorem InSync.laysOut {d : DocState} (h : d.InSync) :
    FoldLayout.LaysOut d.blocks d.foldKey d.folds d.foldLayout := by
  rw [h]
  exact FoldLayout.compute_laysOut _ _ _

theorem InSync.hidden_lt {d : DocState} (h : d.InSync) {i : Nat} (hi : d.isBlockHidden i = true) :
    i < d.blocks.length := by
  rw [isBlockHidden, h] at hi
  exact FoldLayout.isHidden_lt hi

theorem refold_cursorPainted {d : DocState} (h : d.blocks ≠ [] → d.cursorBlock < d.blocks.length) :
    d.refold.CursorPainted := by
  intro hblocks
  have hcursor := h hblocks
  have hlaysOut := d.refold_inSync.laysOut
  have hhidden : d.refold.foldLayout = FoldLayout.compute d.blocks d.foldKey d.folds := rfl
  cases hat : (FoldLayout.compute d.blocks d.foldKey d.folds).isHidden d.cursorBlock with
  | false =>
      have hsame : d.refold.cursorBlock = d.cursorBlock := by simp [refold, hat]
      rw [hsame, isBlockHidden, hhidden]
      exact ⟨hcursor, hat⟩
  | true =>
      obtain ⟨j, habove, -, -⟩ := hlaysOut.exists_owner (i := d.cursorBlock) hcursor hat
      have hmoved : d.refold.cursorBlock = j := by
        have habove : (FoldLayout.compute d.blocks d.foldKey d.folds).paintedAbove d.cursorBlock =
            some j := habove
        simp [refold, hat, habove]
      obtain ⟨hlt, hpainted, -⟩ := FoldLayout.paintedAbove_eq_some.1 habove
      rw [hmoved]
      exact ⟨Nat.lt_trans hlt hcursor, hpainted⟩

/-- Behind the last block the cursor stays where it is. -/
theorem refold_cursor_beyond {d : DocState} (h : d.blocks.length ≤ d.cursorBlock) :
    d.refold.cursorBlock = d.cursorBlock := by
  cases hat : (FoldLayout.compute d.blocks d.foldKey d.folds).isHidden d.cursorBlock with
  | false => simp [refold, hat]
  | true =>
      have := FoldLayout.isHidden_lt hat
      omega

/-! ### Opening what hides a block -/

theorem revealRound_none {d : DocState} {i : Nat} (h : d.isBlockHidden i = false) :
    d.revealRound i = none := by
  rw [revealRound, h]
  rfl

theorem InSync.revealRound {d : DocState} (h : d.InSync) {i : Nat}
    (hi : d.isBlockHidden i = true) :
    ∃ j, d.folds.contains (d.foldKey j) = true ∧ InSection d.blocks j i ∧
      d.revealRound i = some (refold { d with folds := d.folds.erase (d.foldKey j) }) := by
  obtain ⟨j, habove, hfolded, hsection⟩ := h.laysOut.exists_owner (h.hidden_lt hi) hi
  refine ⟨j, hfolded, hsection, ?_⟩
  simp [DocState.revealRound, hi, habove, hfolded]

/-- The document after `reveal_fold`. -/
structure Revealed (d : DocState) (i : Nat) (r : DocState) : Prop where
  blocks : r.blocks = d.blocks
  spans : r.spans = d.spans
  inSync : r.InSync
  ended : r.revealRound i = none
  painted : r.isBlockHidden i = false
  kept : ∀ (k : Nat) (identity : HeadingIdentity), r.folds[k]? = some identity → d.folds[k]? = some identity
  removed : ∀ k : Nat, d.folds.contains k = true → r.folds.contains k = false →
    ∃ j, d.foldKey j = k ∧ InSection d.blocks j i

theorem revealRounds_revealed (i : Nat) (n : Nat) : ∀ {d : DocState}, d.InSync → d.folds.size ≤ n →
    Revealed d i (revealRounds i n d) := by
  induction n with
  | zero =>
      intro d hsync hsize
      have hpainted : d.isBlockHidden i = false := by
        cases hhidden : d.isBlockHidden i with
        | false => rfl
        | true =>
            obtain ⟨j, hfolded, -, -⟩ := hsync.revealRound hhidden
            have hempty : d.folds.isEmpty = true := by
              rw [Std.TreeMap.isEmpty_eq_size_eq_zero]
              simpa using hsize
            rw [Std.TreeMap.contains_of_isEmpty hempty] at hfolded
            cases hfolded
      exact ⟨rfl, rfl, hsync, revealRound_none hpainted, hpainted, fun _ _ h => h,
        fun k hk hnot => absurd (hk.symm.trans hnot) (by simp)⟩
  | succ n ih =>
      intro d hsync hsize
      rw [revealRounds]
      cases hhidden : d.isBlockHidden i with
      | false =>
          rw [revealRound_none hhidden]
          exact ⟨rfl, rfl, hsync, revealRound_none hhidden, hhidden, fun _ _ h => h,
            fun k hk hnot => absurd (hk.symm.trans hnot) (by simp)⟩
      | true =>
          obtain ⟨j, hfolded, hsection, hround⟩ := hsync.revealRound hhidden
          rw [hround]
          have hless : (d.folds.erase (d.foldKey j)).size ≤ n := by
            rw [Std.TreeMap.size_erase, if_pos hfolded]
            omega
          have hrest := ih (refold_inSync { d with folds := d.folds.erase (d.foldKey j) }) hless
          refine ⟨hrest.blocks, hrest.spans, hrest.inSync, hrest.ended, hrest.painted, ?_, ?_⟩
          · intro k identity hk
            have hk := hrest.kept k identity hk
            simp only [refold_folds, Std.TreeMap.getElem?_erase] at hk
            split at hk
            · cases hk
            · exact hk
          · intro k hk hnot
            by_cases hjk : d.foldKey j = k
            · exact ⟨j, hjk, hsection⟩
            · -- another fold that goes, goes in a later round
              refine hrest.removed k ?_ hnot
              simpa [Std.TreeMap.contains_erase, hjk] using hk

theorem revealFold_revealed {d : DocState} (h : d.InSync) (i : Nat) :
    Revealed d i (d.revealFold i) :=
  revealRounds_revealed i _ h (Nat.le_refl _)

/-! ### Commands -/

/-- The command leaves a block where the cursor is, or no block at all. -/
def KeepsRoom (d : DocState) : FoldCommand → Prop
  | .setBlocks r => r.blocks ≠ [] → d.cursorBlock < r.blocks.length
  | _ => True

/-- What is true along a run. -/
structure Kept (d : DocState) : Prop where
  inSync : d.InSync
  cursor : d.CursorPainted

theorem kept_refold {d : DocState} (h : d.blocks ≠ [] → d.cursorBlock < d.blocks.length) :
    Kept d.refold :=
  ⟨d.refold_inSync, refold_cursorPainted h⟩

theorem Kept.in_range {d : DocState} (h : Kept d) (hblocks : d.blocks ≠ []) :
    d.cursorBlock < d.blocks.length :=
  (h.cursor hblocks).1

theorem Kept.toggleFoldAtCursor {d : DocState} (h : Kept d) : Kept d.toggleFoldAtCursor.2 := by
  rw [DocState.toggleFoldAtCursor]
  split
  · exact h
  · split
    · exact kept_refold h.in_range
    · split
      · exact h
      · split
        · exact h
        · exact kept_refold h.in_range

theorem Kept.moveCursorTo {d : DocState} (h : Kept d) (target : Nat) :
    Kept (d.moveCursorTo target).2 := by
  rw [DocState.moveCursorTo]
  split
  · exact h
  · next hlength =>
    have hrevealed := revealFold_revealed h.inSync (min target (d.blocks.length - 1))
    refine ⟨hrevealed.inSync, fun _ => ⟨?_, hrevealed.painted⟩⟩
    show min target (d.blocks.length - 1) < (d.revealFold _).blocks.length
    rw [hrevealed.blocks]
    omega

theorem Kept.perform {d : DocState} (h : Kept d) {command : FoldCommand}
    (hroom : KeepsRoom d command) : Kept (d.perform command) := by
  cases command with
  | toggleFoldAtCursor => exact h.toggleFoldAtCursor
  | foldAll => exact kept_refold h.in_range
  | unfoldAll => exact kept_refold h.in_range
  | setBlocks r => exact kept_refold hroom
  | moveCursorTo target => exact h.moveCursorTo target

/-- Where a command takes the block of the cursor away, the cursor stays
behind the last block. -/
theorem perform_strands {d : DocState} {command : FoldCommand} (h : ¬ KeepsRoom d command) :
    ¬ (d.perform command).CursorPainted := by
  cases command with
  | setBlocks r =>
      simp only [KeepsRoom, Classical.not_imp, Nat.not_lt] at h
      obtain ⟨hblocks, hbeyond⟩ := h
      intro hpainted
      obtain ⟨hlt, -⟩ := hpainted hblocks
      have hstays := refold_cursor_beyond
        (d := { d with blocks := r.blocks, spans := r.spans, folds := (d.setBlocks r).folds })
        hbeyond
      have hcursor : (d.setBlocks r).cursorBlock = d.cursorBlock := hstays
      have hlength : d.cursorBlock < r.blocks.length := by
        rw [← hcursor]
        exact hlt
      omega
  | _ => exact absurd trivial h

/-- Folds hide sections, a jump opens what hides its target, and along a
run the cursor is on a painted block exactly when no new text leaves it
without a block. -/
theorem folds_hide_sections (blocks : List RenderedBlock) (key : Nat → Nat)
    (folds : DocFolds) (d : DocState) (i : Nat) (r : Rendered) (commands : List FoldCommand) :
    FoldLayout.LaysOut blocks key folds (FoldLayout.compute blocks key folds) ∧
    Revealed d.refold i (d.refold.revealFold i) ∧
    ((∀ front back d, commands = front ++ back →
        machine.run (viewing r) front = some d → d.CursorPainted) ↔
      machine.Obeys KeepsRoom (viewing r) commands) := by
  refine ⟨FoldLayout.compute_laysOut blocks key folds, revealFold_revealed d.refold_inSync i, ?_⟩
  refine Machine.run_good_iff_obeys (fun d (h : Kept d) => h.cursor) ?_ ?_ commands ?_
  · intro d command d' h hroom hstep
    obtain rfl := Option.some.inj hstep
    exact h.perform hroom
  · intro d command _ hroom
    exact ⟨_, rfl, perform_strands hroom⟩
  · exact kept_refold fun hblocks => List.length_pos_iff.2 hblocks

/-- The cursor is on the third block, and a new text has one. -/
theorem cursor_behind_text : ¬ ∀ d, machine.Reachable d → d.CursorPainted := by
  intro hall
  have hsome : (machine.run (viewing ⟨[.heading 1 "One", .other, .other], []⟩)
      [.moveCursorTo 2, .setBlocks ⟨[.heading 1 "One"], []⟩]).map
      (fun d => (d.cursorBlock, d.blocks)) = some (2, [.heading 1 "One"]) := by
    decide
  obtain ⟨d, hrun, hd⟩ := Option.map_eq_some_iff.1 hsome
  obtain ⟨hcursor, hblocks⟩ := Prod.mk.inj hd
  have hpainted := hall d (Machine.reachable_of_run ⟨_, rfl⟩ hrun)
  obtain ⟨hlt, -⟩ := hpainted (by rw [hblocks]; simp)
  rw [hcursor, hblocks] at hlt
  exact absurd hlt (by decide)

end DocState

end Yaldabaoth
