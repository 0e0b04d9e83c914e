import Yaldabaoth.Model.StreamedText
import Yaldabaoth.Proofs.Buffer.FrozenText

/-!
# `Yaldabaoth.Proofs.View.Streamed`: what is written into a transcript fits it

The frozen ranges and the anchors of a transcript stay on its lines,
whatever the program writes (`Editor.Fits`), and a text is at least as many
lines further on afterwards.
-/

set_option autoImplicit false

namespace Yaldabaoth

open Rope Spans

variable {μ : Type}

namespace Editor

/-- The frozen ranges and the anchors are on lines of the text. -/
structure Fits (ed : Editor Char μ) : Prop where
  frozen_sorted : Sorted ed.core.frozenLines
  frozen_bounds : ∀ r ∈ ed.core.frozenLines, r.2 ≤ lenLines ed.rope
  anchor_bounds : ∀ p ∈ ed.core.lineAnchors.byLine, p.1 < lenLines ed.rope

/-! ### Splices -/

@[simp] theorem spliceInsert_core (ed : Editor Char μ) (charIdx : Nat) (text : List Char) :
    (ed.spliceInsert charIdx text).core = ed.core.programmaticInsert charIdx text := by
  simp only [spliceInsert]
  split <;> (try split) <;> (try split) <;> rfl

theorem rope_spliceInsert (ed : Editor Char μ) (charIdx : Nat) (text : List Char) :
    (ed.spliceInsert charIdx text).rope =
      Rope.insert ed.rope (min charIdx ed.rope.length) text := by
  rw [rope, spliceInsert_core]
  exact EditorCore.insert_rope ed.core charIdx text

theorem lenLines_spliceInsert (ed : Editor Char μ) (charIdx : Nat) (text : List Char) :
    lenLines (ed.spliceInsert charIdx text).rope = lenLines ed.rope + countNl text := by
  have hsplit := congrArg countNl (List.take_append_drop (min charIdx ed.rope.length) ed.rope)
  rw [countNl_append] at hsplit
  rw [rope_spliceInsert, Rope.insert, lenLines, lenLines, countNl_append, countNl_append]
  omega

/-- An anchor moves down by no more than the line breaks that come in. -/
theorem insertedLine_le (effLine effCol insertedNl line : Nat) :
    LineAnchorStore.insertedLine effLine effCol insertedNl line ≤ line + insertedNl := by
  simp only [LineAnchorStore.insertedLine]
  split <;> split <;> omega

theorem anchors_shiftFrozenAt (core : EditorCore Char μ) (effLine effCol insertedNl bound : Nat)
    (h : ∀ p ∈ core.lineAnchors.byLine, p.1 < bound) :
    ∀ p ∈ (core.shiftFrozenAt effLine effCol insertedNl).lineAnchors.byLine,
      p.1 < bound + insertedNl := by
  intro p hp
  obtain ⟨q, hq, heq⟩ := List.mem_filterMap.1 hp
  obtain ⟨l, hl, rfl⟩ := Option.map_eq_some_iff.1 heq
  have hle := insertedLine_le effLine effCol insertedNl q.1
  have := h q hq
  rw [← Option.some.inj hl]
  show LineAnchorStore.insertedLine effLine effCol insertedNl q.1 < bound + insertedNl
  omega

theorem frozen_shiftFrozenAt (core : EditorCore Char μ) (effLine effCol insertedNl bound : Nat)
    (hsorted : Sorted core.frozenLines) (h : ∀ r ∈ core.frozenLines, r.2 ≤ bound) :
    ∀ r ∈ (core.shiftFrozenAt effLine effCol insertedNl).frozenLines,
      r.2 ≤ bound + insertedNl := by
  intro part hpart
  obtain ⟨r, hr, hpart⟩ := List.mem_flatMap.1 hpart
  have := h r hr
  have := (mem_insertedRange (hsorted.nonempty r hr) hpart).2.1
  omega

theorem Fits.spliceInsert {ed : Editor Char μ} (h : ed.Fits) (charIdx : Nat) (text : List Char) :
    (ed.spliceInsert charIdx text).Fits := by
  have hlen := lenLines_spliceInsert ed charIdx text
  -- the shift is made at one of two places, or not at all
  have hshift : (ed.spliceInsert charIdx text).core.frozenLines = ed.core.frozenLines ∧
        (ed.spliceInsert charIdx text).core.lineAnchors = ed.core.lineAnchors ∨
      ∃ effLine effCol, (ed.spliceInsert charIdx text).core.frozenLines =
          (ed.core.shiftFrozenAt effLine effCol (countNl text)).frozenLines ∧
        (ed.spliceInsert charIdx text).core.lineAnchors =
          (ed.core.shiftFrozenAt effLine effCol (countNl text)).lineAnchors := by
    rw [spliceInsert_core, EditorCore.programmaticInsert, EditorCore.shiftFrozenLinesForInsert]
    split
    · exact .inl ⟨rfl, rfl⟩
    · split
      · exact .inr ⟨_, _, rfl, rfl⟩
      · exact .inr ⟨_, _, rfl, rfl⟩
  rcases hshift with ⟨hfrozen, hanchors⟩ | ⟨effLine, effCol, hfrozen, hanchors⟩
  · constructor
    · rw [hfrozen]
      exact h.frozen_sorted
    · intro r hr
      rw [hfrozen] at hr
      have := h.frozen_bounds r hr
      omega
    · intro p hp
      rw [hanchors] at hp
      have := h.anchor_bounds p hp
      omega
  · constructor
    · rw [hfrozen]
      exact sorted_inserted h.frozen_sorted effLine effCol (countNl text)
    · rw [hfrozen, hlen]
      exact frozen_shiftFrozenAt ed.core _ _ _ _ h.frozen_sorted h.frozen_bounds
    · rw [hanchors, hlen]
      exact anchors_shiftFrozenAt ed.core _ _ _ _ h.anchor_bounds

/-! ### Freezing and tagging -/

theorem anchors_allocate {st : LineAnchorStore} {l bound : Nat} (hl : l < bound)
    (h : ∀ p ∈ st.byLine, p.1 < bound) : ∀ p ∈ (st.allocate l).2.byLine, p.1 < bound := by
  rw [LineAnchorStore.allocate]
  split
  · exact h
  · intro p hp
    rcases List.mem_append.1 hp with hp | hp
    · exact h p (List.mem_filter.1 hp).1
    · rcases List.mem_cons.1 hp with rfl | hp
      · exact hl
      · exact h p (List.mem_filter.1 hp).1

/-- Tags say nothing about text and frozen ranges. -/
theorem tagLines_same (core : EditorCore Char μ) (start stop : Nat) (tag : μ) :
    (core.tagLines start stop tag).document = core.document ∧
      (core.tagLines start stop tag).frozenLines = core.frozenLines := by
  rw [EditorCore.tagLines]
  generalize List.range' start (stop - start) = ls
  induction ls generalizing core with
  | nil => exact ⟨rfl, rfl⟩
  | cons l ls ih => exact ih ((core.anchorForLine l).2.insertMetadata (core.anchorForLine l).1 tag)

theorem anchors_tagLines {core : EditorCore Char μ} {start stop bound : Nat} (tag : μ)
    (hstop : stop ≤ bound) (h : ∀ p ∈ core.lineAnchors.byLine, p.1 < bound) :
    ∀ p ∈ (core.tagLines start stop tag).lineAnchors.byLine, p.1 < bound := by
  rw [EditorCore.tagLines]
  have hls : ∀ l ∈ List.range' start (stop - start), l < bound := by
    intro l hl
    have := List.mem_range'_1.1 hl
    omega
  generalize List.range' start (stop - start) = ls at hls
  induction ls generalizing core with
  | nil => exact h
  | cons l ls ih =>
      apply ih
      · exact anchors_allocate (hls l List.mem_cons_self) h
      · exact fun l' hl' => hls l' (List.mem_cons_of_mem _ hl')

/-- What is frozen is frozen up to the same bound, if what comes to it is. -/
theorem bounds_add {ranges : List (Nat × Nat)} (h : Sorted ranges) {range : Nat × Nat} {bound : Nat}
    (hrange : range.1 < range.2) (hle : range.2 ≤ bound) (hbounds : ∀ r ∈ ranges, r.2 ≤ bound) :
    ∀ r ∈ Spans.add range ranges, r.2 ≤ bound := by
  intro r hr
  have hadd := h.add hrange
  have hnonempty := hadd.1.nonempty r hr
  -- the last line of the range was frozen, or comes in
  rcases (hadd.2 (r.2 - 1)).1 ⟨r, hr, ⟨by omega, by omega⟩⟩ with ⟨s, hs, hin⟩ | hin
  · have := hbounds s hs
    have := hin.2
    omega
  · have := hin.2
    omega

@[simp] theorem rope_freezeLines (ed : Editor Char μ) (start stop : Nat) (tag : μ) :
    (ed.freezeLines start stop tag).rope = ed.rope := by
  show ((ed.core.addFrozenLines start stop).tagLines start stop tag).document.rope = _
  rw [(tagLines_same _ _ _ _).1, EditorCore.addFrozenLines]
  split <;> rfl

theorem frozenLines_freezeLines (ed : Editor Char μ) (start stop : Nat) (tag : μ) :
    (ed.freezeLines start stop tag).core.frozenLines =
      (ed.core.addFrozenLines start stop).frozenLines :=
  (tagLines_same _ _ _ _).2

theorem Fits.freezeLines {ed : Editor Char μ} (h : ed.Fits) (start : Nat) {stop : Nat} (tag : μ)
    (hstop : stop ≤ lenLines ed.rope) : (ed.freezeLines start stop tag).Fits := by
  constructor
  · rw [frozenLines_freezeLines, EditorCore.addFrozenLines]
    split
    · exact h.frozen_sorted
    · exact (h.frozen_sorted.add (by dsimp only; omega)).1
  · rw [frozenLines_freezeLines, rope_freezeLines, EditorCore.addFrozenLines]
    split
    · exact h.frozen_bounds
    · exact bounds_add h.frozen_sorted (by dsimp only; omega) hstop h.frozen_bounds
  · rw [rope_freezeLines]
    refine anchors_tagLines tag hstop ?_
    rw [EditorCore.addFrozenLines]
    split
    · exact h.anchor_bounds
    · exact h.anchor_bounds

/-! ### What the program writes -/

theorem Fits.endedByNl {ed : Editor Char μ} (h : ed.Fits) : ed.endedByNl.Fits := by
  rw [Editor.endedByNl]
  split
  · exact h.spliceInsert _ _
  · exact h

theorem lenLines_endedByNl (ed : Editor Char μ) :
    lenLines ed.rope ≤ lenLines ed.endedByNl.rope := by
  rw [Editor.endedByNl]
  split
  · rw [lenLines_spliceInsert]
    exact Nat.le_add_right _ _
  · exact le_refl _

theorem Fits.chunkPlace [DecidableEq μ] {ed : Editor Char μ} (h : ed.Fits) (tag : μ)
    (chunk : List Char) (floorChar : Nat) : (ed.chunkPlace tag chunk floorChar).1.Fits := by
  simp only [Editor.chunkPlace]
  split
  · exact h
  · split
    · exact h
    · exact h.spliceInsert _ _

/-- The lines of a chunk are lines of the text. -/
theorem chunkLines_le (ed : Editor Char μ) (insertionChar : Nat) (chunk : List Char) :
    (ed.chunkLines insertionChar chunk).2 ≤ lenLines ed.rope := by
  have hlt := charToLine_lt_lenLines ed.rope (min (insertionChar + chunk.length) ed.rope.length)
  simp only [chunkLines, lineColOfChar]
  split <;> omega

theorem Fits.setCachedLlmLine {ed : Editor Char μ} (h : ed.Fits) (l : Nat) (isOpen : Bool) :
    (ed.withCore (ed.core.setCachedLlmLine l isOpen)).Fits :=
  ⟨h.frozen_sorted, h.frozen_bounds, h.anchor_bounds⟩

theorem Fits.clearCachedLlmLine {ed : Editor Char μ} (h : ed.Fits) :
    (ed.withCore ed.core.clearCachedLlmLine).Fits :=
  ⟨h.frozen_sorted, h.frozen_bounds, h.anchor_bounds⟩

theorem Fits.appendLlmChunkFloored [DecidableEq μ] {ed : Editor Char μ} (h : ed.Fits) (tag : μ)
    (chunk : List Char) (floorChar : Nat) :
    (ed.appendLlmChunkFloored tag chunk floorChar).Fits := by
  rw [Editor.appendLlmChunkFloored]
  split
  · exact h
  · have hwritten := (h.chunkPlace tag chunk floorChar).spliceInsert
      (ed.chunkPlace tag chunk floorChar).2 chunk
    have hfrozen (start : Nat) := hwritten.freezeLines start tag
      (chunkLines_le ((ed.chunkPlace tag chunk floorChar).1.spliceInsert
        (ed.chunkPlace tag chunk floorChar).2 chunk) (ed.chunkPlace tag chunk floorChar).2 chunk)
    dsimp only
    split
    · exact (hfrozen _).setCachedLlmLine _ _
    · exact hfrozen _

theorem Fits.freezeAsUserTurn [DecidableEq μ] {ed : Editor Char μ} (h : ed.Fits)
    (text : List Char) (tag : μ) :
    (ed.freezeAsUserTurn text tag).Fits := by
  simp only [Editor.freezeAsUserTurn]
  split
  · exact ((h.endedByNl.spliceInsert _ _).spliceInsert _ _).freezeLines _ tag (le_refl _)
  · exact (h.endedByNl.spliceInsert _ _).freezeLines _ tag (le_refl _)

theorem Fits.freezeAsUserTurnAt [DecidableEq μ] {ed : Editor Char μ} (h : ed.Fits) (afterLine : Nat)
    (text : List Char) (tag : μ) : (ed.freezeAsUserTurnAt afterLine text tag).Fits := by
  rw [Editor.freezeAsUserTurnAt]
  split
  · exact h.freezeAsUserTurn text tag
  · refine (h.spliceInsert _ _).freezeLines _ tag ?_
    rw [lenLines_spliceInsert]
    omega

theorem Fits.lineForNewToolCall {ed : Editor Char μ} (h : ed.Fits) (floorChar : Nat) :
    (ed.lineForNewToolCall floorChar).2.Fits ∧
      (ed.lineForNewToolCall floorChar).1 < lenLines (ed.lineForNewToolCall floorChar).2.rope := by
  rw [Editor.lineForNewToolCall]
  split
  · refine ⟨h.spliceInsert _ _, ?_⟩
    have := charToLine_lt_lenLines ed.rope floorChar
    dsimp only
    rw [lenLines_spliceInsert]
    omega
  · refine ⟨h.endedByNl.spliceInsert _ _, ?_⟩
    dsimp only
    rw [lenLines]
    omega

theorem Fits.anchorForLine {ed : Editor Char μ} (h : ed.Fits) {l : Nat}
    (hl : l < lenLines ed.rope) : (ed.withCore (ed.core.anchorForLine l).2).Fits :=
  ⟨h.frozen_sorted, h.frozen_bounds, anchors_allocate hl h.anchor_bounds⟩

theorem Fits.insertMetadata {ed : Editor Char μ} (h : ed.Fits) (a : LineAnchor) (tag : μ) :
    (ed.withCore (ed.core.insertMetadata a tag)).Fits :=
  ⟨h.frozen_sorted, h.frozen_bounds, h.anchor_bounds⟩

theorem Fits.anchorForNewToolCall {ed : Editor Char μ} (h : ed.Fits) (floorChar : Nat) :
    (ed.anchorForNewToolCall floorChar).2.Fits :=
  (h.lineForNewToolCall floorChar).1.anchorForLine (h.lineForNewToolCall floorChar).2

theorem Fits.appendSystemLine {ed : Editor Char TurnId} (h : ed.Fits) (text : List Char) :
    (ed.appendSystemLine text).Fits :=
  h.endedByNl.appendLlmChunkFloored _ _ _

/-- An anchor that is found is on a line. -/
theorem Fits.lineFor_lt {ed : Editor Char μ} (h : ed.Fits) {a : LineAnchor} {l : Nat}
    (ha : ed.core.lineForAnchor a = some l) : l < lenLines ed.rope := by
  obtain ⟨p, hp, rfl⟩ := Option.map_eq_some_iff.1 ha
  exact h.anchor_bounds p (List.mem_of_find?_eq_some hp)

end Editor

end Yaldabaoth
