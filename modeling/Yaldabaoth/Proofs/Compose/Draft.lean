import Yaldabaoth.Proofs.Compose.Rows

/-!
# `Yaldabaoth.Proofs.Compose.Draft`: the caret of a draft

The visual row of the caret, from the row counts that `render_snapshot`
keeps, is the one that all rows give, and the item behind it is the caret's
line (`draft_caret`). The cache is keyed by `edit_seq`, so it holds the
lines of the draft as long as that counter does not come round
(`Current.act`).
-/

set_option autoImplicit false

namespace Yaldabaoth

namespace Compose

open Rope

variable {charCells : Char → Nat}

/-! ### Row counts -/

theorem wrapFrom_ne_nil (line : List Char) (width : Nat) (hwidth : 0 < width) (s : Nat)
    (hs : s ≤ line.length) : wrapFrom charCells line width hwidth s hs ≠ [] := by
  rw [wrapFrom]
  split
  · exact List.cons_ne_nil _ _
  · exact List.cons_ne_nil _ _

theorem wrapLineCols_ne_nil (line : List Char) (width : Nat) :
    wrapLineCols charCells line width ≠ [] := by
  rw [wrapLineCols]
  split
  · exact List.cons_ne_nil _ _
  · exact wrapFrom_ne_nil line _ _ 0 _

theorem caretVisualRow_lt {rows : List (Nat × Nat)} (hne : rows ≠ []) (col : Nat) :
    caretVisualRow rows col < rows.length := by
  have hlen := List.length_pos_of_ne_nil hne
  rw [caretVisualRow]
  cases hfind : rows.findIdx? fun row => row.1 ≤ col && col < row.2 with
  | some k => exact (List.findIdx?_eq_some_iff_getElem.1 hfind).1
  | none =>
      dsimp only [Option.getD_none]
      omega

variable (charCells) in
/-- The rows of each line. -/
def rowCounts (wrapCols : Nat) (lines : List (List Char)) : List Nat :=
  lines.map fun line => (wrapLineCols charCells line wrapCols).length

/-- The lines behind the caret's line add nothing. -/
theorem visualMetricsFrom_behind {caretLine i : Nat} (caretCol wrapCols : Nat)
    (lines : List (List Char)) (h : caretLine < i) :
    (visualMetricsFrom charCells caretLine caretCol wrapCols lines i).1 = 0 := by
  induction lines generalizing i with
  | nil => rfl
  | cons line lines ih =>
      rw [visualMetricsFrom]
      dsimp only
      rw [ih (Nat.lt_succ_of_lt h), if_neg (by omega), if_neg (by omega)]

/-- The caret's line is `ahead` lines further. -/
theorem visualMetricsFrom_caret (charCells : Char → Nat) (caretCol wrapCols : Nat) (lines : List (List Char))
    (i ahead : Nat) :
    (visualMetricsFrom charCells (i + ahead) caretCol wrapCols lines i).1 =
      ((rowCounts charCells wrapCols lines).take ahead).sum +
        (lines[ahead]?.map fun line =>
          caretVisualRow (wrapLineCols charCells line wrapCols) caretCol).getD 0 := by
  induction lines generalizing i ahead with
  | nil => simp [visualMetricsFrom, rowCounts]
  | cons line lines ih =>
      rw [visualMetricsFrom, rowCounts, List.map_cons]
      dsimp only
      cases ahead with
      | zero =>
          rw [visualMetricsFrom_behind caretCol wrapCols lines (by omega)]
          simp
      | succ ahead =>
          have hnext := ih (i + 1) ahead
          rw [show i + 1 + ahead = i + (ahead + 1) by omega, rowCounts] at hnext
          rw [hnext, if_pos (by omega), List.take_succ_cons, List.sum_cons,
            List.getElem?_cons_succ, Nat.add_assoc]

/-- `compose_caret_visual_row` on the row counts of the lines. -/
theorem composeCaretVisualRow_eq (lines : List (List Char)) (caretLine caretCol wrapCols : Nat) :
    composeCaretVisualRow charCells lines (rowCounts charCells wrapCols lines) caretLine caretCol
        wrapCols =
      (composeVisualMetrics charCells lines caretLine caretCol wrapCols).1 := by
  have hcaret := visualMetricsFrom_caret charCells caretCol wrapCols lines 0 caretLine
  rw [Nat.zero_add] at hcaret
  rw [composeCaretVisualRow, composeVisualMetrics]
  exact hcaret.symm

/-- A row of line `k`, found again from item `i` on. -/
theorem itemForVisualRowFrom_eq (perLine : List Nat) (i acc : Nat) {k n off : Nat}
    (hk : perLine[k]? = some n) (hoff : off < n) :
    itemForVisualRowFrom (acc + (perLine.take k).sum + off) perLine i acc =
      some (i + k, off) := by
  induction perLine generalizing i acc k with
  | nil => cases hk
  | cons m perLine ih =>
      cases k with
      | zero =>
          rw [List.getElem?_cons_zero] at hk
          cases hk
          rw [itemForVisualRowFrom, List.take_zero, List.sum_nil, if_pos (by omega)]
          congr 2
          omega
      | succ k =>
          rw [List.getElem?_cons_succ] at hk
          have hnext := ih (i + 1) (acc + m) hk
          rw [itemForVisualRowFrom, List.take_succ_cons, List.sum_cons, if_neg (by omega),
            ← Nat.add_assoc acc m, hnext]
          congr 2
          omega

/-- The item of the caret's visual row is the caret's line, and the row in
it the caret's. -/
theorem composeItemForVisualRow_caret (lines : List (List Char)) {caretLine : Nat}
    {line : List Char} (hline : lines[caretLine]? = some line) (caretCol wrapCols : Nat) :
    composeItemForVisualRow (rowCounts charCells wrapCols lines)
        (composeCaretVisualRow charCells lines (rowCounts charCells wrapCols lines) caretLine
          caretCol wrapCols) =
      (caretLine, caretVisualRow (wrapLineCols charCells line wrapCols) caretCol) := by
  have hcount : (rowCounts charCells wrapCols lines)[caretLine]? =
      some (wrapLineCols charCells line wrapCols).length := by
    rw [rowCounts, List.getElem?_map, hline]
    rfl
  have hitem := itemForVisualRowFrom_eq _ 0 0 hcount
    (caretVisualRow_lt (wrapLineCols_ne_nil line wrapCols) caretCol)
  rw [Nat.zero_add, Nat.zero_add] at hitem
  rw [composeItemForVisualRow, composeCaretVisualRow, hline]
  dsimp only [Option.map_some, Option.getD_some]
  rw [hitem]
  rfl

/-! ### The render cache -/

section document

variable {α : Type} [Glyph α] (d : Document α)

@[simp] theorem recordSplice_editSeq (start removedChars : Nat) (inserted : List α) :
    (d.recordSplice start removedChars inserted).editSeq = d.editSeq := by
  rw [Document.recordSplice]
  dsimp only
  split <;> rfl

omit [Glyph α] in
@[simp] theorem pushUndo_seq (entry : UndoEntry α) :
    (d.pushUndo entry).editSeq = d.editSeq ∧ (d.pushUndo entry).rope = d.rope := by
  have hevict : ∀ n (d : Document α), (Document.evictOldest^[n] d).editSeq = d.editSeq ∧
      (Document.evictOldest^[n] d).rope = d.rope := by
    intro n
    induction n with
    | zero => exact fun d => ⟨rfl, rfl⟩
    | succ n ih =>
        intro d
        rw [Function.iterate_succ_apply]
        exact ih _
  exact hevict _ _

theorem historyStep_editSeq (dir : HistoryDir) :
    (d.historyStep dir).1.editSeq = d.editSeq + 1 ∨ (d.historyStep dir).1 = d := by
  cases dir with
  | undo =>
      cases h : d.undoStack with
      | nil => simp [Document.historyStep, h]
      | cons entry rest => simp [Document.historyStep, h]
  | redo =>
      cases h : d.redoStack with
      | nil => simp [Document.historyStep, h]
      | cons entry rest => simp [Document.historyStep, h]

theorem deleteRange_editSeq (startChar endChar : Nat) :
    (d.deleteRange startChar endChar).editSeq = d.editSeq + 1 ∨
      d.deleteRange startChar endChar = d := by
  rw [Document.deleteRange]
  dsimp only
  split
  · left
    simp [Document.clearRedo, Document.touch]
  · exact .inr rfl

/-- An operation counts one edit, or leaves the text. -/
theorem apply_editSeq (edit : Document.Edit α) :
    (d.apply edit).editSeq = d.editSeq + 1 ∨
      (d.apply edit).editSeq = d.editSeq ∧ (d.apply edit).rope = d.rope := by
  cases edit with
  | insertChar line col ch =>
      left
      simp [Document.apply, Document.insertChar, Document.clearRedo, Document.touch]
  | insertStr line col text =>
      left
      simp [Document.apply, Document.insertStr, Document.clearRedo, Document.touch]
  | insertStrAtChar charIdx text =>
      left
      simp [Document.apply, Document.insertStrAtChar, Document.clearRedo, Document.touch]
  | deleteChar line col =>
      rw [Document.apply, Document.deleteChar]
      dsimp only
      split
      · left
        simp [Document.clearRedo, Document.touch]
      · exact .inr ⟨rfl, rfl⟩
  | deleteRange startChar endChar =>
      rcases deleteRange_editSeq d startChar endChar with hone | hsame
      · exact .inl hone
      · rw [Document.apply, hsame]
        exact .inr ⟨rfl, rfl⟩
  | deleteLine line =>
      rw [Document.apply, Document.deleteLine]
      cases d.lineDeleteRange line with
      | none => exact .inr ⟨rfl, rfl⟩
      | some range =>
          obtain ⟨s, e⟩ := range
          rcases deleteRange_editSeq d s e with hone | hsame
          · exact .inl hone
          · dsimp only
            rw [hsame]
            exact .inr ⟨rfl, rfl⟩
  | replaceLineText line newText =>
      rw [Document.apply, Document.replaceLineText]
      split
      · exact .inr ⟨rfl, rfl⟩
      · left
        dsimp only
        split
        · simp [Document.clearRedo, Document.touch]
        · simp [Document.clearRedo, Document.touch]
  | insertStrAtCharNoUndo charIdx text => exact .inl rfl
  | deleteRangeNoUndo startChar endChar =>
      rw [Document.apply, Document.deleteRangeNoUndo]
      dsimp only
      split
      · exact .inl rfl
      · exact .inr ⟨rfl, rfl⟩
  | beginUndoGroup cursorLine cursorCol =>
      right
      rw [Document.apply, Document.beginUndoGroup]
      cases d.pendingUndo <;> exact ⟨rfl, rfl⟩
  | endUndoGroup cursorLine cursorCol =>
      right
      rw [Document.apply, Document.endUndoGroup]
      cases d.pendingUndo with
      | none => exact ⟨rfl, rfl⟩
      | some entry =>
          dsimp only
          split
          · exact ⟨rfl, rfl⟩
          · simp
  | undo =>
      rcases historyStep_editSeq d .undo with hone | hsame
      · exact .inl hone
      · rw [Document.apply, Document.undo, hsame]
        exact .inr ⟨rfl, rfl⟩
  | redo =>
      rcases historyStep_editSeq d .redo with hone | hsame
      · exact .inl hone
      · rw [Document.apply, Document.redo, hsame]
        exact .inr ⟨rfl, rfl⟩

end document

theorem displayLines_congr {d d' : Document Char} (h : d.rope = d'.rope) :
    displayLines d = displayLines d' := by
  have hline : displayLine d = displayLine d' := by
    funext line
    rw [displayLine, displayLine, h]
  rw [displayLines, displayLines, h, hline]

/-- The cached lines were counted, and belong to the draft `behind` edits
ago. -/
structure Fits (charCells : Char → Nat) (document : Document Char) (snap : ComposeRenderSnap)
    (behind : Nat) : Prop where
  counted : snap.perLineRows = rowCounts charCells snap.visibleCols snap.lines
  edits : document.editSeq = snap.editSeq + UInt64.ofNat behind
  lines : behind = 0 → snap.lines = displayLines document

/-- A cache that is at most `n` edits behind. -/
def Current (charCells : Char → Nat) (n : Nat) (c : Compose) : Prop :=
  ∀ snap, c.renderCache = some snap → ∃ behind ≤ n, Fits charCells c.document snap behind

/-- The key of the cache says that it is not behind. -/
theorem Current.lines {n : Nat} {c : Compose} (h : Current charCells n c) (hn : n < 2 ^ 64)
    {snap : ComposeRenderSnap} (hcache : c.renderCache = some snap)
    (hseq : snap.editSeq = c.document.editSeq) :
    snap.lines = displayLines c.document ∧
      snap.perLineRows = rowCounts charCells snap.visibleCols (displayLines c.document) := by
  obtain ⟨behind, hbehind, hfits⟩ := h snap hcache
  have hzero : UInt64.ofNat behind = 0 := by
    have hedits := hfits.edits
    rw [← hseq] at hedits
    exact UInt64.add_eq_left.1 hedits.symm
  have hnone : behind = 0 := by
    have hmod := congrArg UInt64.toNat hzero
    rw [UInt64.toNat_ofNat_of_lt' (Nat.lt_of_le_of_lt hbehind hn)] at hmod
    exact hmod
  have hlines := hfits.lines hnone
  exact ⟨hlines, by rw [← hlines]; exact hfits.counted⟩

/-- What `render_snapshot` gives is counted from the lines of the draft. -/
theorem renderSnapshot_spec {n : Nat} {c : Compose} (h : Current charCells n c) (hn : n < 2 ^ 64)
    (visibleCols : Nat) :
    (c.renderSnapshot charCells visibleCols).1.lines = displayLines c.document ∧
      (c.renderSnapshot charCells visibleCols).1.perLineRows =
        rowCounts charCells visibleCols (displayLines c.document) ∧
      (c.renderSnapshot charCells visibleCols).2.document = c.document ∧
      Current charCells n (c.renderSnapshot charCells visibleCols).2 := by
  rw [renderSnapshot]
  cases hhit : c.renderCache.filter fun snap =>
      snap.editSeq = c.document.editSeq ∧ snap.visibleCols = visibleCols with
  | some snap =>
      obtain ⟨hcache, hkey⟩ := Option.filter_eq_some_iff.1 hhit
      obtain ⟨hseq, hcols⟩ := of_decide_eq_true hkey
      obtain ⟨hlines, hcounts⟩ := h.lines hn hcache hseq
      rw [hcols] at hcounts
      exact ⟨hlines, hcounts, rfl, h⟩
  | none =>
      dsimp only
      have hlines : c.draftLines = displayLines c.document := by
        rw [draftLines]
        cases hkept : c.renderCache.filter fun snap => snap.editSeq = c.document.editSeq with
        | some snap =>
            obtain ⟨hcache, hkey⟩ := Option.filter_eq_some_iff.1 hkept
            exact (h.lines hn hcache (of_decide_eq_true hkey)).1
        | none => rfl
      rw [hlines]
      refine ⟨rfl, rfl, rfl, ?_⟩
      intro snap hsnap
      cases hsnap
      exact ⟨0, Nat.zero_le n, rfl, (UInt64.add_zero _).symm, fun _ => rfl⟩

theorem Current.act {n : Nat} {c : Compose} (h : Current charCells n c) (hn : n < 2 ^ 64)
    (a : Act) : Current charCells (n + 1) (c.act charCells a) := by
  have hlater : ∀ {c : Compose}, Current charCells n c → Current charCells (n + 1) c := by
    intro c h snap hcache
    obtain ⟨behind, hbehind, hfits⟩ := h snap hcache
    exact ⟨behind, Nat.le_succ_of_le hbehind, hfits⟩
  cases a with
  | edit edit =>
      intro snap hcache
      obtain ⟨behind, hbehind, hfits⟩ := h snap hcache
      rcases apply_editSeq c.document edit with hone | ⟨hseq, hrope⟩
      · refine ⟨behind + 1, Nat.succ_le_succ hbehind, hfits.counted, ?_, fun hzero => by omega⟩
        rw [Compose.act, hone, hfits.edits, UInt64.ofNat_add, ← UInt64.add_assoc]
        rfl
      · refine ⟨behind, Nat.le_succ_of_le hbehind, hfits.counted, ?_, fun hzero => ?_⟩
        · rw [Compose.act, hseq, hfits.edits]
        · rw [hfits.lines hzero]
          exact displayLines_congr hrope.symm
  | resetTo text =>
      intro snap hcache
      cases hcache
  | render visibleCols => exact hlater (renderSnapshot_spec h hn visibleCols).2.2.2

/-- A draft after edits, resets and renders. -/
theorem current_run (text : List Char) (acts : List Act) (hacts : acts.length < 2 ^ 64) :
    Current charCells acts.length (acts.foldl (Compose.act charCells) (fresh text)) := by
  induction acts using List.reverseRecOn with
  | nil =>
      intro snap hcache
      cases hcache
  | append_singleton acts a ih =>
      rw [List.length_append, List.length_singleton] at hacts ⊢
      rw [List.foldl_append]
      exact (ih (by omega)).act (by omega) a

/-! ### Containment -/

/-- What wrapping promises of a line's rows, the carets apart. -/
structure Wrapped (charCells : Char → Nat) (line : List Char) (width : Nat)
    (rows : List (Nat × Nat)) : Prop where
  consecutive : rows ≠ [] ∧ Consecutive 0 rows line.length
  covers : ∀ i < line.length, ∃ row ∈ rows, row.1 ≤ i ∧ i < row.2
  fits : ∀ row ∈ rows, cellsIn charCells line row.1 row.2 ≤ width
  spare : ∀ row, rows.getLast? = some row → cellsIn charCells line row.1 row.2 ≤ width - 1

/-- The rows are as promised, and every caret has a cell to spare exactly if
no full row is cut behind a character of no cells; and the caret of a draft
is found through the cached row counts. -/
theorem caret_contained (charCells : Char → Nat) (hcells : ∀ c, charCells c ≤ 2) :
    (∀ line width, 2 ≤ width →
      Wrapped charCells line width (wrapLineCols charCells line width) ∧
        ((∀ col ≤ line.length,
            Visible charCells line width col (wrapLineCols charCells line width)) ↔
          ∀ b e c, RowStart charCells line width b → Cut charCells line width b e →
            cellsIn charCells line b e = width → (line)[e - 1]? = some c → charCells c ≠ 0)) ∧
    ∀ text (acts : List Act) visibleCols caretLine caretCol, acts.length < 2 ^ 64 →
      let c := acts.foldl (Compose.act charCells) (fresh text)
      let lines := displayLines c.document
      let perLine := (c.renderSnapshot charCells visibleCols).1.perLineRows
      composeCaretVisualRow charCells lines perLine caretLine caretCol visibleCols =
          (composeVisualMetrics charCells lines caretLine caretCol visibleCols).1 ∧
        ∀ line, lines[caretLine]? = some line →
          composeItemForVisualRow perLine
              (composeCaretVisualRow charCells lines perLine caretLine caretCol visibleCols) =
            (caretLine, caretVisualRow (wrapLineCols charCells line visibleCols) caretCol) := by
  constructor
  · intro line width hwidth
    have hrows := wrapLineCols_rows hcells hwidth line
    have hconsecutive := hrows.consecutive hcells hwidth
    refine ⟨⟨⟨hrows.ne_nil, hconsecutive⟩, ?_, hrows.fits, ?_⟩, hrows.visible_iff hcells hwidth⟩
    · intro i hi
      exact hconsecutive.covers (Nat.zero_le i) hi
    · intro row hlast
      exact hrows.last_spare hlast
  · intro text acts visibleCols caretLine caretCol hacts c lines perLine
    have hcounts : perLine = rowCounts charCells visibleCols lines :=
      (renderSnapshot_spec (current_run text acts hacts) hacts visibleCols).2.1
    rw [hcounts]
    refine ⟨composeCaretVisualRow_eq lines caretLine caretCol visibleCols, fun line hline => ?_⟩
    exact composeItemForVisualRow_caret lines hline caretCol visibleCols

/-- One cell for each character, and none for a combining mark. -/
def sampleCells (c : Char) : Nat := if '\u0300' ≤ c ∧ c ≤ '\u036f' then 0 else 1

theorem sampleCells_le (c : Char) : sampleCells c ≤ 2 := by
  rw [sampleCells]
  split <;> decide

theorem caret_contained_sample :
    Wrapped sampleCells ['a', 'b', ' ', 'c'] 3 (wrapLineCols sampleCells ['a', 'b', ' ', 'c'] 3) :=
  ((caret_contained sampleCells sampleCells_le).1 ['a', 'b', ' ', 'c'] 3 (by decide)).1

/-- A combining mark behind a full row: the caret before it has no cell
left. -/
theorem caret_escapes : ¬ ∀ charCells : Char → Nat, (∀ c, charCells c ≤ 2) →
    ∀ line width, 2 ≤ width → ∀ col ≤ line.length,
      Visible charCells line width col (wrapLineCols charCells line width) := by
  intro h
  have hrows := wrapLineCols_rows sampleCells_le (Nat.le_refl 2) ['a', 'b', '\u0301', 'c']
  have hends := (hrows.visible_iff sampleCells_le (Nat.le_refl 2)).1
    (h sampleCells sampleCells_le ['a', 'b', '\u0301', 'c'] 2 (Nat.le_refl 2))
  have hcut : Cut sampleCells ['a', 'b', '\u0301', 'c'] 2 0 3 :=
    (rowBreak_iff sampleCells_le (Nat.le_refl 2) (Nat.zero_le _) 3).1 (by decide)
  exact hends 0 3 '\u0301' .first hcut (by decide) rfl (by decide)

end Compose

end Yaldabaoth
