import Mathlib.Data.List.DropRight
import Yaldabaoth.Model.Document

/-!
# `Yaldabaoth.Model.Compose`: the draft in visual rows

From `agent.rs`: how a line is wrapped, and where the caret of a draft is
in visual rows; `display_text.rs` for the lines as they are shown. The
cells of a character come from a crate and are a parameter. Of `Compose`,
the document and the render cache are kept.
-/

set_option autoImplicit false

namespace Yaldabaoth

namespace Compose

open Rope

/-! ### Display lines -/

def tabDisplayWidth : Nat := 4

/-- `push_display_char`. -/
def displayChar (ch : Char) : List Char :=
  if ch = '\t' then List.replicate tabDisplayWidth ' ' else [ch]

def displayLine (doc : Document Char) (line : Nat) : List Char :=
  if lenLines doc.rope ≤ line then []
  else ((Rope.line doc.rope line).flatMap displayChar).rdropWhile (· = '\n')

def displayLines (doc : Document Char) : List (List Char) :=
  (List.range (max (lenLines doc.rope) 1)).map (displayLine doc)

/-! ### Wrapping -/

section rows

variable (charCells : Char → Nat)

/-- From `pos` on, the characters that fit beside `cells`: how many cells
they come to, and where they end. -/
def fill (width : Nat) : List Char → Nat → Nat → Nat × Nat
  | [], cells, pos => (cells, pos)
  | c :: rest, cells, pos =>
      if width < cells + charCells c then (cells, pos)
      else fill width rest (cells + charCells c) (pos + 1)

/-- The last space at `first` or behind it, before `hard`. -/
def lastSpace (line : List Char) (first : Nat) : Nat → Option Nat
  | 0 => none
  | j + 1 =>
      if j < first then none
      else if (line)[j]? = some ' ' then some j
      else lastSpace line first j

/-- Where the row is cut that begins at `start`; the last row is not. -/
def rowBreak (line : List Char) (width start : Nat) : Option Nat :=
  let (cells, fits) := fill charCells width (line.drop start) 0 start
  if fits = line.length ∧ cells < width then none
  else
    let hard := max fits (start + 1)
    some (match lastSpace line (start + 1) hard with
      | some j => j + 1
      | none => hard)

theorem fill_le (width : Nat) (rest : List Char) (cells pos : Nat) :
    pos ≤ (fill charCells width rest cells pos).2 ∧
      (fill charCells width rest cells pos).2 ≤ pos + rest.length := by
  induction rest generalizing cells pos with
  | nil => exact ⟨Nat.le_refl _, Nat.le_refl _⟩
  | cons c rest ih =>
      rw [fill, List.length_cons]
      split
      · exact ⟨Nat.le_refl _, by omega⟩
      · have hrest := ih (cells + charCells c) (pos + 1)
        omega

theorem lastSpace_some {line : List Char} {first hard j : Nat}
    (h : lastSpace line first hard = some j) : first ≤ j ∧ j < hard := by
  induction hard with
  | zero => cases h
  | succ hard ih =>
      rw [lastSpace] at h
      split at h
      · cases h
      · next hfirst =>
        split at h
        · cases h
          exact ⟨Nat.le_of_not_lt hfirst, Nat.lt_succ_self _⟩
        · have hless := ih h
          omega

/-- Every row goes on. -/
theorem rowBreak_some {line : List Char} {width start brk : Nat} (hwidth : 0 < width)
    (h : rowBreak charCells line width start = some brk) :
    start < brk ∧ (start ≤ line.length → brk ≤ line.length) := by
  rw [rowBreak] at h
  have hfill := fill_le charCells width (line.drop start) 0 start
  rw [List.length_drop] at hfill
  dsimp only at h
  split at h
  · cases h
  · next hmore =>
    have hbrk := Option.some.inj h
    -- at the end of the line nothing is left to fill the row
    have hhard : start ≤ line.length →
        max (fill charCells width (line.drop start) 0 start).2 (start + 1) ≤ line.length := by
      intro hstart
      rcases Nat.lt_or_ge start line.length with hinside | hend
      · omega
      · rw [List.drop_eq_nil_of_le hend] at hmore
        exact absurd ⟨Nat.le_antisymm hstart hend, hwidth⟩ hmore
    cases hspace : lastSpace line (start + 1)
        (max (fill charCells width (line.drop start) 0 start).2 (start + 1)) with
    | some j =>
        rw [hspace] at hbrk
        have hj := lastSpace_some hspace
        dsimp only at hbrk
        exact ⟨by omega, fun hstart => by have := hhard hstart; omega⟩
    | none =>
        rw [hspace] at hbrk
        dsimp only at hbrk
        exact ⟨by omega, fun hstart => by have := hhard hstart; omega⟩

/-- The rows from `start` on. -/
def wrapFrom (line : List Char) (width : Nat) (hwidth : 0 < width) (start : Nat)
    (hstart : start ≤ line.length) : List (Nat × Nat) :=
  match h : rowBreak charCells line width start with
  | none => [(start, line.length)]
  | some brk =>
      (start, brk) :: wrapFrom line width hwidth brk
        ((rowBreak_some charCells hwidth h).2 hstart)
termination_by line.length - start
decreasing_by
  have hbrk := rowBreak_some charCells hwidth h
  have hend := hbrk.2 hstart
  omega

def wrapLineCols (line : List Char) (width : Nat) : List (Nat × Nat) :=
  if line.length = 0 then [(0, 0)]
  else wrapFrom charCells line (max width 1) (by omega) 0 (Nat.zero_le _)

/-- The first row that has the column, else the last one. -/
def caretVisualRow (rows : List (Nat × Nat)) (cursorCol : Nat) : Nat :=
  (rows.findIdx? fun row => row.1 ≤ cursorCol && cursorCol < row.2).getD (rows.length - 1)

/-! ### A draft in visual rows -/

/-- The caret's visual row, all visual rows and those of each line:
`compose_visual_metrics`, line by line from `i` on. -/
def visualMetricsFrom (caretLine caretCol wrapCols : Nat) :
    List (List Char) → Nat → Nat × Nat × List Nat
  | [], _ => (0, 0, [])
  | line :: lines, i =>
      let rows := wrapLineCols charCells line wrapCols
      let (caret, total, perLine) := visualMetricsFrom caretLine caretCol wrapCols lines (i + 1)
      let above :=
        if i < caretLine then rows.length
        else if i = caretLine then caretVisualRow rows caretCol
        else 0
      (above + caret, rows.length + total, rows.length :: perLine)

def composeVisualMetrics (lines : List (List Char)) (caretLine caretCol wrapCols : Nat) :
    Nat × Nat × List Nat :=
  let (caret, total, perLine) := visualMetricsFrom charCells caretLine caretCol wrapCols lines 0
  (caret, max total 1, perLine)

def composeCaretVisualRow (lines : List (List Char)) (perLine : List Nat)
    (caretLine caretCol wrapCols : Nat) : Nat :=
  let within := (lines[caretLine]?.map fun line =>
    caretVisualRow (wrapLineCols charCells line wrapCols) caretCol).getD 0
  (perLine.take caretLine).sum + within

/-- From item `i` on, where `acc` rows are above. -/
def itemForVisualRowFrom (visualRow : Nat) : List Nat → Nat → Nat → Option (Nat × Nat)
  | [], _, _ => none
  | n :: perLine, i, acc =>
      if visualRow < acc + n then some (i, visualRow - acc)
      else itemForVisualRowFrom visualRow perLine (i + 1) (acc + n)

def composeItemForVisualRow (perLine : List Nat) (visualRow : Nat) : Nat × Nat :=
  (itemForVisualRowFrom visualRow perLine 0 0).getD
    (perLine.length - 1, (perLine.getLast?.getD 1) - 1)

end rows

end Compose

/-! ### The render cache -/

structure ComposeRenderSnap where
  editSeq : UInt64
  visibleCols : Nat
  lines : List (List Char)
  perLineRows : List Nat
  totalRows : Nat
deriving Repr, DecidableEq

structure Compose where
  document : Document Char
  renderCache : Option ComposeRenderSnap

namespace Compose

variable (charCells : Char → Nat)

/-- The lines of a cache that is keyed by this edit, else those of the
draft. -/
def draftLines (c : Compose) : List (List Char) :=
  match c.renderCache.filter fun snap => snap.editSeq = c.document.editSeq with
  | some snap => snap.lines
  | none => displayLines c.document

def renderSnapshot (c : Compose) (visibleCols : Nat) : ComposeRenderSnap × Compose :=
  match c.renderCache.filter fun snap =>
      snap.editSeq = c.document.editSeq ∧ snap.visibleCols = visibleCols with
  | some snap => (snap, c)
  | none =>
      let lines := c.draftLines
      let perLineRows := lines.map fun line => (wrapLineCols charCells line visibleCols).length
      let snap : ComposeRenderSnap := {
        editSeq := c.document.editSeq
        visibleCols
        lines
        perLineRows
        totalRows := max perLineRows.sum 1
      }
      (snap, { c with renderCache := some snap })

/-- `new`, and the text of `reset_to`. -/
def fresh (text : List Char) : Compose where
  document := Document.fromText text "*compose*"
  renderCache := none

/-- What happens to a draft: it is edited, made anew, or rendered. -/
inductive Act where
  | edit (edit : Document.Edit Char)
  | resetTo (text : List Char)
  | render (visibleCols : Nat)

def act (c : Compose) : Act → Compose
  | .edit edit => { c with document := c.document.apply edit }
  | .resetTo text => fresh text
  | .render visibleCols => (c.renderSnapshot charCells visibleCols).2

end Compose

end Yaldabaoth
