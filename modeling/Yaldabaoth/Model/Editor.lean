import Yaldabaoth.Lib.Machine
import Yaldabaoth.Lib.Spans
import Yaldabaoth.Model.Document
import Mathlib.Data.List.Sort

/-!
# `Yaldabaoth.Model.Editor`: a buffer with frozen lines, and a caret in it

`editor.rs`: `EditorCore` with what it keeps about lines (the frozen
ranges, the locked prefix, the atomic blocks, the anchors with their
metadata, the hint at the last line of the agent), and the operations of
`EditorView`, which are here operations of the pair `Editor`.

The two maps of `LineAnchorStore` are inverse to each other. Their one
graph is kept, in the order of the lines. `μ` is what the metadata of a
line is, of all types together.
-/

set_option autoImplicit false

namespace Yaldabaoth

open Rope Spans

/-! ### Anchors -/

structure LineAnchor where
  id : Nat
deriving Repr, DecidableEq

structure LineAnchorStore where
  nextId : Nat
  byLine : List (Nat × LineAnchor)
  sorted : byLine.Pairwise fun p q => p.1 < q.1
  injective : ∀ p ∈ byLine, ∀ q ∈ byLine, p.2 = q.2 → p.1 = q.1
  issued : ∀ p ∈ byLine, p.2.id < nextId
deriving DecidableEq

namespace LineAnchorStore

def empty : LineAnchorStore where
  nextId := 0
  byLine := []
  sorted := List.Pairwise.nil
  injective := List.forall_mem_nil _
  issued := List.forall_mem_nil _

/-- `by_line.get`. -/
def anchorAt (st : LineAnchorStore) (line : Nat) : Option LineAnchor := st.byLine.lookup line

/-- `line_for`. -/
def lineFor (st : LineAnchorStore) (a : LineAnchor) : Option Nat :=
  (st.byLine.find? fun p => decide (p.2 = a)).map Prod.fst

/-- The store with a new anchor for a line that has none. -/
def withNew (st : LineAnchorStore) (line : Nat) : LineAnchorStore where
  nextId := st.nextId + 1
  byLine := st.byLine.filter (fun p => decide (p.1 < line)) ++
    (line, ⟨st.nextId⟩) :: st.byLine.filter fun p => decide (line < p.1)
  sorted := by
    refine List.pairwise_append.2 ⟨st.sorted.filter _, List.pairwise_cons.2
      ⟨fun p hp => of_decide_eq_true (List.mem_filter.1 hp).2, st.sorted.filter _⟩,
      fun p hp q hq => ?_⟩
    have hbelow := of_decide_eq_true (List.mem_filter.1 hp).2
    rcases List.mem_cons.1 hq with rfl | hq
    · exact hbelow
    · exact Nat.lt_trans hbelow (of_decide_eq_true (List.mem_filter.1 hq).2)
  injective := by
    have hold : ∀ p, p ∈ st.byLine.filter (fun p => decide (p.1 < line)) ++
        (line, ⟨st.nextId⟩) :: st.byLine.filter (fun p => decide (line < p.1)) →
        p ∈ st.byLine ∨ p = (line, ⟨st.nextId⟩) := by
      intro p hp
      rcases List.mem_append.1 hp with hp | hp
      · exact .inl (List.mem_filter.1 hp).1
      · rcases List.mem_cons.1 hp with rfl | hp
        · exact .inr rfl
        · exact .inl (List.mem_filter.1 hp).1
    intro p hp q hq heq
    rcases hold p hp with hp | rfl <;> rcases hold q hq with hq | rfl
    · exact st.injective p hp q hq heq
    · exact absurd (st.issued p hp) (by rw [heq]; exact Nat.lt_irrefl _)
    · exact absurd (st.issued q hq) (by rw [← heq]; exact Nat.lt_irrefl _)
    · rfl
  issued := by
    intro p hp
    rcases List.mem_append.1 hp with hp | hp
    · exact Nat.lt_succ_of_lt (st.issued p (List.mem_filter.1 hp).1)
    · rcases List.mem_cons.1 hp with rfl | hp
      · exact Nat.lt_succ_self _
      · exact Nat.lt_succ_of_lt (st.issued p (List.mem_filter.1 hp).1)

/-- The anchor of a line, made if it has none. -/
def allocate (st : LineAnchorStore) (line : Nat) : LineAnchor × LineAnchorStore :=
  match st.anchorAt line with
  | some a => (a, st)
  | none => (⟨st.nextId⟩, st.withNew line)

/-- The anchors that `keep` gives a line to, on that line. -/
def relocate (st : LineAnchorStore) (keep : Nat → Option Nat)
    (hmono : ∀ i j i' j', i < j → keep i = some i' → keep j = some j' → i' < j') :
    LineAnchorStore where
  nextId := st.nextId
  byLine := st.byLine.filterMap fun p => (keep p.1).map fun line => (line, p.2)
  sorted := by
    refine List.pairwise_filterMap.2 (st.sorted.imp fun {p q} hlt p' hp q' hq => ?_)
    obtain ⟨i, hi, rfl⟩ := Option.map_eq_some_iff.1 hp
    obtain ⟨j, hj, rfl⟩ := Option.map_eq_some_iff.1 hq
    exact hmono _ _ _ _ hlt hi hj
  injective := by
    intro p hp q hq heq
    obtain ⟨p', hp', hp⟩ := List.mem_filterMap.1 hp
    obtain ⟨q', hq', hq⟩ := List.mem_filterMap.1 hq
    obtain ⟨i, hi, rfl⟩ := Option.map_eq_some_iff.1 hp
    obtain ⟨j, hj, rfl⟩ := Option.map_eq_some_iff.1 hq
    rw [st.injective p' hp' q' hq' heq, hj] at hi
    exact (Option.some.inj hi).symm
  issued := by
    intro p hp
    obtain ⟨p', hp', hp⟩ := List.mem_filterMap.1 hp
    obtain ⟨i, -, rfl⟩ := Option.map_eq_some_iff.1 hp
    exact st.issued p' hp'

/-- Where `shift_for_insert` puts the anchor of a line. -/
def insertedLine (effLine effCol insertedNl line : Nat) : Nat :=
  let firstShifted := if effCol = 0 then effLine else effLine + 1
  if firstShifted ≤ line then line + insertedNl else line

def shiftForInsert (st : LineAnchorStore) (effLine effCol insertedNl : Nat) : LineAnchorStore :=
  st.relocate (fun line => some (insertedLine effLine effCol insertedNl line)) (by
    intro i j i' j' hlt hi hj
    rw [← Option.some.inj hi, ← Option.some.inj hj]
    dsimp only [insertedLine]
    split <;> split <;> split <;> omega)

/-- Where `shift_for_delete` puts the anchor of a line, if it keeps it. -/
def deletedLine (startLine startCol deletedNl line : Nat) : Option Nat :=
  let firstConsumed := if startCol = 0 then startLine else startLine + 1
  let lastConsumed := startLine + deletedNl
  if deletedNl = 0 then some line
  else if line < firstConsumed then some line
  else if line ≤ lastConsumed then none
  else some (line - deletedNl)

theorem deletedLine_mono (startLine startCol deletedNl : Nat) (i j i' j' : Nat) (hlt : i < j)
    (hi : deletedLine startLine startCol deletedNl i = some i')
    (hj : deletedLine startLine startCol deletedNl j = some j') : i' < j' := by
  dsimp only [deletedLine] at hi hj
  split at hi <;> split at hj <;> grind

/-- The store after a delete. -/
def shiftForDelete (st : LineAnchorStore) (startLine startCol deletedNl : Nat) :
    LineAnchorStore :=
  st.relocate (deletedLine startLine startCol deletedNl)
    (deletedLine_mono startLine startCol deletedNl)

/-- The anchors that `shift_for_delete` drops. -/
def droppedByDelete (st : LineAnchorStore) (startLine startCol deletedNl : Nat) :
    List LineAnchor :=
  (st.byLine.filter fun p => (deletedLine startLine startCol deletedNl p.1).isNone).map Prod.snd

end LineAnchorStore

/-! ### The core -/

/-- `EditorCore`, without the syntax tree. -/
structure EditorCore (α μ : Type) where
  document : Document α
  frozenLines : List (Nat × Nat)
  lockableThroughLine : Nat
  lineAnchors : LineAnchorStore
  lineMetadata : List (LineAnchor × μ)
  lastLlmLine : Option Nat
  lastLlmOpen : Bool
  atomicBlocks : List (Nat × Nat)
deriving DecidableEq

/-- Drop empty ranges, fold overlapping neighbours. -/
def normalizeRanges (ranges : List (Nat × Nat)) : List (Nat × Nat) :=
  merge (fun s e => decide (s < e)) (ranges.filter fun range => decide (range.1 < range.2))

/-- What becomes of a frozen range where line breaks come in. -/
def insertedRange (effLine effCol insertedNl : Nat) (range : Nat × Nat) : List (Nat × Nat) :=
  if range.2 ≤ effLine then [range]
  else if effLine ≤ range.1 then [(range.1 + insertedNl, range.2 + insertedNl)]
  else if effCol = 0 then
    (if range.1 < effLine then [(range.1, effLine)] else []) ++
      if effLine + insertedNl < range.2 + insertedNl then
        [(effLine + insertedNl, range.2 + insertedNl)]
      else []
  else [range]

/-- What becomes of an atomic block where line breaks come in. -/
def insertedBlock (effLine insertedNl : Nat) (block : Nat × Nat) : Nat × Nat :=
  if effLine ≤ block.1 then (block.1 + insertedNl, block.2 + insertedNl)
  else if effLine < block.2 then (block.1, block.2 + insertedNl)
  else block

/-- What becomes of a range where line breaks go. -/
def deletedRange (startLine deletedNl : Nat) (range : Nat × Nat) : Nat × Nat :=
  if startLine < range.1 then (range.1 - deletedNl, range.2 - deletedNl) else range

namespace EditorCore

variable {α μ : Type} [Glyph α]

def new (text : List α) (filePath : String) : EditorCore α μ where
  document := .fromText text filePath
  frozenLines := []
  lockableThroughLine := 0
  lineAnchors := .empty
  lineMetadata := []
  lastLlmLine := none
  lastLlmOpen := false
  atomicBlocks := []

/-! #### Anchors and metadata -/

def anchorForLine (core : EditorCore α μ) (line : Nat) : LineAnchor × EditorCore α μ :=
  ((core.lineAnchors.allocate line).1,
    { core with lineAnchors := (core.lineAnchors.allocate line).2 })

def anchorForLineOpt (core : EditorCore α μ) (line : Nat) : Option LineAnchor :=
  core.lineAnchors.anchorAt line

def lineForAnchor (core : EditorCore α μ) (a : LineAnchor) : Option Nat := core.lineAnchors.lineFor a

/-- `metadata::<T>().get`. -/
def metadata (core : EditorCore α μ) (a : LineAnchor) : Option μ := core.lineMetadata.lookup a

/-- `metadata_mut::<T>().insert`. -/
def insertMetadata (core : EditorCore α μ) (a : LineAnchor) (v : μ) : EditorCore α μ :=
  { core with lineMetadata := (a, v) :: core.lineMetadata.filter fun p => decide (p.1 ≠ a) }

/-- What the gutter shows at a line. -/
def lineMeta (core : EditorCore α μ) (line : Nat) : Option μ :=
  (core.anchorForLineOpt line).bind core.metadata

/-! #### Frozen lines -/

def setLockableThroughLine (core : EditorCore α μ) (line : Nat) : EditorCore α μ :=
  { core with lockableThroughLine := line }

/-- `add_frozen_lines`. -/
def addFrozenLines (core : EditorCore α μ) (startLine endLine : Nat) : EditorCore α μ :=
  if endLine ≤ startLine then core
  else
    { core with frozenLines := Spans.add (startLine, endLine) core.frozenLines }

def setAtomicBlocks (core : EditorCore α μ) (ranges : List (Nat × Nat)) : EditorCore α μ :=
  { core with
      atomicBlocks :=
        (ranges.filter fun range => decide (range.1 < range.2)).insertionSort fun p q => p.1 ≤ q.1 }

def isFrozenLine (core : EditorCore α μ) (line : Nat) : Bool :=
  (containing core.frozenLines line).isSome

def setCachedLlmLine (core : EditorCore α μ) (line : Nat) (isOpen : Bool) : EditorCore α μ :=
  { core with lastLlmLine := some line, lastLlmOpen := isOpen }

/-! #### The guards -/

def canInsertCharAt (core : EditorCore α μ) (line col : Nat) (ch : α) : Bool :=
  if line < core.lockableThroughLine then false
  else if !core.isFrozenLine line then true
  else if !isNl ch then false
  else
    let atLineStart := decide (col = 0)
    let atLineEnd := decide (lineLenChars core.document.rope line ≤ col)
    if !(atLineStart || atLineEnd) then false
    else
      -- Inside an atomic block only its outer boundaries are open.
      match containing core.atomicBlocks line with
      | some (s, e) => (atLineStart && decide (line = s)) || (atLineEnd && decide (line + 1 = e))
      | none => true

def canDeleteRange (core : EditorCore α μ) (delS delE : Nat) : Bool :=
  let rope := core.document.rope
  if delE ≤ delS then true
  else
    let startLine := (lineColOfChar rope delS).1
    if startLine < core.lockableThroughLine then false
    else
      let stop := min delE rope.length
      if stop ≤ delS then !core.isFrozenLine startLine
      else
        let last := stop - 1
        let hi := charToLine rope last
        let hi := if rope[last]?.any isNl && decide (hi + 1 < lenLines rope) then hi + 1 else hi
        !overlap core.frozenLines startLine hi

/-! #### Shifts -/

def shiftFrozenAt (core : EditorCore α μ) (effLine effCol insertedNl : Nat) : EditorCore α μ :=
  { core with
      frozenLines := core.frozenLines.flatMap (insertedRange effLine effCol insertedNl)
      lockableThroughLine :=
        if effLine < core.lockableThroughLine then core.lockableThroughLine + insertedNl
        else core.lockableThroughLine
      atomicBlocks := core.atomicBlocks.map (insertedBlock effLine insertedNl)
      lineAnchors := core.lineAnchors.shiftForInsert effLine effCol insertedNl
      lastLlmLine :=
        core.lastLlmLine.map (LineAnchorStore.insertedLine effLine effCol insertedNl) }

/-- `shift_frozen_lines_for_insert`. Behind the visible end of a line is
the start of the next. -/
def shiftFrozenLinesForInsert (core : EditorCore α μ) (line col : Nat) (text : List α) :
    EditorCore α μ :=
  let insertedNl := countNl text
  if insertedNl = 0 then core
  else if lineLenChars core.document.rope line ≤ col then
    core.shiftFrozenAt (line + 1) 0 insertedNl
  else core.shiftFrozenAt line col insertedNl

/-- `shift_frozen_lines_for_typed_insert`. -/
def shiftFrozenLinesForTypedInsert (core : EditorCore α μ) (line col : Nat) (text : List α) :
    EditorCore α μ :=
  let insertedNl := countNl text
  if insertedNl = 0 then core
  else
    let before := (text.takeWhile fun a => !isNl a).length
    if lineLenChars core.document.rope line ≤ col then
      core.shiftFrozenAt (line + 1) 0 insertedNl
    else core.shiftFrozenAt line (col + before) insertedNl

def shiftFrozenForDeleteAt (core : EditorCore α μ) (startLine startCol deletedNl : Nat) :
    EditorCore α μ :=
  if deletedNl = 0 then core
  else
    let dropped := core.lineAnchors.droppedByDelete startLine startCol deletedNl
    let lastLlmLine :=
      core.lastLlmLine.bind (LineAnchorStore.deletedLine startLine startCol deletedNl)
    { core with
        frozenLines := normalizeRanges (core.frozenLines.map (deletedRange startLine deletedNl))
        atomicBlocks := core.atomicBlocks.map (deletedRange startLine deletedNl)
        lockableThroughLine :=
          if startLine < core.lockableThroughLine then core.lockableThroughLine - deletedNl
          else core.lockableThroughLine
        lineAnchors := core.lineAnchors.shiftForDelete startLine startCol deletedNl
        lineMetadata := core.lineMetadata.filter fun p => !dropped.contains p.1
        lastLlmLine
        lastLlmOpen :=
          if core.lastLlmLine.isSome && lastLlmLine.isNone then false else core.lastLlmOpen }

def shiftFrozenLinesForDelete (core : EditorCore α μ) (delS delE : Nat) : EditorCore α μ :=
  let rope := core.document.rope
  if delE ≤ delS then core
  else
    let stop := min delE rope.length
    if stop ≤ delS then core
    else
      let start := lineColOfChar rope delS
      core.shiftFrozenForDeleteAt start.1 start.2 (countNl (slice rope delS stop))

def applyAnchorShift (core : EditorCore α μ) : AnchorShift → EditorCore α μ
  | .insert line col nl => if 0 < nl then core.shiftFrozenAt line col nl else core
  | .delete line col nl => core.shiftFrozenForDeleteAt line col nl

/-- `apply_anchor_shifts`. Ranges that touch come together again. -/
def applyAnchorShifts (core : EditorCore α μ) (shifts : List AnchorShift) : EditorCore α μ :=
  let core := shifts.foldl applyAnchorShift core
  { core with
      frozenLines := merge (fun s e => decide (s ≤ e)) core.frozenLines
      lastLlmLine := none
      lastLlmOpen := false }

/-! #### Edits of the program -/

def programmaticInsert (core : EditorCore α μ) (charIdx : Nat) (text : List α) : EditorCore α μ :=
  let pos := lineColOfChar core.document.rope charIdx
  let core := core.shiftFrozenLinesForInsert pos.1 pos.2 text
  { core with document := core.document.insertStrAtCharNoUndo charIdx text }

def programmaticDelete (core : EditorCore α μ) (delS delE : Nat) : EditorCore α μ :=
  let len := core.document.rope.length
  let s := min delS len
  let e := min delE len
  if e ≤ s then core
  else
    let core := core.shiftFrozenLinesForDelete s e
    { core with document := core.document.deleteRangeNoUndo s e }

/-- The core after the edit, and whether the character was replaced. -/
def replaceCharUndoable (core : EditorCore α μ) (charIdx : Nat) (ch : α) : EditorCore α μ × Bool :=
  let rope := core.document.rope
  if isNl ch || decide (rope.length ≤ charIdx) || rope[charIdx]?.any isNl then (core, false)
  else
    let pos := lineColOfChar rope charIdx
    if !core.canDeleteRange charIdx (charIdx + 1) || !core.canInsertCharAt pos.1 pos.2 ch then
      (core, false)
    else
      let (document, opened) := core.document.beginUndoGroup pos.1 pos.2
      let document := (document.deleteChar pos.1 pos.2).insertChar pos.1 pos.2 ch
      let document := if opened then document.endUndoGroup pos.1 pos.2 else document
      ({ core with document }, true)

end EditorCore

/-! ### The editor -/

structure CursorPos where
  line : Nat
  col : Nat
deriving Repr, DecidableEq

/-- `EditorView`, without the modes that say how a motion selects. -/
structure EditorView where
  cursor : CursorPos
  selectionAnchor : Option CursorPos
  inInsertMode : Bool
deriving Repr, DecidableEq

/-- A core, and a view of it. -/
structure Editor (α μ : Type) where
  core : EditorCore α μ
  view : EditorView
deriving DecidableEq

/-- The two ends of a selection in order. -/
def EditorView.selectionRange (view : EditorView) : Option (CursorPos × CursorPos) :=
  view.selectionAnchor.map fun anchor =>
    let cursor := view.cursor
    if anchor.line < cursor.line ∨ anchor.line = cursor.line ∧ anchor.col ≤ cursor.col then
      (anchor, cursor)
    else (cursor, anchor)

namespace Editor

variable {α μ : Type} [Glyph α]

def rope (ed : Editor α μ) : List α := ed.core.document.rope

def setCursor (ed : Editor α μ) (line col : Nat) : Editor α μ :=
  { ed with view := { ed.view with cursor := ⟨line, col⟩ } }

/-- `move_selection_anchor`. -/
def moveSelectionAnchor (ed : Editor α μ) (line col : Nat) : Editor α μ :=
  { ed with
      view := { ed.view with selectionAnchor := ed.view.selectionAnchor.map fun _ => ⟨line, col⟩ } }

def withDocument (ed : Editor α μ) (document : Document α) : Editor α μ :=
  { ed with core := { ed.core with document } }

/-! #### Selection -/

def selectionCharRange (ed : Editor α μ) : Option (Nat × Nat) :=
  ed.view.selectionRange.map fun ends =>
    (lineColToChar ed.rope ends.1.line ends.1.col, lineColToChar ed.rope ends.2.line ends.2.col)

/-- An empty selection is the character under the caret. -/
def selectionText (ed : Editor α μ) : Option (List α) :=
  ed.selectionCharRange.map fun range =>
    if range.1 = range.2 then
      if range.1 < ed.rope.length then slice ed.rope range.1 (range.1 + 1) else []
    else slice ed.rope range.1 (min range.2 ed.rope.length)

/-! #### Undo groups -/

/-- The editor, and whether this call opened the group. -/
def openGroup (ed : Editor α μ) : Editor α μ × Bool :=
  let (document, opened) :=
    ed.core.document.beginUndoGroup ed.view.cursor.line ed.view.cursor.col
  (ed.withDocument document, opened)

def endGroup (ed : Editor α μ) : Editor α μ :=
  ed.withDocument (ed.core.document.endUndoGroup ed.view.cursor.line ed.view.cursor.col)

/-- One step of undo, or a part of the group that is open. -/
def grouped (ed : Editor α μ) (f : Editor α μ → Editor α μ) : Editor α μ :=
  let (ed, opened) := ed.openGroup
  let ed := f ed
  if opened then ed.endGroup else ed

def beginInsert (ed : Editor α μ) : Editor α μ :=
  ({ ed with view := { ed.view with inInsertMode := true } }).openGroup.1

def endInsert (ed : Editor α μ) : Editor α μ :=
  ({ ed with view := { ed.view with inInsertMode := false } }).endGroup

/-! #### Edits at the caret -/

/-- `shift_frozen_lines_for_delete`, then `delete_range`. -/
def cut (ed : Editor α μ) (delS delE : Nat) : Editor α μ :=
  let core := ed.core.shiftFrozenLinesForDelete delS delE
  { ed with core := { core with document := core.document.deleteRange delS delE } }

/-- `shift_frozen_lines_for_insert`, then `insert_char`. -/
def put (ed : Editor α μ) (line col : Nat) (ch : α) : Editor α μ :=
  let core := ed.core.shiftFrozenLinesForInsert line col [ch]
  { ed with core := { core with document := core.document.insertChar line col ch } }

def caretAt (ed : Editor α μ) (charIdx : Nat) : Editor α μ :=
  let pos := lineColOfChar ed.rope charIdx
  ed.setCursor pos.1 pos.2

/-- The editor, and whether the range was deleted. -/
def deleteChars (ed : Editor α μ) (delS delE : Nat) : Editor α μ × Bool :=
  if delE ≤ delS ∨ ed.core.canDeleteRange delS delE = false then (ed, false)
  else ((ed.cut delS delE).caretAt delS, true)

def insertChar (ed : Editor α μ) (ch : α) : Editor α μ :=
  let cursor := ed.view.cursor
  if !ed.core.canInsertCharAt cursor.line cursor.col ch then ed
  else
    let ed := ed.put cursor.line cursor.col ch
    if isNl ch then ed.setCursor (cursor.line + 1) 0
    else ed.setCursor cursor.line (cursor.col + 1)

def insertStr (ed : Editor α μ) (text : List α) : Editor α μ :=
  if text.isEmpty then ed
  else
    let cursor := ed.view.cursor
    if cursor.line < ed.core.lockableThroughLine ∨ ed.core.isFrozenLine cursor.line = true then
      text.foldl insertChar ed
    else
      let idx := lineColToChar ed.rope cursor.line cursor.col
      let core := ed.core.shiftFrozenLinesForTypedInsert cursor.line cursor.col text
      let core := { core with document := core.document.insertStrAtChar idx text }
      ({ ed with core }).caretAt (idx + text.length)

def pasteStr (ed : Editor α μ) (text : List α) : Editor α μ :=
  if text.isEmpty then ed else ed.grouped fun ed => ed.insertStr text

def backspace (ed : Editor α μ) : Editor α μ :=
  let charIdx := lineColToChar ed.rope ed.view.cursor.line ed.view.cursor.col
  if charIdx = 0 then ed else (ed.deleteChars (charIdx - 1) charIdx).1

def deleteBackInLine (ed : Editor α μ) (n : Nat) : Editor α μ :=
  let col := min ed.view.cursor.col (lineLenChars ed.rope ed.view.cursor.line)
  let n := min n col
  if n = 0 then ed
  else
    let idx := lineColToChar ed.rope ed.view.cursor.line col
    (ed.deleteChars (idx - n) idx).1

def deleteUnderCaret (ed : Editor α μ) (insertMode : Bool) : Editor α μ :=
  let charIdx := lineColToChar ed.rope ed.view.cursor.line ed.view.cursor.col
  if ed.rope.length ≤ charIdx ∨ ed.core.canDeleteRange charIdx (charIdx + 1) = false then ed
  else
    ed.grouped fun ed =>
      let cursor := ed.view.cursor
      let ed := (ed.deleteChars charIdx (charIdx + 1)).1
      let lineLen := lineLenChars ed.rope cursor.line
      let col := if insertMode = false ∧ lineLen ≤ cursor.col ∧ 0 < lineLen then lineLen - 1
        else cursor.col
      ed.setCursor cursor.line col

def deleteCharAtCursor (ed : Editor α μ) : Editor α μ := ed.deleteUnderCaret false

def deleteForwardInInsert (ed : Editor α μ) : Editor α μ := ed.deleteUnderCaret true

def replaceCharAtCursor (ed : Editor α μ) (ch : α) : Editor α μ :=
  let line := ed.view.cursor.line
  let col := ed.view.cursor.col
  if lineLenChars ed.rope line ≤ col then ed
  else
    let charIdx := lineColToChar ed.rope line col
    if ed.core.canDeleteRange charIdx (charIdx + 1) = false ∨
        ed.core.canInsertCharAt line col ch = false then ed
    else
      ed.grouped fun ed =>
        let core := ed.core.shiftFrozenLinesForDelete charIdx (charIdx + 1)
        let core := { core with document := core.document.deleteChar line col }
        (({ ed with core }).put line col ch).setCursor line col

def deleteCurrentLine (ed : Editor α μ) : Editor α μ :=
  match ed.core.document.lineDeleteRange ed.view.cursor.line with
  | none => ed
  | some (s, e) =>
      if !ed.core.canDeleteRange s e then ed
      else
        ed.grouped fun ed =>
          let ed := (ed.deleteChars s e).1
          ed.setCursor (min (lineColOfChar ed.rope s).1 (lenLines ed.rope - 1)) 0

def openLineBelow (ed : Editor α μ) (nl : α) : Editor α μ :=
  let line := ed.view.cursor.line
  let insertCol := lineLenChars ed.rope line
  if !ed.core.canInsertCharAt line insertCol nl then ed
  else
    let ed := (ed.openGroup.1.put line insertCol nl).setCursor (line + 1) 0
    { ed with view := { ed.view with inInsertMode := true } }

def openLineAbove (ed : Editor α μ) (nl : α) : Editor α μ :=
  let line := ed.view.cursor.line
  if !ed.core.canInsertCharAt line 0 nl then ed
  else
    let ed := (ed.openGroup.1.put line 0 nl).setCursor line 0
    { ed with view := { ed.view with inInsertMode := true } }

/-- The editor, and whether something was deleted. -/
def deleteSelection (ed : Editor α μ) : Editor α μ × Bool :=
  match ed.selectionCharRange with
  | none => (ed, false)
  | some (start, stop) =>
      let stop := if start = stop ∧ start < ed.rope.length then start + 1 else stop
      let ed := { ed with view := { ed.view with selectionAnchor := none } }
      if stop ≤ start ∨ ed.core.canDeleteRange start stop = false then (ed, false)
      else (ed.grouped fun ed => (ed.cut start stop).caretAt start, true)

/-! #### History -/

def historyStep (ed : Editor α μ) (dir : HistoryDir) : Editor α μ :=
  match ed.core.document.historyStep dir with
  | (_, none) => ed
  | (document, some (line, col, shifts)) =>
      let ed := { ed with core := ({ ed.core with document }).applyAnchorShifts shifts }
      let line := min line (lenLines ed.rope - 1)
      ed.setCursor line (min col (lineLenChars ed.rope line - 1))

def undo (ed : Editor α μ) : Editor α μ := ed.historyStep .undo

def redo (ed : Editor α μ) : Editor α μ := ed.historyStep .redo

/-! #### Edits of the program -/

def spliceInsert (ed : Editor α μ) (charIdx : Nat) (text : List α) : Editor α μ :=
  let charOf := fun (pos : CursorPos) => lineColToChar ed.rope pos.line pos.col
  let cursorChar := charOf ed.view.cursor
  let anchorChar := ed.view.selectionAnchor.map charOf
  let ed := { ed with core := ed.core.programmaticInsert charIdx text }
  let n := text.length
  let ed := if charIdx ≤ cursorChar then ed.caretAt (cursorChar + n) else ed
  match anchorChar with
  | some ac =>
      if charIdx ≤ ac then
        let pos := lineColOfChar ed.rope (ac + n)
        ed.moveSelectionAnchor pos.1 pos.2
      else ed
  | none => ed

/-- `remap` of `splice_delete`. -/
def deleteRemap (delS delE ch : Nat) : Nat :=
  if delE ≤ ch then ch - (delE - delS) else if delS < ch then delS else ch

def spliceDelete (ed : Editor α μ) (delS delE : Nat) : Editor α μ :=
  let charOf := fun (pos : CursorPos) => lineColToChar ed.rope pos.line pos.col
  let cursorChar := charOf ed.view.cursor
  let anchorChar := ed.view.selectionAnchor.map charOf
  let ed := { ed with core := ed.core.programmaticDelete delS delE }
  let ed := ed.caretAt (deleteRemap delS delE cursorChar)
  match anchorChar with
  | some ac =>
      let pos := lineColOfChar ed.rope (deleteRemap delS delE ac)
      ed.moveSelectionAnchor pos.1 pos.2
  | none => ed

def programmaticInsert (ed : Editor α μ) (charIdx : Nat) (text : List α) : Editor α μ :=
  ed.spliceInsert charIdx text

def programmaticDelete (ed : Editor α μ) (delS delE : Nat) : Editor α μ := ed.spliceDelete delS delE

/-! #### Runs -/

/-- The calls that edit, and whatever else moves the caret and the anchor
of the selection. -/
inductive Act (α : Type) where
  | view (cursor : CursorPos) (selectionAnchor : Option CursorPos)
  | beginInsert
  | endInsert
  | insertChar (ch : α)
  | insertStr (text : List α)
  | pasteStr (text : List α)
  | backspace
  | deleteBackInLine (n : Nat)
  | deleteCharAtCursor
  | deleteForwardInInsert
  | replaceCharAtCursor (ch : α)
  | replaceCharUndoable (charIdx : Nat) (ch : α)
  | deleteCurrentLine
  | openLineBelow (nl : α)
  | openLineAbove (nl : α)
  | deleteSelection
  | undo
  | redo
  | programmaticInsert (charIdx : Nat) (text : List α)
  | programmaticDelete (delS delE : Nat)
deriving Repr, DecidableEq

def perform (ed : Editor α μ) : Act α → Editor α μ
  | .view cursor selectionAnchor => { ed with view := { ed.view with cursor, selectionAnchor } }
  | .beginInsert => ed.beginInsert
  | .endInsert => ed.endInsert
  | .insertChar ch => ed.insertChar ch
  | .insertStr text => ed.insertStr text
  | .pasteStr text => ed.pasteStr text
  | .backspace => ed.backspace
  | .deleteBackInLine n => ed.deleteBackInLine n
  | .deleteCharAtCursor => ed.deleteCharAtCursor
  | .deleteForwardInInsert => ed.deleteForwardInInsert
  | .replaceCharAtCursor ch => ed.replaceCharAtCursor ch
  | .replaceCharUndoable charIdx ch => { ed with core := (ed.core.replaceCharUndoable charIdx ch).1 }
  | .deleteCurrentLine => ed.deleteCurrentLine
  | .openLineBelow nl => ed.openLineBelow nl
  | .openLineAbove nl => ed.openLineAbove nl
  | .deleteSelection => ed.deleteSelection.1
  | .undo => ed.undo
  | .redo => ed.redo
  | .programmaticInsert charIdx text => ed.programmaticInsert charIdx text
  | .programmaticDelete delS delE => ed.programmaticDelete delS delE

end Editor

/-- A core under the calls of its view, and of the program. -/
def editing (α μ : Type) [Glyph α] : Machine (Editor α μ) (Editor.Act α) where
  start _ := True
  step ed act := some (ed.perform act)

end Yaldabaoth
