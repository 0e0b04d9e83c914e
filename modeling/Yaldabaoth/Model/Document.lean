import Mathlib.Algebra.GroupWithZero.Nat
import Mathlib.Data.List.Basic
import Mathlib.Logic.Function.Iterate

/-!
# `Yaldabaoth.Model.Document`: the text of a buffer and its undo history

`document.rs`. The rope is the list of its characters: every position of
the source is a character index. The document is generic in what stands
for a character (`Glyph`), which lets characters be told apart that look
the same; `Char` is the case of the source.

The undo stack has its newest entry first, the redo stack likewise.
-/

set_option autoImplicit false

namespace Yaldabaoth

/-- What stands for a character in a text. -/
class Glyph (α : Type) where
  char : α → Char

instance : Glyph Char := ⟨id⟩

/-- A character with a mark. -/
instance {τ : Type} : Glyph (Char × τ) := ⟨Prod.fst⟩

/-- `tree_sitter::Point`: a row and a column in bytes. -/
structure Point where
  row : Nat
  column : Nat
deriving Repr, DecidableEq

/-- `tree_sitter::InputEdit`. -/
structure InputEdit where
  startByte : Nat
  oldEndByte : Nat
  newEndByte : Nat
  startPosition : Point
  oldEndPosition : Point
  newEndPosition : Point
deriving Repr, DecidableEq

/-- A shift of lines that the anchors of the editor have to follow. -/
inductive AnchorShift where
  | insert (line col nl : Nat)
  | delete (line col nl : Nat)
deriving Repr, DecidableEq

inductive LineEnding where
  | lf
  | crLf
deriving Repr, DecidableEq

inductive HistoryDir where
  | undo
  | redo
deriving Repr, DecidableEq

/-- The most groups that the undo stack keeps. -/
def undoCap : Nat := 1000

/-! ### Texts -/

namespace Rope

variable {α : Type} [Glyph α]

def isNl (a : α) : Bool := Glyph.char a == '\n'

def isCr (a : α) : Bool := Glyph.char a == '\r'

def countNl (text : List α) : Nat := text.countP isNl

def utf8Len (text : List α) : Nat := (text.map fun a => (Glyph.char a).utf8Size).sum

def lenLines (text : List α) : Nat := countNl text + 1

def charToLine (text : List α) (idx : Nat) : Nat := countNl (text.take idx)

/-- The first character index of a line; the length of the text behind
the last line. -/
def lineToChar : List α → Nat → Nat
  | _, 0 => 0
  | [], _ + 1 => 0
  | a :: rest, line + 1 => 1 + lineToChar rest (if isNl a then line else line + 1)

/-- A line with its line break. -/
def line (text : List α) (i : Nat) : List α :=
  (text.take (lineToChar text (i + 1))).drop (lineToChar text i)

/-- The length of a line without its line break. -/
def lineLenChars (text : List α) (i : Nat) : Nat :=
  if lenLines text ≤ i then 0
  else
    match (line text i).reverse with
    | [] => 0
    | [a] => if isNl a then 0 else 1
    | a :: b :: rest => if isNl a then (if isCr b then rest.length else rest.length + 1)
        else rest.length + 2

def lineColToChar (text : List α) (line col : Nat) : Nat :=
  let clamped := min line (lenLines text - 1)
  lineToChar text clamped + min col (lineLenChars text clamped)

def lineColOfChar (text : List α) (charIdx : Nat) : Nat × Nat :=
  let idx := min charIdx text.length
  let line := charToLine text idx
  (line, idx - lineToChar text line)

/-- `text[s..e]`. -/
def slice (text : List α) (s e : Nat) : List α := (text.take e).drop s

def remove (text : List α) (s e : Nat) : List α := text.take s ++ text.drop e

def insert (text : List α) (idx : Nat) (added : List α) : List α :=
  text.take idx ++ added ++ text.drop idx

def charPoint (text : List α) (charIdx : Nat) : Point :=
  let ci := min charIdx text.length
  let row := charToLine text ci
  ⟨row, utf8Len (text.take ci) - utf8Len (text.take (lineToChar text row))⟩

end Rope

open Rope

section texts

variable {α : Type} [Glyph α]

def advancePoint (start : Point) (text : List α) : Point :=
  if countNl text = 0 then ⟨start.row, start.column + utf8Len text⟩
  else ⟨start.row + countNl text, utf8Len (text.reverse.takeWhile fun a => !isNl a)⟩

/-- Every line break has a carriage return before it. `after` tells
whether the text goes on after one. -/
def allCrLf (after : Bool) : List α → Bool
  | [] => true
  | a :: rest => (!isNl a || after) && allCrLf (isCr a) rest

/-- `text.replace("\r\n", "\n")`. -/
def dropCrs : List α → List α
  | a :: b :: rest => if isCr a && isNl b then dropCrs (b :: rest) else a :: dropCrs (b :: rest)
  | text => text

def normalizeLineEndings (text : List α) : List α × LineEnding :=
  if allCrLf false text && text.any isNl then (dropCrs text, .crLf) else (text, .lf)

end texts

/-! ### Recorded edits -/

structure Splice (α : Type) where
  start : Nat
  removed : List α
  inserted : List α
deriving Repr, DecidableEq

/-- The splices of an undo group, in the order in which they were
applied. `hi` is a bound on where they start. -/
structure UndoEntry (α : Type) where
  splices : List (Splice α)
  cursorBefore : Nat × Nat
  cursorAfter : Nat × Nat
  hi : Nat
deriving Repr, DecidableEq

section splices

variable {α : Type} [Glyph α]

/-- The splice that two contiguous ones are folded into. -/
def coalesceSplice (last : Splice α) (start : Nat) (removed inserted : List α) :
    Option (Splice α) :=
  if removed.any isNl || inserted.any isNl then none
  else if last.removed.any isNl || last.inserted.any isNl then none
  else if removed.isEmpty && !inserted.isEmpty then
    if last.removed.isEmpty && start == last.start + last.inserted.length then
      some { last with inserted := last.inserted ++ inserted }
    else none
  else if !inserted.isEmpty || removed.isEmpty then none
  else if last.inserted.isEmpty && !last.removed.isEmpty then
    if start + removed.length = last.start then
      some { last with removed := removed ++ last.removed, start }
    else if start = last.start then some { last with removed := last.removed ++ removed }
    else none
  else if last.removed.isEmpty && decide (last.start ≤ start) &&
      decide (start + removed.length = last.start + last.inserted.length) then
    some { last with inserted := last.inserted.take (last.inserted.length - removed.length) }
  else none

/-- The entry with one more splice recorded. -/
def UndoEntry.record (entry : UndoEntry α) (start : Nat) (removed inserted : List α) :
    UndoEntry α :=
  match entry.splices.getLast?.bind fun last => coalesceSplice last start removed inserted with
  | some merged =>
      if merged.removed.isEmpty && merged.inserted.isEmpty then
        { entry with splices := entry.splices.dropLast }
      else { entry with splices := entry.splices.dropLast ++ [merged] }
  | none =>
      { entry with
          hi := max entry.hi start
          splices := entry.splices ++ [⟨start, removed, inserted⟩] }

/-- `remap` of `shift_recorded_splices`: `inserted` characters came in at
`at`, or `deleted` ones went from there. -/
inductive Drift where
  | inserted (count : Nat)
  | deleted (count : Nat)
deriving Repr, DecidableEq

def Drift.remap (drift : Drift) (pos start : Nat) : Nat :=
  if start < pos then start
  else
    match drift with
    | .inserted count => start + count
    | .deleted count => if pos + count ≤ start then start - count else pos

def UndoEntry.shift (entry : UndoEntry α) (pos : Nat) (drift : Drift) : UndoEntry α :=
  if entry.hi < pos then entry
  else
    let splices := entry.splices.map fun sp => { sp with start := drift.remap pos sp.start }
    { entry with splices, hi := (splices.map Splice.start).foldl max 0 }

/-- What a step through the history takes out and what it puts in. -/
def Splice.sides (sp : Splice α) : HistoryDir → List α × List α
  | .undo => (sp.inserted, sp.removed)
  | .redo => (sp.removed, sp.inserted)

/-- One splice of a step through the history. -/
def applySplice (dir : HistoryDir) (acc : List α × List AnchorShift) (sp : Splice α) :
    List α × List AnchorShift :=
  let (rope, ops) := acc
  let (takeOut, putIn) := sp.sides dir
  let rmEnd := min (sp.start + takeOut.length) rope.length
  let rmStart := min sp.start rmEnd
  let (rope, ops) :=
    if rmStart < rmEnd then
      let (line, col) := lineColOfChar rope rmStart
      (Rope.remove rope rmStart rmEnd,
        ops ++ [.delete line col (countNl (slice rope rmStart rmEnd))])
    else (rope, ops)
  if putIn.isEmpty then (rope, ops)
  else
    let pos := min sp.start rope.length
    let (line, col) := lineColOfChar rope pos
    -- Behind the visible end of a line is the start of the next.
    let (line, col) := if lineLenChars rope line ≤ col then (line + 1, 0) else (line, col)
    (Rope.insert rope pos putIn, ops ++ [.insert line col (countNl putIn)])

/-- The splices of an entry in the order of the step. -/
def UndoEntry.ordered (entry : UndoEntry α) : HistoryDir → List (Splice α)
  | .undo => entry.splices.reverse
  | .redo => entry.splices

def applySplices (rope : List α) (entry : UndoEntry α) (dir : HistoryDir) :
    List α × List AnchorShift :=
  (entry.ordered dir).foldl (applySplice dir) (rope, [])

end splices

/-! ### The document -/

structure Document (α : Type) where
  rope : List α
  filePath : String
  modified : Bool
  editSeq : UInt64
  undoStack : List (UndoEntry α)
  redoStack : List (UndoEntry α)
  pendingUndo : Option (UndoEntry α)
  pendingEdit : Option InputEdit
  pendingSpliceCount : Nat
  savedDepth : Option Nat
  lineEnding : LineEnding
deriving Repr, DecidableEq

namespace Document

variable {α : Type} [Glyph α]

/-- `from_text_with_edit_seq`. -/
def fromTextWithEditSeq (text : List α) (filePath : String) (editSeq : UInt64) : Document α where
  rope := (normalizeLineEndings text).1
  filePath
  modified := false
  editSeq
  undoStack := []
  redoStack := []
  pendingUndo := none
  pendingEdit := none
  pendingSpliceCount := 0
  savedDepth := some 0
  lineEnding := (normalizeLineEndings text).2

def fromText (text : List α) (filePath : String) : Document α := fromTextWithEditSeq text filePath 0

/-- `replace_text`: the buffer is made anew. -/
def replaceText (d : Document α) (text : List α) (filePath : String) : Document α :=
  fromTextWithEditSeq text filePath (d.editSeq + 1)

def touch (d : Document α) : Document α := { d with modified := true, editSeq := d.editSeq + 1 }

def notePendingEdit (d : Document α) (start removedChars : Nat) (inserted : List α) : Document α :=
  let s := min start d.rope.length
  let e := min (start + removedChars) d.rope.length
  let startByte := utf8Len (d.rope.take s)
  let startPoint := charPoint d.rope s
  let edit : InputEdit := {
    startByte
    oldEndByte := utf8Len (d.rope.take e)
    newEndByte := startByte + utf8Len inserted
    startPosition := startPoint
    oldEndPosition := charPoint d.rope e
    newEndPosition := advancePoint startPoint inserted }
  let n := d.pendingSpliceCount + 1
  { d with pendingSpliceCount := n, pendingEdit := if n = 1 then some edit else none }

/-- The edit for the next parse, and the document after it was taken. -/
def takePendingEdit (d : Document α) : Option InputEdit × Document α :=
  (if d.pendingSpliceCount = 1 then d.pendingEdit else none,
    { d with pendingEdit := none, pendingSpliceCount := 0 })

def recordSplice (d : Document α) (start removedChars : Nat) (inserted : List α) : Document α :=
  let d := d.notePendingEdit start removedChars inserted
  match d.pendingUndo with
  | none => { d with savedDepth := none }
  | some entry =>
      let s := min start d.rope.length
      let e := min (start + removedChars) d.rope.length
      { d with pendingUndo := some (entry.record s (slice d.rope s e) inserted) }

def clearRedo (d : Document α) : Document α :=
  { d with
      savedDepth :=
        if !d.redoStack.isEmpty && d.savedDepth.any fun depth => d.undoStack.length < depth then none
        else d.savedDepth
      redoStack := [] }

/-! ### Edits of the user -/

def insertStrAtChar (d : Document α) (charIdx : Nat) (text : List α) : Document α :=
  let idx := min charIdx d.rope.length
  let d := d.recordSplice idx 0 text
  ({ d with rope := Rope.insert d.rope idx text }.touch).clearRedo

def insertStr (d : Document α) (line col : Nat) (text : List α) : Document α :=
  let charIdx := lineColToChar d.rope line col
  let d := d.recordSplice charIdx 0 text
  ({ d with rope := Rope.insert d.rope charIdx text }.touch).clearRedo

def insertChar (d : Document α) (line col : Nat) (ch : α) : Document α :=
  let charIdx := lineColToChar d.rope line col
  let d := d.recordSplice charIdx 0 [ch]
  ({ d with rope := Rope.insert d.rope charIdx [ch] }.touch).clearRedo

def deleteRange (d : Document α) (startChar endChar : Nat) : Document α :=
  let s := min startChar d.rope.length
  let e := min endChar d.rope.length
  if s < e then
    let d := d.recordSplice s (e - s) []
    ({ d with rope := Rope.remove d.rope s e }.touch).clearRedo
  else d

def deleteChar (d : Document α) (line col : Nat) : Document α :=
  let charIdx := lineColToChar d.rope line col
  if charIdx < d.rope.length then
    let d := d.recordSplice charIdx 1 []
    ({ d with rope := Rope.remove d.rope charIdx (charIdx + 1) }.touch).clearRedo
  else d

def lineDeleteRange (d : Document α) (line : Nat) : Option (Nat × Nat) :=
  let lines := lenLines d.rope
  if lines ≤ line then none
  else
    let start := lineToChar d.rope line
    let stop := if line + 1 < lines then lineToChar d.rope (line + 1) else d.rope.length
    if start < stop then some (start, stop)
    else if 0 < start then some (start - 1, start)
    else none

def deleteLine (d : Document α) (line : Nat) : Document α :=
  match d.lineDeleteRange line with
  | some (s, e) => d.deleteRange s e
  | none => d

def replaceLineText (d : Document α) (line : Nat) (newText : List α) : Document α :=
  if lenLines d.rope ≤ line then d
  else
    let start := lineToChar d.rope line
    let endChar := start + lineLenChars d.rope line
    let d := if start < endChar then
        let d := d.recordSplice start (endChar - start) []
        { d with rope := Rope.remove d.rope start endChar }
      else d
    let d := d.recordSplice start 0 newText
    ({ d with rope := Rope.insert d.rope start newText }.touch).clearRedo

/-! ### Edits of the program -/

/-- `shift_recorded_splices`. -/
def shiftRecordedSplices (d : Document α) (pos : Nat) (drift : Drift) : Document α :=
  { d with
      pendingUndo := d.pendingUndo.map fun entry => entry.shift pos drift
      undoStack := d.undoStack.map fun entry => entry.shift pos drift
      redoStack := d.redoStack.map fun entry => entry.shift pos drift }

def insertStrAtCharNoUndo (d : Document α) (charIdx : Nat) (text : List α) : Document α :=
  let idx := min charIdx d.rope.length
  let d := d.notePendingEdit idx 0 text
  let d := { d with rope := Rope.insert d.rope idx text }.touch
  { d with savedDepth := none }.shiftRecordedSplices idx (.inserted text.length)

def deleteRangeNoUndo (d : Document α) (startChar endChar : Nat) : Document α :=
  let s := min startChar d.rope.length
  let e := min endChar d.rope.length
  if s < e then
    let d := d.notePendingEdit s (e - s) []
    let d := { d with rope := Rope.remove d.rope s e }.touch
    { d with savedDepth := none }.shiftRecordedSplices s (.deleted (e - s))
  else d

/-! ### The history -/

/-- The document, and whether the group was opened. -/
def beginUndoGroup (d : Document α) (cursorLine cursorCol : Nat) : Document α × Bool :=
  match d.pendingUndo with
  | some _ => (d, false)
  | none =>
      ({ d with pendingUndo := some ⟨[], (cursorLine, cursorCol), (0, 0), 0⟩ }, true)

def undoGroupOpen (d : Document α) : Bool := d.pendingUndo.isSome

/-- One turn of the loop of `push_undo`. -/
def evictOldest (d : Document α) : Document α :=
  { d with
      undoStack := d.undoStack.dropLast
      savedDepth := d.savedDepth.bind fun depth => if 0 < depth then some (depth - 1) else none }

def pushUndo (d : Document α) (entry : UndoEntry α) : Document α :=
  let d := { d with undoStack := entry :: d.undoStack }
  evictOldest^[d.undoStack.length - undoCap] d

def endUndoGroup (d : Document α) (cursorLine cursorCol : Nat) : Document α :=
  match d.pendingUndo with
  | none => d
  | some entry =>
      let d := { d with pendingUndo := none }
      if entry.splices.isEmpty then d
      else d.pushUndo { entry with cursorAfter := (cursorLine, cursorCol) }

/-- The document after a step through the history, with the caret to
restore and the shifts to replay on the anchors. -/
def historyStep (d : Document α) (dir : HistoryDir) :
    Document α × Option (Nat × Nat × List AnchorShift) :=
  let source := match dir with
    | .undo => d.undoStack
    | .redo => d.redoStack
  match source with
  | [] => (d, none)
  | entry :: rest =>
      let (rope, shifts) := applySplices d.rope entry dir
      let mirror : UndoEntry α :=
        { entry with cursorBefore := entry.cursorAfter, cursorAfter := entry.cursorBefore }
      let d := { d with rope, pendingEdit := none, pendingSpliceCount := 2 }
      let d := match dir with
        | .undo => { d with undoStack := rest, redoStack := mirror :: d.redoStack }
        | .redo => { d with redoStack := rest }.pushUndo mirror
      ({ d with
          modified := decide (d.savedDepth ≠ some d.undoStack.length)
          editSeq := d.editSeq + 1 },
        some (entry.cursorBefore.1, entry.cursorBefore.2, shifts))

def undo (d : Document α) : Document α × Option (Nat × Nat × List AnchorShift) := d.historyStep .undo

def redo (d : Document α) : Document α × Option (Nat × Nat × List AnchorShift) := d.historyStep .redo

/-- The operations that change a document in place. -/
inductive Edit (α : Type) where
  | insertChar (line col : Nat) (ch : α)
  | insertStr (line col : Nat) (text : List α)
  | insertStrAtChar (charIdx : Nat) (text : List α)
  | deleteChar (line col : Nat)
  | deleteRange (startChar endChar : Nat)
  | deleteLine (line : Nat)
  | replaceLineText (line : Nat) (newText : List α)
  | insertStrAtCharNoUndo (charIdx : Nat) (text : List α)
  | deleteRangeNoUndo (startChar endChar : Nat)
  | beginUndoGroup (cursorLine cursorCol : Nat)
  | endUndoGroup (cursorLine cursorCol : Nat)
  | undo
  | redo
deriving Repr, DecidableEq

def apply (d : Document α) : Edit α → Document α
  | .insertChar line col ch => d.insertChar line col ch
  | .insertStr line col text => d.insertStr line col text
  | .insertStrAtChar charIdx text => d.insertStrAtChar charIdx text
  | .deleteChar line col => d.deleteChar line col
  | .deleteRange startChar endChar => d.deleteRange startChar endChar
  | .deleteLine line => d.deleteLine line
  | .replaceLineText line newText => d.replaceLineText line newText
  | .insertStrAtCharNoUndo charIdx text => d.insertStrAtCharNoUndo charIdx text
  | .deleteRangeNoUndo startChar endChar => d.deleteRangeNoUndo startChar endChar
  | .beginUndoGroup cursorLine cursorCol => (d.beginUndoGroup cursorLine cursorCol).1
  | .endUndoGroup cursorLine cursorCol => d.endUndoGroup cursorLine cursorCol
  | .undo => d.undo.1
  | .redo => d.redo.1

/-! ### Saving -/

/-- The document after it was written to `path`. -/
def savedTo (d : Document α) (path : String) : Document α :=
  let midGroup := d.pendingUndo.any fun entry => !entry.splices.isEmpty
  { d with
      filePath := path
      modified := false
      savedDepth := if midGroup then none else some d.undoStack.length }

/-- The pieces of a chunk with CRLF between them. -/
def joinCrLf (pieces : List (List Char)) : List Char :=
  pieces.zipIdx.flatMap fun piece => if 0 < piece.2 then ['\r', '\n'] ++ piece.1 else piece.1

/-- What `save_to` writes for a rope that is stored in these chunks. -/
def writtenText (d : Document Char) (chunks : List (List Char)) : List Char :=
  match d.lineEnding with
  | .lf => d.rope
  | .crLf => chunks.flatMap fun chunk => joinCrLf (chunk.splitOn '\n')

/-- The text that `save_to` writes: with CRLF line breaks where the file
had those. -/
def savedText (d : Document Char) : List Char :=
  match d.lineEnding with
  | .lf => d.rope
  | .crLf => d.rope.flatMap fun ch => if ch = '\n' then ['\r', '\n'] else [ch]

end Document

end Yaldabaoth
