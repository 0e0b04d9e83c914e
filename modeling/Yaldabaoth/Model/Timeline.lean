import Yaldabaoth.Model.Authorship

/-!
# `Yaldabaoth.Model.Timeline`: a document with the texts that it had

`Timed` is a document beside a record of the texts between its undo
groups, kept by an observer who sees the operations and the text before
each of them. What undo and redo should do is said of that record: the
first text of `past` is the one to go back to, the first of `future` the
one to go on to.

`Filed` is a document beside the text that the last successful save
wrote.
-/

set_option autoImplicit false

namespace Yaldabaoth

open Rope Swaps

namespace Document

variable {α : Type} [Glyph α]

/-- An edit of the user, as opposed to one of the program or a step
through the history. -/
def Edit.byUser : Edit α → Bool
  | .insertChar _ _ _ | .insertStr _ _ _ | .insertStrAtChar _ _ | .deleteChar _ _
  | .deleteRange _ _ | .deleteLine _ | .replaceLineText _ _ => true
  | _ => false

/-- Whether a call of an edit changes anything: a deletion finds nothing
behind the end of the text, and there is no line behind the last. -/
def acts (d : Document α) : Edit α → Bool
  | .deleteChar line col => decide (lineColToChar d.rope line col < d.rope.length)
  | .deleteRange startChar endChar =>
      decide (min startChar d.rope.length < min endChar d.rope.length)
  | .deleteLine line =>
      (d.lineDeleteRange line).any fun range =>
        decide (min range.1 d.rope.length < min range.2 d.rope.length)
  | .replaceLineText line _ => decide (line < lenLines d.rope)
  | _ => true

/-- Whether the open group has anything recorded. -/
def recording (d : Document α) : Bool := d.pendingUndo.any fun entry => !entry.splices.isEmpty

/-- The recorded edits that undo goes back through, newest first, in
groups; the open one leads. -/
def undoGroups (d : Document α) : List (List (Swap α)) :=
  (d.pendingUndo.toList ++ d.undoStack).map (UndoEntry.swaps .undo)

/-- The recorded edits that redo goes on through. -/
def redoGroups (d : Document α) : List (List (Swap α)) :=
  d.redoStack.map (UndoEntry.swaps .redo)

/-- Every recorded edit finds, when its turn comes, the text that it
takes out. -/
def Replayable (d : Document α) : Prop :=
  Walks d.undoGroups.flatten d.rope ∧ Walks d.redoGroups.flatten d.rope

instance [DecidableEq α] (d : Document α) : Decidable d.Replayable :=
  inferInstanceAs (Decidable (_ ∧ _))

end Document

/-! ### The texts between the groups -/

structure Timed (α : Type) where
  doc : Document α
  /-- The text before each group that can be undone, newest first. -/
  past : List (List α)
  /-- The text before the open group. -/
  opened : Option (List α)
  /-- The text after each group that was undone, the next one first. -/
  future : List (List α)
deriving DecidableEq

namespace Timed

variable {α : Type} [Glyph α]

def opening (text : List α) (filePath : String) : Timed α where
  doc := .fromText text filePath
  past := []
  opened := none
  future := []

/-- The record after an operation. -/
def noted (s : Timed α) (edit : Document.Edit α) : Timed α :=
  let s' := { s with doc := s.doc.apply edit }
  match edit with
  | .beginUndoGroup _ _ =>
      if s.doc.undoGroupOpen then s' else { s' with opened := some s.doc.rope }
  | .endUndoGroup _ _ =>
      -- A group that recorded nothing is no step.
      if s.doc.recording then
        { s' with past := (s.opened.toList ++ s.past).take undoCap, opened := none }
      else { s' with opened := none }
  | .undo =>
      match s.past with
      | [] => s'
      | text :: rest => { s' with past := rest, future := s.doc.rope :: s.future }
  | .redo =>
      match s.future with
      | [] => s'
      | text :: rest => { s' with past := (s.doc.rope :: s.past).take undoCap, future := rest }
  | _ => if edit.byUser && s.doc.acts edit then { s' with future := [] } else s'

/-- A document from its opening on. -/
def machine (α : Type) [Glyph α] : Machine (Timed α) (Document.Edit α) where
  start s := ∃ text filePath, s = opening text filePath
  step s edit := some (s.noted edit)

/-- Edits are made by the user and in groups, steps through the history
are made between groups. -/
def Disciplined (s : Timed α) : Document.Edit α → Prop
  | .insertStrAtCharNoUndo _ _ => False
  | .deleteRangeNoUndo _ _ => False
  | .beginUndoGroup _ _ => True
  | .endUndoGroup _ _ => True
  | .undo => s.doc.undoGroupOpen = false
  | .redo => s.doc.undoGroupOpen = false
  | _ => s.doc.undoGroupOpen = true

instance (s : Timed α) (edit : Document.Edit α) : Decidable (s.Disciplined edit) := by
  cases edit <;> unfold Disciplined <;> infer_instance

/-- What undo and redo do. -/
structure Exact (s : Timed α) : Prop where
  undone : s.doc.undoGroupOpen = false →
    s.doc.undo.1.rope = s.past.headD s.doc.rope ∧ s.doc.undo.2.isSome = !s.past.isEmpty
  redone : s.doc.undoGroupOpen = false →
    s.doc.redo.1.rope = s.future.headD s.doc.rope ∧ s.doc.redo.2.isSome = !s.future.isEmpty
  nested : s.doc.undoGroupOpen = true →
    ∀ line col, s.doc.beginUndoGroup line col = (s.doc, false)
  empty : s.doc.undoGroupOpen = true → s.doc.recording = false → s.opened = some s.doc.rope
  retained : s.doc.undoStack.length = s.past.length ∧ s.doc.redoStack.length = s.future.length ∧
    s.past.length ≤ undoCap

end Timed

/-! ### The text on disk -/

structure Filed where
  doc : Document Char
  /-- What was last written, or loaded. -/
  disk : List Char
deriving DecidableEq

namespace Filed

/-- What happens to a document. A save succeeds, or fails and leaves all
as it is. -/
inductive Action where
  | edit (edit : Document.Edit Char)
  | save (path : String) (succeeds : Bool)
deriving Repr, DecidableEq

def opening (text : List Char) (filePath : String) : Filed where
  doc := .fromText text filePath
  disk := text

def step (s : Filed) : Action → Filed
  | .edit edit => { s with doc := s.doc.apply edit }
  | .save path succeeds =>
      if succeeds then { doc := s.doc.savedTo path, disk := s.doc.savedText } else s

def machine : Machine Filed Action where
  start s := ∃ text filePath, s = opening text filePath
  step s action := some (s.step action)

/-- A document that counts as unmodified has the text of its file. -/
def CleanFlag (s : Filed) : Prop := s.doc.modified = false → s.doc.savedText = s.disk

/-- A step that leaves the recorded edits of use. Steps through the
history are made while the open group has nothing recorded, if there is
something to undo or redo at all. Every other change of the text is
recorded in an open group, or it leaves each recorded edit, moved as it
is by then, the text that it takes out. -/
def Kept (s : Filed) : Action → Prop
  | .edit .undo => s.doc.recording = false ∨ s.doc.undoStack = []
  | .edit .redo => s.doc.recording = false ∨ s.doc.redoStack = []
  | .edit (.beginUndoGroup _ _) => True
  | .edit (.endUndoGroup _ _) => True
  | .edit edit =>
      edit.byUser = true ∧ s.doc.undoGroupOpen = true ∨ (s.doc.apply edit).Replayable
  | .save _ _ => True

instance (s : Filed) : (action : Action) → Decidable (s.Kept action)
  | .edit .undo | .edit .redo => inferInstanceAs (Decidable (_ ∨ _))
  | .edit (.beginUndoGroup ..) | .edit (.endUndoGroup ..) | .save .. => .isTrue trivial
  | .edit (.insertChar ..) | .edit (.insertStr ..) | .edit (.insertStrAtChar ..)
  | .edit (.deleteChar ..) | .edit (.deleteRange ..) | .edit (.deleteLine ..)
  | .edit (.replaceLineText ..) | .edit (.insertStrAtCharNoUndo ..)
  | .edit (.deleteRangeNoUndo ..) => inferInstanceAs (Decidable (_ ∧ _ ∨ _))

end Filed

end Yaldabaoth
