import Yaldabaoth.Lib.Machine
import Yaldabaoth.Lib.Swaps
import Yaldabaoth.Model.Document

/-!
# `Yaldabaoth.Model.Authorship`: a document with a record of who wrote what

Each character that comes into the text gets a mark of its own, so that
it can be told from one that looks the same. The document itself is that
of `Yaldabaoth.Model.Document`; beside it stands what an observer notes:
which characters the program put in, which ones the user typed, what a
delete took away, and for each undo group a ledger of its edits.
-/

set_option autoImplicit false

namespace Yaldabaoth

open Rope Swaps

/-- A character with the mark that it got when it came in. -/
abbrev Marked := Char × Nat

instance : LawfulBEq Marked := Prod.instLawfulBEq

namespace Document.Edit

/-- The edit with marks from `next` on. -/
def marked (next : Nat) : Edit Char → Edit Marked
  | .insertChar line col ch => .insertChar line col (ch, next)
  | .insertStr line col text => .insertStr line col (text.zipIdx next)
  | .insertStrAtChar charIdx text => .insertStrAtChar charIdx (text.zipIdx next)
  | .deleteChar line col => .deleteChar line col
  | .deleteRange startChar endChar => .deleteRange startChar endChar
  | .deleteLine line => .deleteLine line
  | .replaceLineText line newText => .replaceLineText line (newText.zipIdx next)
  | .insertStrAtCharNoUndo charIdx text => .insertStrAtCharNoUndo charIdx (text.zipIdx next)
  | .deleteRangeNoUndo startChar endChar => .deleteRangeNoUndo startChar endChar
  | .beginUndoGroup cursorLine cursorCol => .beginUndoGroup cursorLine cursorCol
  | .endUndoGroup cursorLine cursorCol => .endUndoGroup cursorLine cursorCol
  | .undo => .undo
  | .redo => .redo

/-- The characters that an edit brings in. -/
def added {α : Type} : Edit α → List α
  | .insertChar _ _ ch => [ch]
  | .insertStr _ _ text => text
  | .insertStrAtChar _ text => text
  | .replaceLineText _ newText => newText
  | .insertStrAtCharNoUndo _ text => text
  | _ => []

end Document.Edit

/-- A splice as a step in one direction. -/
def Splice.swap {α : Type} (dir : HistoryDir) (sp : Splice α) : Swap α :=
  ⟨sp.start, (sp.sides dir).1, (sp.sides dir).2⟩

/-- The steps of an entry in one direction. -/
def UndoEntry.swaps {α : Type} (dir : HistoryDir) (entry : UndoEntry α) : List (Swap α) :=
  (entry.ordered dir).map (Splice.swap dir)

structure Authored where
  doc : Document Marked
  /-- The mark for the next character. -/
  next : Nat
  /-- What the program put in. -/
  agent : List Marked
  /-- What the user put in. -/
  typed : List Marked
  /-- What a delete took out. -/
  deleted : List Marked
  pending : Ledger Marked
  undos : List (Ledger Marked)
  redos : List (Ledger Marked)
deriving DecidableEq

namespace Authored

/-- The state after an edit that is now in `doc`. -/
def noted (s : Authored) (edit : Document.Edit Char) (doc : Document Marked) : Authored :=
  let added := (edit.marked s.next).added
  let gone := s.doc.rope.filter fun a => decide (a ∉ doc.rope)
  let s' := { s with doc, next := s.next + added.length }
  match edit with
  | .insertStrAtCharNoUndo _ _ => { s' with agent := s.agent ++ added }
  | .deleteRangeNoUndo _ _ => { s' with deleted := s.deleted ++ gone }
  | .beginUndoGroup _ _ => if s.doc.undoGroupOpen then s' else { s' with pending := ⟨[], []⟩ }
  | .endUndoGroup _ _ =>
      if s.doc.pendingUndo.any fun entry => !entry.splices.isEmpty then
        { s' with undos := (s.pending :: s.undos).take undoCap }
      else s'
  | .undo =>
      match s.undos with
      | [] => s'
      | L :: rest => { s' with undos := rest, redos := L :: s.redos }
  | .redo =>
      match s.redos with
      | [] => s'
      | L :: rest => { s' with redos := rest, undos := (L :: s.undos).take undoCap }
  | _ =>
      { s' with
          typed := s.typed ++ added
          deleted := s.deleted ++ gone
          pending := {
            inserted := s.pending.inserted ++ added
            removed := s.pending.removed ++ gone.filter fun a => decide (a ∉ s.pending.inserted) }
          redos := if doc.redoStack.isEmpty then [] else s.redos }

def opening (text : List Char) (filePath : String) : Authored where
  doc := Document.fromText (text.zipIdx) filePath
  next := text.length
  agent := []
  typed := []
  deleted := []
  pending := ⟨[], []⟩
  undos := []
  redos := []

/-- A document from its opening on. -/
def machine : Machine Authored (Document.Edit Char) where
  start s := ∃ text filePath, s = opening text filePath
  step s edit := some (s.noted edit (s.doc.apply (edit.marked s.next)))

/-- A position with text of the user on both sides. -/
def insideTyped (s : Authored) (charIdx : Nat) : Bool :=
  match charIdx, s.doc.rope.drop (charIdx - 1) with
  | _ + 1, a :: b :: _ => decide (a ∈ s.typed) && decide (b ∈ s.typed)
  | _, _ => false

/-- Edits of the user are grouped, steps through the history are not, and
the program inserts outside of what the user typed. -/
def Grouped (s : Authored) : Document.Edit Char → Prop
  | .insertChar _ _ _ => s.doc.undoGroupOpen = true
  | .insertStr _ _ _ => s.doc.undoGroupOpen = true
  | .insertStrAtChar _ _ => s.doc.undoGroupOpen = true
  | .deleteChar _ _ => s.doc.undoGroupOpen = true
  | .deleteRange _ _ => s.doc.undoGroupOpen = true
  | .deleteLine _ => False
  | .replaceLineText _ _ => False
  | .insertStrAtCharNoUndo charIdx _ => s.insideTyped charIdx = false
  | .deleteRangeNoUndo _ _ => True
  | .beginUndoGroup _ _ => True
  | .endUndoGroup _ _ => True
  | .undo => s.doc.undoGroupOpen = false
  | .redo => s.doc.undoGroupOpen = false

instance (s : Authored) (edit : Document.Edit Char) : Decidable (s.Grouped edit) := by
  cases edit <;> unfold Grouped <;> infer_instance

/-- The recorded edits that undo goes back through, newest first. -/
def undoPath (s : Authored) : List (Swap Marked) :=
  (s.doc.pendingUndo.toList ++ s.doc.undoStack).flatMap (UndoEntry.swaps .undo)

/-- The recorded edits that redo goes on through. -/
def redoPath (s : Authored) : List (Swap Marked) :=
  s.doc.redoStack.flatMap (UndoEntry.swaps .redo)

/-- An edit of the program that the shift of the recorded edits gets
right: in the coordinates that each of them has, an insertion is on the
side of it that the shift takes it to be on, and a deletion spares what
the recorded edits are about and is as long in front of each as the
shift takes it to be. -/
def Clear (s : Authored) : Document.Edit Char → Prop
  | .insertStrAtCharNoUndo charIdx _ =>
      let idx := min charIdx s.doc.rope.length
      (carry idx s.undoPath idx).isSome = true ∧ (carry idx s.redoPath idx).isSome = true
  | .deleteRangeNoUndo startChar endChar =>
      let first := min startChar s.doc.rope.length
      let last := min endChar s.doc.rope.length
      let gone := slice s.doc.rope first last
      let keep := fun a => decide (a ∉ gone)
      let remap := (Drift.deleted (last - first)).remap first
      Spared keep remap s.undoPath s.doc.rope ∧ Spared keep remap s.redoPath s.doc.rope
  | _ => True

instance (s : Authored) (edit : Document.Edit Char) : Decidable (s.Clear edit) := by
  cases edit <;> unfold Clear <;> infer_instance

/-- Undo takes back what its group did, and nothing else. -/
def ExactUndo (s : Authored) : Prop :=
  s.doc.undoGroupOpen = false →
    match s.undos with
    | [] => s.doc.undo.1.rope = s.doc.rope
    | L :: _ => L.Net s.doc.undo.1.rope s.doc.rope

/-- Nothing but a delete takes text of the program away. -/
def AgentTextKept (s : Authored) : Prop := ∀ a ∈ s.agent, a ∉ s.deleted → a ∈ s.doc.rope

end Authored

end Yaldabaoth
