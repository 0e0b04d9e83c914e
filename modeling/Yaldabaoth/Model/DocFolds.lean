import Mathlib.Data.List.MinMax
import Yaldabaoth.Lib.Machine
import Yaldabaoth.Lib.Maps

/-!
# `Yaldabaoth.Model.DocFolds`: folded sections of a rendered document

`doc_fold.rs`, with the part of `DocState` (`doc.rs`) that it reads and
writes. The content of a heading is its plain text, other blocks are
alike, and of a source span the first line is kept. The scroll state of
the list and the counters that tell the view to repaint are left out.
-/

set_option autoImplicit false

namespace Yaldabaoth

inductive RenderedBlock where
  | heading (level : Nat) (content : String)
  | other
deriving Repr, DecidableEq

structure SourceSpan where
  lineStart : Nat
deriving Repr, DecidableEq

/-- Blocks, and where they come from in the source; there are no spans
when they come from no source. -/
structure Rendered where
  blocks : List RenderedBlock
  spans : List SourceSpan
deriving Repr, DecidableEq

/-- The level and the text of a heading. -/
abbrev HeadingIdentity := Nat × String

/-- Folded headings, by their first source line. -/
abbrev DocFolds := Std.TreeMap Nat HeadingIdentity

namespace RenderedBlock

def identity : RenderedBlock → Option HeadingIdentity
  | .heading level content => some (level, content)
  | .other => none

def headingLevel (b : RenderedBlock) : Option Nat := b.identity.map Prod.fst

end RenderedBlock

/-- The level of the block, where it is a heading. -/
def levelAt (blocks : List RenderedBlock) (i : Nat) : Option Nat :=
  blocks[i]?.bind RenderedBlock.headingLevel

structure FoldLayout where
  hidden : List Bool
  /-- How many blocks the fold of a painted heading hides. -/
  folded : Map Nat Nat

namespace FoldLayout

/-- The layout of the blocks seen so far, and the outermost fold that
hides blocks, with its level. -/
structure Scan where
  layout : FoldLayout
  opened : Option (Nat × Nat)

/-- Whether a block ends the section of the fold. -/
def closes (fold : Nat × Nat) (b : RenderedBlock) : Bool :=
  b.headingLevel.any fun level => decide (level ≤ fold.2)

def visit (key : Nat → Nat) (folds : DocFolds) (s : Scan) (b : RenderedBlock) : Scan :=
  let i := s.layout.hidden.length
  match s.opened.filter fun fold => !closes fold b with
  | some (owner, level) =>
      { layout :=
          { hidden := s.layout.hidden ++ [true]
            folded := s.layout.folded.insert owner ((s.layout.folded.lookup owner).getD 0 + 1) }
        opened := some (owner, level) }
  | none =>
      { layout := { s.layout with hidden := s.layout.hidden ++ [false] }
        opened :=
          if folds.contains (key i) then b.headingLevel.map fun level => (i, level) else none }

def compute (blocks : List RenderedBlock) (key : Nat → Nat) (folds : DocFolds) : FoldLayout :=
  (blocks.foldl (visit key folds) ⟨⟨[], ∅⟩, none⟩).layout

def isHidden (layout : FoldLayout) (i : Nat) : Bool := layout.hidden[i]?.getD false

def hiddenCount (layout : FoldLayout) (i : Nat) : Option Nat := layout.folded.lookup i

/-- The nearest painted block above. -/
def paintedAbove (layout : FoldLayout) (i : Nat) : Option Nat :=
  (List.range i).reverse.find? fun j => !layout.isHidden j

end FoldLayout

structure DocState where
  blocks : List RenderedBlock
  spans : List SourceSpan
  cursorBlock : Nat
  folds : DocFolds
  foldLayout : FoldLayout

/-- A heading of a document, with its fold key. -/
structure DocHeading where
  line : Nat
  identity : HeadingIdentity
deriving Repr, DecidableEq

def absDiff (a b : Nat) : Nat := (a - b) + (b - a)

namespace DocFolds

variable (headings : List DocHeading)

/-- The headings that no fold has been given. -/
def free (out : DocFolds) : List DocHeading := headings.filter fun h => !out.contains h.line

/-- The nearest free heading with the same level and text. -/
def nearestIdentical (out : DocFolds) (oldLine : Nat) (identity : HeadingIdentity) :
    Option DocHeading :=
  ((free headings out).filter fun h => h.identity == identity).argmin
    fun h => absDiff h.line oldLine

/-- The free heading on the old line, of the same level. -/
def onOldLine (out : DocFolds) (oldLine : Nat) (identity : HeadingIdentity) : Option DocHeading :=
  (free headings out).find? fun h => h.line == oldLine && h.identity.1 == identity.1

def best (out : DocFolds) (oldLine : Nat) (identity : HeadingIdentity) : Option DocHeading :=
  (nearestIdentical headings out oldLine identity).or (onOldLine headings out oldLine identity)

def give (choice : DocFolds → Nat → HeadingIdentity → Option DocHeading) (out : DocFolds)
    (fold : Nat × HeadingIdentity) : DocFolds :=
  match choice out fold.1 fold.2 with
  | some h => out.insert h.line h.identity
  | none => out

end DocFolds

namespace DocState

def foldKey (d : DocState) (i : Nat) : Nat := (d.spans[i]?.map SourceSpan.lineStart).getD i

def headingIdentity (d : DocState) (i : Nat) : Option HeadingIdentity :=
  d.blocks[i]?.bind RenderedBlock.identity

def isBlockHidden (d : DocState) (i : Nat) : Bool := d.foldLayout.isHidden i

def headings (d : DocState) : List DocHeading :=
  (List.range d.blocks.length).filterMap fun i =>
    (d.headingIdentity i).map fun identity => ⟨d.foldKey i, identity⟩

/-- The layout again, and a cursor that is hidden now goes up to the
heading that hides it. -/
def refold (d : DocState) : DocState :=
  let layout := FoldLayout.compute d.blocks d.foldKey d.folds
  { d with
      foldLayout := layout
      cursorBlock :=
        if layout.isHidden d.cursorBlock then (layout.paintedAbove d.cursorBlock).getD 0
        else d.cursorBlock }

def rekeyFolds (d : DocState) : DocState :=
  refold
    { d with
        folds :=
          if d.folds.isEmpty then d.folds
          else d.folds.toList.foldl (DocFolds.give (DocFolds.best d.headings)) ∅ }

def viewing (r : Rendered) : DocState :=
  refold ⟨r.blocks, r.spans, 0, ∅, ⟨[], ∅⟩⟩

def setBlocks (d : DocState) (r : Rendered) : DocState :=
  rekeyFolds { d with blocks := r.blocks, spans := r.spans }

/-- The heading in whose section the block is. -/
def sectionHeading (d : DocState) (i : Nat) : Option Nat :=
  if d.blocks.length = 0 then none
  else
    (List.range (min i (d.blocks.length - 1) + 1)).reverse.find? fun j =>
      (levelAt d.blocks j).isSome

/-- How many blocks a fold of the heading would hide. -/
def sectionLen (d : DocState) (h : Nat) : Nat :=
  match levelAt d.blocks h with
  | none => 0
  | some level =>
      ((d.blocks.drop (h + 1)).takeWhile fun b => b.headingLevel.all fun l => level < l).length

def toggleFoldAtCursor (d : DocState) : Except String Unit × DocState :=
  match d.sectionHeading d.cursorBlock with
  | none => (.error "no heading above the cursor", d)
  | some h =>
      if d.folds.contains (d.foldKey h) then
        (.ok (), refold { d with folds := d.folds.erase (d.foldKey h) })
      else if d.sectionLen h = 0 then (.error "nothing to fold under this heading", d)
      else
        match d.headingIdentity h with
        | none => (.error "no heading above the cursor", d)
        | some identity => (.ok (), refold { d with folds := d.folds.insert (d.foldKey h) identity })

/-- The folds with that of one heading. -/
def addFold (d : DocState) (folds : DocFolds) (h : Nat) : DocFolds :=
  match d.headingIdentity h with
  | some identity => folds.insert (d.foldKey h) identity
  | none => folds

/-- The headings that have a section. -/
def foldable (d : DocState) : List Nat :=
  (List.range d.blocks.length).filter fun i => 0 < d.sectionLen i

def foldAll (d : DocState) : Nat × DocState :=
  (d.foldable.length, refold { d with folds := d.foldable.foldl d.addFold d.folds })

def unfoldAll (d : DocState) : DocState := refold { d with folds := ∅ }

/-- One round of `reveal_fold`. There is none when it returns. -/
def revealRound (d : DocState) (i : Nat) : Option DocState :=
  if d.isBlockHidden i then
    match d.foldLayout.paintedAbove i with
    | none => none
    | some owner =>
        if d.folds.contains (d.foldKey owner) then
          some (refold { d with folds := d.folds.erase (d.foldKey owner) })
        else none
  else none

def revealRounds (i : Nat) : Nat → DocState → DocState
  | 0, d => d
  | fuel + 1, d =>
      match d.revealRound i with
      | none => d
      | some d' => revealRounds i fuel d'

/-- Every round takes out a fold, so there are no more rounds than folds. -/
def revealFold (d : DocState) (i : Nat) : DocState := revealRounds i d.folds.size d

def moveCursorTo (d : DocState) (target : Nat) : Bool × DocState :=
  if d.blocks.length = 0 then (false, d)
  else
    (true, { d.revealFold (min target (d.blocks.length - 1)) with
      cursorBlock := min target (d.blocks.length - 1) })

/-! ### Commands -/

inductive FoldCommand where
  | toggleFoldAtCursor
  | foldAll
  | unfoldAll
  | setBlocks (r : Rendered)
  | moveCursorTo (target : Nat)
deriving Repr, DecidableEq

def perform (d : DocState) : FoldCommand → DocState
  | .toggleFoldAtCursor => d.toggleFoldAtCursor.2
  | .foldAll => d.foldAll.2
  | .unfoldAll => d.unfoldAll
  | .setBlocks r => d.setBlocks r
  | .moveCursorTo target => (d.moveCursorTo target).2

/-- Any commands on a document. -/
def machine : Machine DocState FoldCommand where
  start d := ∃ r, d = viewing r
  step d command := some (d.perform command)

end DocState

end Yaldabaoth
