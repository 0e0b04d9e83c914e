import Mathlib.Data.List.MinMax
import Yaldabaoth.Model.DocFolds
import Yaldabaoth.Model.Review

/-!
# `Yaldabaoth.Model.DiffRows`: the rows of a diff

`diff.rs`: a file is listed as its header, its hunks, and what is revealed
of the unchanged lines in the gaps above, between and below them; a
comment is listed as a card under the code it is about.

Line numbers are natural numbers. What the cache of texts answers is a
function of path and side, and the reveals of a file one of the gap.
-/

set_option autoImplicit false

namespace Yaldabaoth

namespace Diff

open DiffText (chars trimEnd)
open TextLines (dropCr)

/-! ### Texts of files -/

structure FileContent where
  text : List Char
deriving Repr, DecidableEq

namespace FileContent

/-- The lines without their ends; a last line end starts no line. -/
def lines (c : FileContent) : List (List Char) :=
  let pieces := c.text.splitOn '\n'
  (if pieces.getLast? = some [] then pieces.dropLast else pieces).map dropCr

def lineCount (c : FileContent) : Nat := c.lines.length

/-- The line of that number, counted from one. -/
def line (c : FileContent) (n : Nat) : Option (List Char) :=
  if n = 0 then none else c.lines[n - 1]?

end FileContent

structure FileTexts where
  content : List Char → CommentSide → Option FileContent

def FileTexts.line (t : FileTexts) (path : List Char) (side : CommentSide) (n : Nat) :
    Option (List Char) :=
  (t.content path side).bind fun c => c.line n

/-! ### Folds -/

structure Folds where
  collapsed : List Char → Bool
  expanded : List Char → Bool

def Folds.isCollapsed (f : Folds) (path : List Char) (viewed : Bool) : Bool :=
  if viewed then !f.expanded path else f.collapsed path

/-! ### Gaps -/

inductive GapKind where
  | top
  | between
  | bottom
deriving Repr, DecidableEq

inductive ExpandDir where
  | down
  | up
  | all
deriving Repr, DecidableEq

def expandStep : Nat := 20

def expandAllUnder : Nat := 30

def diffContextLines : Nat := 3

def commentRevealContext : Nat := 3

/-- The unchanged lines `lo` to `hi` of the new side; no `hi` is an end that
is not known. -/
structure Gap where
  lo : Nat
  hi : Option Nat
  oldDelta : Int
  kind : GapKind
deriving Repr, DecidableEq

structure GapReveal where
  top : Nat := 0
  bottom : Nat := 0
deriving Repr, DecidableEq

namespace Gap

def len (gap : Gap) : Option Nat := gap.hi.map fun hi => hi + 1 - gap.lo

/-- What is shown at the top and at the bottom, and how much stays hidden. -/
def effective (gap : Gap) (r : GapReveal) : Nat × Nat × Option Nat :=
  match gap.len with
  | some len =>
      let top := min r.top len
      let bottom := min r.bottom (len - top)
      (top, bottom, some (len - top - bottom))
  | none => (0, 0, none)

end Gap

def expandable (f : FileDiff) : Bool := f.hunks ≠ [] && f.status ≠ .deleted

/-- The gap above hunk `g`, or below the last one. -/
def fileGap (f : FileDiff) (total : Option Nat) (g : Nat) : Gap :=
  let n := f.hunks.length
  let (oldAt, newAt) :=
    if g = 0 then
      let (o, nw) := (f.hunks[0]?.map Hunk.firstLines).getD (0, 0)
      (o, max nw 1)
    else (f.hunks[g - 1]?.map Hunk.nextLines).getD (0, 0)
  let lo := if g = 0 then 1 else newAt
  let hi :=
    if g < n then some (((f.hunks[g]?.map Hunk.firstLines).getD (0, 0)).2 - 1)
    else
      match total with
      | some t => some t
      | none =>
          if (f.hunks.getLast?.map Hunk.trailingContext).getD 0 < diffContextLines then some (lo - 1)
          else none
  { lo, hi
    oldDelta := oldAt - newAt
    kind := if g = 0 then .top else if g = n then .bottom else .between }

def fileGaps (f : FileDiff) (total : Option Nat) : List Gap :=
  if expandable f then (List.range (f.hunks.length + 1)).map (fileGap f total) else []

/-- `apply_expand`: the reveal after it, or none where it answers `false`
and leaves the reveal as it is. -/
def applyExpand (gap : Gap) (r : GapReveal) (dir : ExpandDir) : Option GapReveal :=
  match gap.effective r with
  | (_, _, none) => none
  | (top, bottom, some hidden) =>
      if hidden = 0 then none
      else
        let step := if hidden < expandAllUnder then hidden else min expandStep hidden
        match dir with
        | .down => some { top := top + step, bottom }
        | .up => some { top, bottom := bottom + step }
        | .all => some { top := top + hidden, bottom }

structure FileExpansion where
  fileHash : UInt64
  gaps : Nat → GapReveal
  pending : List (Nat × ExpandDir)

/-- The reveals of each path. -/
structure Expansions where
  byPath : List Char → Option FileExpansion

/-- The entry of the file, if it was made for these contents. -/
def Expansions.find (e : Expansions) (f : FileDiff) : Option FileExpansion :=
  (e.byPath f.path).filter fun entry => entry.fileHash = f.fileHash

/-! ### Rows -/

inductive RowRef where
  | file (file : Nat) (viewed collapsed : Bool)
  | hunk (file hunk : Nat)
  | line (file hunk line : Nat) (old new : Option Nat)
  | comment (file comment part parts : Nat)
  | ctx (file old new : Nat)
  | expander (file gap firstHidden : Nat) (hidden : Option Nat) (kind : GapKind) (loading : Bool)
deriving Repr, DecidableEq

namespace RowRef

/-- The index of its file. -/
def fileIndex : RowRef → Nat
  | file fi _ _ => fi
  | hunk fi _ => fi
  | line fi _ _ _ _ => fi
  | comment fi _ _ _ => fi
  | ctx fi _ _ => fi
  | expander fi _ _ _ _ _ => fi

/-- The numbers of a row of code on both sides. -/
def lineNumbers : RowRef → Option (Option Nat × Option Nat)
  | line _ _ _ old new => some (old, new)
  | ctx _ old new => some (some old, some new)
  | _ => none

def sideNumber (side : CommentSide) (row : RowRef) : Option Nat :=
  match side with
  | .new => row.lineNumbers.bind Prod.snd
  | .old => row.lineNumbers.bind Prod.fst

/-- The text of a row of code. -/
def lineText (f : FileDiff) (texts : FileTexts) : RowRef → Option (List Char)
  | line _ hi li _ _ => (f.hunks[hi]?.bind fun h => h.lines[li]?).map fun l => match l with
      | .added text => text
      | .removed text => text
      | .context text => text
  | ctx _ _ new => texts.line f.path .new new
  | _ => none

end RowRef

/-- `a..=b`. -/
def upTo (a b : Nat) : List Nat := List.range' a (b + 1 - a)

/-- What is listed of one gap: the lines shown from its top, the expander
while lines stay hidden, and the lines shown up from its bottom. -/
def gapRows (fi g : Nat) (gap : Gap) (reveal : GapReveal) (loading : Bool) : List RowRef :=
  let (top, bottom, hidden) := gap.effective reveal
  let ctx (n : Nat) : RowRef := .ctx fi ((n : Int) + gap.oldDelta).toNat n
  (List.range' gap.lo top).map ctx ++
    ((if hidden = some 0 then [] else [.expander fi g (gap.lo + top) hidden gap.kind loading]) ++
      match gap.hi with
      | some hi => (upTo (hi + 1 - bottom) hi).map ctx
      | none => [])

/-- A gap that is not empty and shown as a whole. -/
def Gap.merges (gap : Gap) (reveal : GapReveal) : Bool :=
  (gap.effective reveal).2.2 = some 0 && gap.len.any (0 < ·)

def lineRows (fi hi : Nat) (h : Hunk) : List RowRef :=
  h.lineNumbers.zipIdx.map fun ((old, new), li) => .line fi hi li old new

section body

variable (fi : Nat) (gaps : List Gap) (reveal : Nat → GapReveal) (loading : Bool)

/-- `push_gap`: the rows, and whether the header below is dropped. -/
def pushGap (g : Nat) : List RowRef × Bool :=
  match gaps[g]? with
  | none => ([], false)
  | some gap => (gapRows fi g gap (reveal g) loading, gap.merges (reveal g))

/-- The hunks from number `hi` on, and the gap below the last one. -/
def hunkRows (hi : Nat) : List Hunk → List RowRef
  | [] => (pushGap fi gaps reveal loading hi).1
  | h :: rest =>
      let (rows, merged) := pushGap fi gaps reveal loading hi
      rows ++ ((if merged then [] else [.hunk fi hi]) ++ (lineRows fi hi h ++ hunkRows (hi + 1) rest))

end body

/-- The rows of an unfolded file, without cards. -/
def bodyRows (fi : Nat) (f : FileDiff) (expansions : Expansions) (texts : FileTexts) : List RowRef :=
  let content := texts.content f.path .new
  let fexp := expansions.find f
  let reveal (g : Nat) : GapReveal :=
    match content, fexp with
    | some _, some e => e.gaps g
    | _, _ => {}
  hunkRows fi (fileGaps f (content.map FileContent.lineCount)) reveal
    (fexp.any fun e => e.pending ≠ []) 0 f.hunks

/-! ### Cards -/

/-- A line of one side: where it is listed, its number and its text. -/
structure SideLine where
  index : Nat
  number : Nat
  text : List Char
deriving Repr, DecidableEq

def sideLines (f : FileDiff) (texts : FileTexts) (body : List RowRef) (side : CommentSide) :
    List SideLine :=
  body.zipIdx.filterMap fun (row, index) => do
    let number ← row.sideNumber side
    let text ← row.lineText f texts
    some { index, number, text := trimEnd text }

/-- `windows`: all runs of `k` neighbours. -/
def windows {α : Type} (k : Nat) (l : List α) : List (List α) :=
  (List.range (l.length + 1 - k)).map fun i => (l.drop i).take k

/-- The listed line that ends the match nearest to the comment's last line. -/
def placeInSide (side : List SideLine) (c : ReviewComment) : Option Nat :=
  if c.snippet = [] then (side.find? fun l => l.number = c.lines.2).map SideLine.index
  else
    (((windows (needle c.snippet).length side).filter fun w =>
      w.map SideLine.text = needle c.snippet).filterMap List.getLast?).argmin
        (fun l => absDiff l.number c.lines.2) |>.map SideLine.index

/-- One step of `wrap_cols`: a word goes on the line, or on new ones. -/
def wrapWord (cols : Nat) (state : List (List Char) × List Char) (word : List Char) :
    List (List Char) × List Char :=
  let (out, line) := state
  let (out, line) :=
    if line ≠ [] ∧ cols < line.length + 1 + word.length then (out ++ [line], []) else (out, line)
  let line := if line ≠ [] then line ++ [' '] else line
  word.foldl (fun (out, line) c =>
    if line.length = cols then (out ++ [line], [c]) else (out, line ++ [c])) (out, line)

def wrapCols (text : List Char) (cols : Nat) : List (List Char) :=
  (text.splitOn '\n').flatMap fun para =>
    let (out, line) := (para.splitOn ' ').foldl (wrapWord (max cols 1)) ([], [])
    out ++ [line]

def commentWrapCols : Nat := 88

def commentMaxBodyRows : Nat := 8

def commentMaxSnippetRows : Nat := 3

inductive CardLine where
  | header
  | body (text : List Char)
  | snippet (text : List Char)
  | more
  | footer
deriving Repr, DecidableEq

def commentCardLines (c : ReviewComment) : List CardLine :=
  let body := wrapCols (trimEnd c.body) commentWrapCols
  let shown :=
    if commentMaxBodyRows < body.length then
      (body.take (commentMaxBodyRows - 1)).map CardLine.body ++ [.more]
    else body.map CardLine.body
  let code :=
    if c.outdated ∧ c.snippet ≠ [] then
      let snip := (c.snippet.rdropWhile (· = '\n')).splitOn '\n'
      (snip.take commentMaxSnippetRows).map CardLine.snippet ++
        if commentMaxSnippetRows < snip.length then [.snippet (chars "…")] else []
    else []
  .header :: (shown ++ (code ++ [.footer]))

/-- How many rows a card takes. -/
def cardParts (c : ReviewComment) : Nat := min (max (commentCardLines c).length 1) 255

def cardRows (fi ci : Nat) (c : ReviewComment) : List RowRef :=
  (List.range (cardParts c)).map fun part => .comment fi ci part (cardParts c)

/-- Where a comment is listed: under which row of the body, or under the
header of the file. -/
def placed (f : FileDiff) (texts : FileTexts) (body : List RowRef) (c : ReviewComment) : Option Nat :=
  if c.outdated then none else placeInSide (sideLines f texts body c.side) c

/-- The cards of the file's comments that stand at one place. -/
def cardsAt (fi : Nat) (f : FileDiff) (texts : FileTexts) (body : List RowRef)
    (comments : List ReviewComment) (place : Option Nat) : List RowRef :=
  (comments.zipIdx.filter fun (c, _) => c.path = f.path ∧ placed f texts body c = place).flatMap
    fun (c, ci) => cardRows fi ci c

/-- The rows of one file. -/
def fileRows (review : Option Review) (folds : Folds) (expansions : Expansions) (texts : FileTexts)
    (fi : Nat) (f : FileDiff) : List RowRef :=
  let viewed := review.any fun r => r.isViewed f
  let collapsed := folds.isCollapsed f.path viewed
  let body := bodyRows fi f expansions texts
  let cards := cardsAt fi f texts body ((review.map Review.comments).getD [])
  .file fi viewed collapsed ::
    if collapsed then []
    else cards none ++ body.zipIdx.flatMap fun (row, k) => row :: cards (some k)

def visibleRowsEx (files : List FileDiff) (review : Option Review) (folds : Folds)
    (expansions : Expansions) (texts : FileTexts) : List RowRef :=
  files.zipIdx.flatMap fun (f, fi) => fileRows review folds expansions texts fi f

end Diff

end Yaldabaoth
