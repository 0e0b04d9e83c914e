import Mathlib.Data.List.Infix
import Yaldabaoth.Model.DiffModel

/-!
# `Yaldabaoth.Model.Review`: the stored review of a branch

`review_state.rs`: the files marked as viewed, the comments, and whether
the code a comment was written on is still there. A comment keeps the text
of its lines; of its other fields only those that place it are here.
-/

set_option autoImplicit false

namespace Yaldabaoth

namespace Diff

open DiffText (trimEnd)

inductive CommentSide where
  | new
  | old
deriving Repr, DecidableEq

structure ReviewComment where
  path : List Char
  side : CommentSide
  /-- The first and the last line on its side. -/
  lines : Nat × Nat
  snippet : List Char
  body : List Char
  outdated : Bool
deriving Repr, DecidableEq

structure Review where
  /-- The hash that a path was viewed at. -/
  viewed : List Char → Option UInt64
  comments : List ReviewComment

def Review.isViewed (r : Review) (file : FileDiff) : Bool := r.viewed file.path = some file.fileHash

/-- The text of a line that is on the side. -/
def onSide (side : CommentSide) : DiffLine → Option (List Char)
  | .context text => some text
  | .added text => if side = .new then some text else none
  | .removed text => if side = .old then some text else none

/-- The lines of the side in all hunks. -/
def hunkLines (file : FileDiff) (side : CommentSide) : List (List Char) :=
  ((file.hunks.flatMap Hunk.lines).filterMap (onSide side)).map trimEnd

/-- What is searched for a snippet; a last line end is no line of its own. -/
def needle (snippet : List Char) : List (List Char) :=
  let pieces := (snippet.splitOn '\n').map trimEnd
  if 1 < pieces.length ∧ pieces.getLast? = some [] then pieces.dropLast else pieces

def runPresent (hay : List (List Char)) (snippet : List Char) : Bool :=
  hay.tails.any fun tail => (needle snippet).isPrefixOf tail

def snippetPresent (file : FileDiff) (side : CommentSide) (snippet : List Char) : Bool :=
  runPresent (hunkLines file side) snippet

def snippetInText (text snippet : List Char) : Bool :=
  runPresent ((TextLines.lines text).map trimEnd) snippet

/-- A comment is live while its snippet is in the hunks, or, on the new
side, anywhere in the text of the file. -/
def outdatedNow (files : List FileDiff) (newText : List Char → Option (List Char))
    (c : ReviewComment) : Bool :=
  match files.find? fun f => f.path = c.path with
  | none => true
  | some file =>
      if snippetPresent file c.side c.snippet then false
      else if c.side = .new then !(newText c.path).any fun text => snippetInText text c.snippet
      else true

def Review.recomputeOutdatedWith (r : Review) (files : List FileDiff)
    (newText : List Char → Option (List Char)) : Review :=
  { r with comments := r.comments.map fun c => { c with outdated := outdatedNow files newText c } }

end Diff

end Yaldabaoth
