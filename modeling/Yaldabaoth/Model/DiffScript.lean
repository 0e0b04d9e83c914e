import Yaldabaoth.Model.DiffRows

/-!
# `Yaldabaoth.Model.DiffScript`: a file as it was compared

A file compared with its older self is changed blocks with unchanged lines
above, between and below them. Its hunks are the blocks under the headers
that unified diff gives them: a count of one is left out, and a side
without lines names the line before it.
-/

set_option autoImplicit false

namespace Yaldabaoth

namespace Diff

open DiffText (chars)

structure Block where
  /-- The unchanged lines that no hunk shows, above. -/
  before : Nat
  lines : List DiffLine
  heading : List Char

structure Script where
  blocks : List Block
  /-- The unchanged lines below the last hunk. -/
  below : Nat

/-- The lines that a side has. -/
def oldCount (lines : List DiffLine) : Nat := (lines.filterMap (onSide .old)).length

def newCount (lines : List DiffLine) : Nat := (lines.filterMap (onSide .new)).length

/-- A line that is the same on both sides. -/
def unchanged (len : Nat) : List DiffLine := List.replicate len (.context [])

namespace Script

/-- The number before the comma in a header. -/
def startOf (first count : Nat) : Nat := if count = 0 then first - 1 else first

def operand (first count : Nat) : List Char :=
  Nat.toDigits 10 (startOf first count) ++ if count = 1 then [] else ',' :: Nat.toDigits 10 count

def hunkHeader (o n : Nat) (b : Block) : List Char :=
  chars "@@" ++ (chars " -" ++ (operand o (oldCount b.lines) ++ (chars " +" ++
    (operand n (newCount b.lines) ++ (chars " @@" ++ b.heading)))))

/-- The hunk of a block whose first lines are `o` and `n`. -/
def hunkAt (o n : Nat) (b : Block) : Hunk := ⟨hunkHeader o n b, b.lines⟩

/-- The hunks of the blocks from the lines `o` and `n` on. -/
def hunksFrom (o n : Nat) : List Block → List Hunk
  | [] => []
  | b :: rest =>
      hunkAt (o + b.before) (n + b.before) b ::
        hunksFrom (o + b.before + oldCount b.lines) (n + b.before + newCount b.lines) rest

def hunks (s : Script) : List Hunk := hunksFrom 1 1 s.blocks

/-- All lines, with blank ones where nothing was changed. -/
def linesFrom (below : Nat) : List Block → List DiffLine
  | [] => unchanged below
  | b :: rest => unchanged b.before ++ (b.lines ++ linesFrom below rest)

def lines (s : Script) : List DiffLine := linesFrom s.below s.blocks

/-- The numbers of every line on both sides. -/
def numbers (s : Script) : List (Option Nat × Option Nat) := Hunk.numbersFrom 1 1 s.lines

def newTotal (s : Script) : Nat := newCount s.lines

/-- The line numbers are machine words. -/
def Fits (s : Script) : Prop := oldCount s.lines ≤ u64Max ∧ newCount s.lines ≤ u64Max

instance (s : Script) : Decidable s.Fits :=
  inferInstanceAs (Decidable (oldCount s.lines ≤ u64Max ∧ newCount s.lines ≤ u64Max))

end Script

end Diff

end Yaldabaoth
