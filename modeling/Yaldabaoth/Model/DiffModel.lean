import Mathlib.Data.List.DropRight
import Yaldabaoth.Lib.TextLines
import Yaldabaoth.Model.AgentTranscript
import Yaldabaoth.Model.Wire

/-!
# `Yaldabaoth.Model.DiffModel`: the text of a diff, parsed

`diff_model.rs`: the sections of `git diff --no-color` become files with
hunks, and a hunk's header says which lines of both sides it stands for.

Texts and paths are lists of characters, and a path is what it is spelled
like. The hash of a file is a parameter of what is fed to the hasher.
-/

set_option autoImplicit false

namespace Yaldabaoth

open TextLines

namespace DiffText

/-! ### Texts -/

def chars (text : String) : List Char := text.toList

/-- `str::trim_end`. -/
def trimEnd (text : List Char) : List Char := text.rdropWhile isWhitespace

/-- `str::trim`. -/
def trim (text : List Char) : List Char := trimEnd (text.dropWhile isWhitespace)

/-- `split(pat).nth(1)`. -/
def secondPiece (pat text : List Char) : Option (List Char) :=
  (afterFirst pat text).map (beforeFirst pat)

/-- `parse::<usize>`: a sign, digits, and no more than 64 bits. -/
def parseUsize (text : List Char) : Option Nat :=
  let digits := (afterPrefix ['+'] text).getD text
  if digits = [] ∨ ¬ digits.all Char.isDigit then none
  else
    let n := digits.foldl (fun acc digit => 10 * acc + (digit.toNat - '0'.toNat)) 0
    if n ≤ u64Max then some n else none

end DiffText

open DiffText

/-! ### Hunks -/

inductive DiffLine where
  | context (text : List Char)
  | added (text : List Char)
  | removed (text : List Char)
deriving Repr, DecidableEq

structure Hunk where
  header : List Char
  lines : List DiffLine
deriving Repr, DecidableEq

namespace Hunk

/-- `starts`: the operands' first numbers. -/
def starts (h : Hunk) : Nat × Nat :=
  let operand (sigil : List Char) : Option Nat := do
    let after ← secondPiece sigil h.header
    parseUsize (after.takeWhile fun c => c ≠ ',' && c ≠ ' ')
  ((operand (chars " -")).getD 0, (operand (chars " +")).getD 0)

/-- `ranges`: the first number and the count of either side; a count that
is left out is one. -/
def ranges (h : Hunk) : (Nat × Nat) × (Nat × Nat) :=
  let operand (sigil : List Char) : Option (Nat × Nat) := do
    let after ← secondPiece sigil h.header
    let op := after.takeWhile fun c => c ≠ ' '
    let start ← parseUsize (op.takeWhile fun c => c ≠ ',')
    let count ← match op.dropWhile fun c => c ≠ ',' with
      | [] => some 1
      | _ :: count => parseUsize count
    some (start, count)
  ((operand (chars " -")).getD (0, 0), (operand (chars " +")).getD (0, 0))

/-- A side without lines names the line before it. -/
def firstOf (start count : Nat) : Nat := if count = 0 then start + 1 else start

def nextOf (start count : Nat) : Nat := if count = 0 then start + 1 else start + count

def firstLines (h : Hunk) : Nat × Nat :=
  let ((os, oc), (ns, nc)) := h.ranges
  (firstOf os oc, firstOf ns nc)

def nextLines (h : Hunk) : Nat × Nat :=
  let ((os, oc), (ns, nc)) := h.ranges
  (nextOf os oc, nextOf ns nc)

def trailingContext (h : Hunk) : Nat :=
  (h.lines.reverse.takeWhile fun line => match line with
    | .context _ => true
    | _ => false).length

/-- The numbers of the lines from `o` and `n` on. -/
def numbersFrom (o n : Nat) : List DiffLine → List (Option Nat × Option Nat)
  | [] => []
  | .context _ :: rest => (some o, some n) :: numbersFrom (o + 1) (n + 1) rest
  | .removed _ :: rest => (some o, none) :: numbersFrom (o + 1) n rest
  | .added _ :: rest => (none, some n) :: numbersFrom o (n + 1) rest

def lineNumbers (h : Hunk) : List (Option Nat × Option Nat) :=
  numbersFrom h.starts.1 h.starts.2 h.lines

def patchText (h : Hunk) : List Char :=
  h.header ++ '\n' :: h.lines.flatMap fun line => match line with
    | .added text => '+' :: (text ++ ['\n'])
    | .removed text => '-' :: (text ++ ['\n'])
    | .context text => ' ' :: (text ++ ['\n'])

end Hunk

/-! ### Files -/

inductive FileStatus where
  | modified
  | added
  | deleted
  | renamed (source : List Char)
deriving Repr, DecidableEq

structure FileDiff where
  path : List Char
  status : FileStatus
  hunks : List Hunk
  added : Nat
  removed : Nat
  fileHash : UInt64
deriving Repr, DecidableEq

/-- What is fed to the hasher: the path, and the lines of each hunk. -/
abbrev HashInput := List Char × List (List DiffLine)

def hashInput (path : List Char) (hunks : List Hunk) : HashInput := (path, hunks.map Hunk.lines)

section parse

variable (hash : HashInput → UInt64)

def computeFileHash (path : List Char) (hunks : List Hunk) : UInt64 := hash (hashInput path hunks)

def devNull : List Char := chars "/dev/null"

/-- A tab and what follows it is a time stamp. -/
def parseDiffOperandPath (rest : List Char) : List Char :=
  let rest := DiffText.trim (rest.takeWhile fun c => c ≠ '\t')
  if rest = devNull then rest
  else ((afterPrefix (chars "a/") rest).or (afterPrefix (chars "b/") rest)).getD rest

/-- What the lines before the first hunk say. -/
structure SectionHead where
  renameFrom : Option (List Char) := none
  renameTo : Option (List Char) := none
  isNewFile : Bool := false
  isDeletedFile : Bool := false
  oldPath : Option (List Char) := none
  newPath : Option (List Char) := none
deriving Repr, DecidableEq

def SectionHead.read (s : SectionHead) (line : List Char) : SectionHead :=
  match afterPrefix (chars "rename from ") line with
  | some rest => { s with renameFrom := some rest }
  | none =>
      match afterPrefix (chars "rename to ") line with
      | some rest => { s with renameTo := some rest }
      | none =>
          if (chars "new file mode").isPrefixOf line then { s with isNewFile := true }
          else if (chars "deleted file mode").isPrefixOf line then { s with isDeletedFile := true }
          else
            match afterPrefix (chars "--- ") line with
            | some rest => { s with oldPath := some (parseDiffOperandPath rest) }
            | none =>
                match afterPrefix (chars "+++ ") line with
                | some rest => { s with newPath := some (parseDiffOperandPath rest) }
                | none => s

/-- The path that the `diff --git` line ends with. -/
def parseGitHeaderNewPath (headerLine : List Char) : Option (List Char) := do
  let rest ← afterPrefix (chars "diff --git ") headerLine
  afterFirst (chars " b/") rest

def isHunkHead (line : List Char) : Bool := (chars "@@").isPrefixOf line

def isSectionHead (line : List Char) : Bool := (chars "diff --git ").isPrefixOf line

def parseHunkLine (line : List Char) : Option DiffLine :=
  match line with
  | '\\' :: _ => none
  | '+' :: text => some (.added text)
  | '-' :: text => some (.removed text)
  | _ :: text => some (.context text)
  | [] => some (.context [])

def parseHunks (lines : List (List Char)) : List Hunk :=
  (chunks isHunkHead isSectionHead lines).2.map fun (header, body) =>
    ⟨header, body.filterMap parseHunkLine⟩

/-- The path and the status that a section's head says. -/
def SectionHead.path (s : SectionHead) (first : List Char) : List Char :=
  (s.renameTo.or
    ((s.newPath.filter fun p => p ≠ devNull).or
      ((s.oldPath.filter fun p => p ≠ devNull).or (parseGitHeaderNewPath first)))).getD
        (chars "unknown")

def SectionHead.status (s : SectionHead) : FileStatus :=
  match s.renameFrom with
  | some source => .renamed source
  | none =>
      if s.isNewFile ∨ s.oldPath = some devNull then .added
      else if s.isDeletedFile ∨ s.newPath = some devNull then .deleted
      else .modified

def countLines (p : DiffLine → Bool) (hunks : List Hunk) : Nat :=
  ((hunks.flatMap Hunk.lines).filter p).length

def parseFileSection (lines : List (List Char)) : FileDiff :=
  let head := (lines.takeWhile fun line => !isHunkHead line).foldl SectionHead.read {}
  let path := head.path (lines.head?.getD [])
  let hunks := parseHunks lines
  { path
    status := head.status
    hunks
    added := countLines (fun line => match line with
      | .added _ => true
      | _ => false) hunks
    removed := countLines (fun line => match line with
      | .removed _ => true
      | _ => false) hunks
    fileHash := computeFileHash hash path hunks }

/-- A section is a `diff --git` line with the lines up to the next one. -/
def parseFiles (raw : List Char) : List FileDiff :=
  (chunks isSectionHead (fun _ => false) (lines raw)).2.map fun (first, rest) =>
    parseFileSection hash (first :: rest)

end parse

end Yaldabaoth
