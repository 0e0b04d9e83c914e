import Yaldabaoth.Model.DiffModel

/-!
# `Yaldabaoth.Model.GitDiff`: the text that `git diff` prints

The unified diff of a list of changed files, with the prefixes `a/` and
`b/` and no quoted paths. What the parser is to read is what these
structures hold; modes, hashes and the operands of a hunk header are texts
in one line, whatever they are.
-/

set_option autoImplicit false

namespace Yaldabaoth

open DiffText (chars)

/-- A text in one line. -/
abbrev OneLine := { text : List Char // '\n' ∉ text }

/-- A path in a repository that git does not quote. -/
structure RepoPath where
  name : List Char
  plain : '\n' ∉ name ∧ '\t' ∉ name ∧ '"' ∉ name
  relative : name.head? ≠ some '/'

namespace DiffLine

def text : DiffLine → List Char
  | .context text => text
  | .added text => text
  | .removed text => text

def mark : DiffLine → Char
  | .context _ => ' '
  | .added _ => '+'
  | .removed _ => '-'

/-- The line in the diff. -/
def printed (line : DiffLine) : List Char := line.mark :: line.text

end DiffLine

structure GitLine where
  line : DiffLine
  plain : '\n' ∉ line.text
  noNewline : Bool

/-- The heading of a hunk is cut at its last character that is not white. -/
structure GitHunk where
  operands : OneLine
  heading : Option OneLine
  trimmed : ∀ text ∈ heading, text.1.getLast? ≠ some '\r'
  lines : List GitLine

inductive GitChange where
  | modified (modes : Option (OneLine × OneLine))
  | added (mode : OneLine)
  | deleted (mode : OneLine)
  | renamed (source : RepoPath) (modes : Option (OneLine × OneLine)) (similarity : OneLine)

inductive GitContent where
  | none
  | binary
  | hunks (first : GitHunk) (rest : List GitHunk)

structure GitFile where
  path : RepoPath
  change : GitChange
  index : Option OneLine
  content : GitContent

def noNewlineMarker : List Char := chars "\\ No newline at end of file"

namespace GitHunk

def header (h : GitHunk) : List Char :=
  chars "@@ " ++ (h.operands.1 ++ (chars " @@" ++ match h.heading with
    | some text => ' ' :: text.1
    | none => []))

def body (h : GitHunk) : List (List Char) :=
  h.lines.flatMap fun l => l.line.printed :: if l.noNewline then [noNewlineMarker] else []

/-- The hunk without its markers, as it is printed. -/
def patch (h : GitHunk) : List Char :=
  TextLines.unlines (h.header :: h.lines.map fun l => l.line.printed)

/-- The hunk as it is to be read. -/
def hunk (h : GitHunk) : Hunk := ⟨h.header, h.lines.map GitLine.line⟩

end GitHunk

def GitContent.list : GitContent → List GitHunk
  | .none => []
  | .binary => []
  | .hunks first rest => first :: rest

namespace GitFile

/-- The path on the old side. -/
def source (f : GitFile) : RepoPath :=
  match f.change with
  | .renamed source _ _ => source
  | _ => f.path

def oldName (f : GitFile) : List Char :=
  match f.change with
  | .added _ => devNull
  | _ => chars "a/" ++ f.source.name

def newName (f : GitFile) : List Char :=
  match f.change with
  | .deleted _ => devNull
  | _ => chars "b/" ++ f.path.name

/-- A name with a space in it is followed by a tab. -/
def operand (name : List Char) : List Char := name ++ if name.contains ' ' then ['\t'] else []

def modeLines (modes : Option (OneLine × OneLine)) : List (List Char) :=
  match modes with
  | some (old, new) => [chars "old mode " ++ old.1, chars "new mode " ++ new.1]
  | none => []

def changeLines (f : GitFile) : List (List Char) :=
  match f.change with
  | .modified modes => modeLines modes
  | .added mode => [chars "new file mode " ++ mode.1]
  | .deleted mode => [chars "deleted file mode " ++ mode.1]
  | .renamed source modes similarity =>
      modeLines modes ++ [chars "similarity index " ++ similarity.1,
        chars "rename from " ++ source.name, chars "rename to " ++ f.path.name]

def indexLines (f : GitFile) : List (List Char) :=
  match f.index with
  | some index => [chars "index " ++ index.1]
  | none => []

def nameLines (f : GitFile) : List (List Char) :=
  match f.content with
  | .none => []
  | .binary => [chars "Binary files " ++ (f.oldName ++ (chars " and " ++ (f.newName ++
      chars " differ")))]
  | .hunks _ _ => [chars "--- " ++ operand f.oldName, chars "+++ " ++ operand f.newName]

def firstLine (f : GitFile) : List Char :=
  chars "diff --git " ++ (chars "a/" ++ (f.source.name ++ (chars " b/" ++ f.path.name)))

def lines (f : GitFile) : List (List Char) :=
  f.firstLine :: (f.changeLines ++ (f.indexLines ++ (f.nameLines ++
    f.content.list.flatMap fun h => h.header :: h.body)))

def status (f : GitFile) : FileStatus :=
  match f.change with
  | .modified _ => .modified
  | .added _ => .added
  | .deleted _ => .deleted
  | .renamed source _ _ => .renamed source.name

def hunks (f : GitFile) : List Hunk := f.content.list.map GitHunk.hunk

end GitFile

/-- The output of `git diff`. -/
def gitDiff (files : List GitFile) : List Char :=
  TextLines.unlines (files.flatMap GitFile.lines)

end Yaldabaoth
