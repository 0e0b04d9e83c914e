import Yaldabaoth.Model.MdHighlight

/-!
# `Yaldabaoth.Model.RenderedLine`: columns and links of a rendered line

What `agent.rs` of the desktop program recovers from a line and its
stripped rendering: the source column of each rendered character, and the
links. Texts are characters throughout: the bytes that
`rendered_markdown_links` looks for are ASCII, so that none is part of
another character.
-/

set_option autoImplicit false

namespace Yaldabaoth

namespace MdHighlight

/-! ### Columns -/

def isListMarker (c : Option Char) : Bool :=
  c = some '-' || c = some '*' || c = some '+'

/-- The loop over the rendered characters, with the column `ri` it has come
to in the source. -/
def stripLoop (raw : List Char) : List Char → Nat → List Nat
  | [], ri => [min ri raw.length]
  | sc :: stripped, ri =>
      if sc = '\u2022' ∧ isListMarker raw[ri]? then ri :: stripLoop raw stripped (ri + 1)
      else
        let found := ri + ((raw.drop ri).takeWhile fun c => c ≠ sc).length
        min found raw.length :: stripLoop raw stripped (min (found + 1) raw.length)

def strippedToRawCols (raw stripped : List Char) : List Nat := stripLoop raw stripped 0

/-- The columns ascend, so the binary search counts those below. -/
def rawToStrippedCol (map : List Nat) (rawCol : Nat) : Nat :=
  (map.dropLast.takeWhile fun r => r < rawCol).length

/-! ### Links -/

structure RenderedMarkdownLink where
  start : Nat
  stop : Nat
  target : List Char
deriving Repr, DecidableEq

/-- The link between a bracket at `i` and the delimiters found behind it, if
it shows something and leads somewhere. -/
def renderedLink (raw : List Char) (rawCols : List Nat) (i labelEnd targetEnd : Nat) :
    List RenderedMarkdownLink :=
  let renderedStart := rawToStrippedCol rawCols (i + 1)
  let renderedEnd := rawToStrippedCol rawCols labelEnd
  let target := trimText ((raw.take targetEnd).drop (labelEnd + 2))
  if renderedStart < renderedEnd ∧ target ≠ [] then [⟨renderedStart, renderedEnd, target⟩] else []

/-- The next `c` from a column on. -/
def positionFrom (raw : List Char) (c : Char) (i : Nat) : Option Nat :=
  ((raw.drop i).idxOf? c).map (i + ·)

/-- The loop of `rendered_markdown_links`. Each turn goes on by a character
at least, so as many turns as there are characters are enough. -/
def linksLoop (raw : List Char) (rawCols : List Nat) : Nat → Nat → List RenderedMarkdownLink
  | 0, _ => []
  | fuel + 1, i =>
      if i < raw.length then
        if raw[i]? ≠ some '[' ∨ (0 < i ∧ raw[i - 1]? = some '\\') then
          linksLoop raw rawCols fuel (i + 1)
        else
          match positionFrom raw ']' (i + 1) with
          | none => []
          | some labelEnd =>
              if raw[labelEnd + 1]? ≠ some '(' then linksLoop raw rawCols fuel (labelEnd + 1)
              else
                match positionFrom raw ')' (labelEnd + 2) with
                | none => []
                | some targetEnd =>
                    renderedLink raw rawCols i labelEnd targetEnd ++
                      linksLoop raw rawCols fuel (targetEnd + 1)
      else []

def renderedMarkdownLinks (raw rendered : List Char) : List RenderedMarkdownLink :=
  linksLoop raw (strippedToRawCols raw rendered) raw.length 0

end MdHighlight

end Yaldabaoth
