import Yaldabaoth.Lib.Spans
import Yaldabaoth.Model.Markdown

/-!
# `Yaldabaoth.Model.MarkdownSource`: where a block comes from

`render_mapped` and `outline` of `render.rs`, and `Rendered` of `blocks.rs`.
The parser gives each event with the bytes that it covers; the event that
opens an element covers all of it.
-/

set_option autoImplicit false

namespace Yaldabaoth

namespace Markdown

abbrev Range := Nat × Nat

def newline : UInt8 := 10

/-! ### Lines -/

/-- Queries in order are counted on from the last one. -/
structure LineIndex where
  text : List UInt8
  pos : Nat
  line : Nat

namespace LineIndex

def new (text : List UInt8) : LineIndex := ⟨text, 0, 0⟩

def lineOf (index : LineIndex) (byte : Nat) : Nat × LineIndex :=
  let byte := min byte index.text.length
  let index := if byte < index.pos then { index with pos := 0, line := 0 } else index
  let line := index.line + ((index.text.take byte).drop index.pos).count newline
  (line, { index with pos := byte, line })

/-- The lines that the bytes cover; a line break at the end starts no other line. -/
def linesOf (index : LineIndex) (bytes : Range) : Range × LineIndex :=
  let (start, index) := index.lineOf bytes.1
  if bytes.1 < bytes.2 then
    let (last, index) := index.lineOf (bytes.2 - 1)
    ((start, last + 1), index)
  else ((start, start + 1), index)

def linesOfAll (index : LineIndex) : List Range → List Range
  | [] => []
  | bytes :: rest =>
      let (lines, index) := index.linesOf bytes
      lines :: linesOfAll index rest

end LineIndex

/-! ### Spans -/

structure SourceSpan where
  bytes : Range
  lines : Range
deriving Repr, DecidableEq

structure Rendered where
  blocks : List RenderedBlock
  spans : List SourceSpan

namespace Rendered

def blockAtLine (d : Rendered) (line : Nat) : Option Nat :=
  if d.spans.isEmpty then none
  else some (Spans.partitionPoint (fun s => decide (s.lines.1 ≤ line)) d.spans - 1)

end Rendered

namespace Renderer

variable (r : Renderer)

/-- `render` on the events of the document, with the range of each block. -/
def renderTop : Nat → List (Event × Range) → List RenderedBlock × List Range
  | 0, _ => ([], [])
  | _ + 1, [] => ([], [])
  | fuel + 1, (e, range) :: rest =>
      let (blocks, after) := r.renderOne fuel e (rest.map Prod.fst)
      let (more, ranges) := renderTop fuel (rest.drop (rest.length - after.length))
      (blocks ++ more, blocks.map (fun _ => range) ++ ranges)

/-- `render_mapped`, on the events of the parser. -/
def renderMapped (markdown : List UInt8) (events : List (Event × Range)) : Rendered :=
  let (blocks, starts) := r.renderTop (2 * events.length) events
  let lines := (LineIndex.new markdown).linesOfAll starts
  ⟨blocks, (starts.zip lines).map fun s => ⟨s.1, s.2⟩⟩

end Renderer

/-! ### Outline -/

structure OutlineHeading where
  level : Nat
  text : Text
  bytes : Range
  line : Nat
deriving Repr, DecidableEq

/-- The headings up to here, the one that is open, and the lines counted. -/
structure Outline where
  out : List OutlineHeading
  current : Option OutlineHeading
  lines : LineIndex

namespace Outline

def push (o : Outline) (text : Text) : Outline :=
  { o with current := o.current.map fun h => { h with text := h.text ++ text } }

def step (o : Outline) (e : Event × Range) : Outline :=
  match e.1 with
  | .start (.heading level) =>
      let (line, lines) := o.lines.lineOf e.2.1
      { o with current := some ⟨headingLevelToU8 level, [], e.2, line⟩, lines }
  | .stop (.heading _) =>
      match o.current with
      | none => o
      | some h =>
          let h := { h with text := DiffText.trim h.text }
          { o with out := if h.text.isEmpty then o.out else o.out ++ [h], current := none }
  | .leaf (.text t) | .leaf (.code t) => o.push t
  | .leaf .softBreak | .leaf .hardBreak => o.push [' ']
  | _ => o

end Outline

def outline (markdown : List UInt8) (events : List (Event × Range)) : List OutlineHeading :=
  (events.foldl Outline.step ⟨[], none, .new markdown⟩).out

end Markdown

end Yaldabaoth
