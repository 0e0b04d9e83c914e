import Yaldabaoth.Lib.TreeEvents
import Yaldabaoth.Lib.TextLines
import Yaldabaoth.Model.DiffModel
import Yaldabaoth.Model.MdHighlight

/-!
# `Yaldabaoth.Model.Markdown`: a document from the events of its parser

`render.rs`, with the blocks of `blocks.rs` and the checkboxes of
`task_list.rs`. The parser is given by its events, each with the range of
bytes that it covers, and the highlighter of code is a parameter. A
position in the events is what is left of them. Of the data of a tag
those that nothing reads are left out.
-/

set_option autoImplicit false

namespace Yaldabaoth

namespace Markdown

abbrev Text := List Char

/-! ### Events -/

inductive HeadingLevel where
  | h1
  | h2
  | h3
  | h4
  | h5
  | h6
deriving Repr, DecidableEq

inductive BlockQuoteKind where
  | note
  | tip
  | important
  | warning
  | caution
deriving Repr, DecidableEq

inductive CodeBlockKind where
  | fenced (lang : Text)
  | indented
deriving Repr, DecidableEq

inductive Alignment where
  | none
  | left
  | center
  | right
deriving Repr, DecidableEq

inductive MetadataBlockKind where
  | yamlStyle
  | plusesStyle
deriving Repr, DecidableEq

inductive Tag where
  | paragraph
  | heading (level : HeadingLevel)
  | blockQuote (kind : Option BlockQuoteKind)
  | codeBlock (kind : CodeBlockKind)
  | htmlBlock
  | list (start : Option Nat)
  | item
  | footnoteDefinition (label : Text)
  | table (alignments : List Alignment)
  | tableHead
  | tableRow
  | tableCell
  | emphasis
  | strong
  | strikethrough
  | link (destUrl : Text)
  | image (destUrl title : Text)
  | metadataBlock (kind : MetadataBlockKind)
deriving Repr, DecidableEq

inductive TagEnd where
  | paragraph
  | heading (level : HeadingLevel)
  | blockQuote (kind : Option BlockQuoteKind)
  | codeBlock
  | htmlBlock
  | list (ordered : Bool)
  | item
  | footnoteDefinition
  | table
  | tableHead
  | tableRow
  | tableCell
  | emphasis
  | strong
  | strikethrough
  | link
  | image
  | metadataBlock (kind : MetadataBlockKind)
deriving Repr, DecidableEq

def Tag.toEnd : Tag → TagEnd
  | .paragraph => .paragraph
  | .heading level => .heading level
  | .blockQuote kind => .blockQuote kind
  | .codeBlock _ => .codeBlock
  | .htmlBlock => .htmlBlock
  | .list start => .list start.isSome
  | .item => .item
  | .footnoteDefinition _ => .footnoteDefinition
  | .table _ => .table
  | .tableHead => .tableHead
  | .tableRow => .tableRow
  | .tableCell => .tableCell
  | .emphasis => .emphasis
  | .strong => .strong
  | .strikethrough => .strikethrough
  | .link _ => .link
  | .image .. => .image
  | .metadataBlock kind => .metadataBlock kind

inductive Leaf where
  | text (t : Text)
  | code (t : Text)
  | inlineMath (t : Text)
  | displayMath (t : Text)
  | html (t : Text)
  | inlineHtml (t : Text)
  | footnoteReference (label : Text)
  | softBreak
  | hardBreak
  | rule
  | taskListMarker (checked : Bool)
deriving Repr, DecidableEq

abbrev Event := TreeEvent Tag TagEnd Leaf

/-- The events that live inside a paragraph. -/
def isInlineEvent : Event → Bool
  | .start tag =>
      match tag with
      | .emphasis | .strong | .strikethrough | .link _ | .image .. => true
      | _ => false
  | .stop tag =>
      match tag with
      | .emphasis | .strong | .strikethrough | .link | .image => true
      | _ => false
  | .leaf (.html _) | .leaf .rule => false
  | .leaf _ => true

/-! ### Blocks -/

structure StyledSpan where
  text : Text
  style : Style
  link : Option Text
deriving Repr, DecidableEq

structure StyledLine where
  spans : List StyledSpan
deriving Repr, DecidableEq

namespace StyledLine

def plain (text : Text) : StyledLine := ⟨[⟨text, {}, none⟩]⟩

def textContent (line : StyledLine) : Text := line.spans.flatMap StyledSpan.text

end StyledLine

inductive ColumnAlignment where
  | left
  | center
  | right
deriving Repr, DecidableEq

mutual

inductive RenderedBlock where
  | heading (level : Nat) (content : StyledLine)
  | paragraph (lines : List StyledLine)
  | codeBlock (language : Option Text) (lines : List StyledLine) (sourceFile : Bool)
      (startLine : Nat)
  | blockQuote (blocks : List RenderedBlock)
  | list (ordered : Bool) (start : Option Nat) (items : List ListItem)
  | table (headers : List StyledLine) (rows : List (List StyledLine))
      (alignments : List ColumnAlignment)
  | horizontalRule
  | diagram (source : Text) (lines : List StyledLine)
  | image (alt url : Text)
  | metadata (lines : List StyledLine)
  | footnote (label : Text) (blocks : List RenderedBlock)

inductive ListItem where
  | mk (marker : Text) (checked : Option Bool) (content : List RenderedBlock)

end

/-- The parts of the theme that blocks take their styles from. -/
structure BlockTheme extends Theme where
  tableHeader : Style

/-- What the renderer is given besides the events. -/
structure Renderer where
  theme : BlockTheme
  /-- The lines of code in a language, on a style. -/
  highlight : Text → Text → Style → Option (List StyledLine)

/-! ### Inline content -/

def headingLevelToU8 : HeadingLevel → Nat
  | .h1 => 1
  | .h2 => 2
  | .h3 => 3
  | .h4 => 4
  | .h5 => 5
  | .h6 => 6

theorem headingLevelToU8_le (level : HeadingLevel) : headingLevelToU8 level - 1 < 6 := by
  cases level <;> decide

/-- What stands behind the last slash. -/
def imageFallbackLabel (url : Text) : Text := url.rtakeWhile fun ch => ch != '/'

def superscript : Char → Char
  | '0' => '⁰'
  | '1' => '¹'
  | '2' => '²'
  | '3' => '³'
  | '4' => '⁴'
  | '5' => '⁵'
  | '6' => '⁶'
  | '7' => '⁷'
  | '8' => '⁸'
  | _ => '⁹'

def footnoteMarker (label : Text) : Text :=
  if !label.isEmpty && label.all Char.isDigit then label.map superscript
  else ['['] ++ label ++ [']']

/-- The stacks have their top first. -/
structure InlineState where
  spans : List StyledSpan
  styleStack : List Style
  linkStack : List (Option Text)
  lines : List StyledLine
  hardBreaks : Bool
  imageStarts : List Nat

namespace InlineState

def new (baseStyle : Style) : InlineState where
  spans := []
  styleStack := [baseStyle]
  linkStack := [none]
  lines := []
  hardBreaks := false
  imageStarts := []

def multiline (baseStyle : Style) : InlineState := { new baseStyle with hardBreaks := true }

variable (s : InlineState)

def currentStyle : Style := s.styleStack.foldr (fun style below => below.patch style) {}

def currentLink : Option Text := s.linkStack.findSome? id

def pushText (text : Text) : InlineState :=
  { s with spans := s.spans ++ [⟨text, s.currentStyle, s.currentLink⟩] }

def hardBreak : InlineState :=
  if s.hardBreaks then { s with spans := [], lines := s.lines ++ [⟨s.spans⟩] }
  else s.pushText [' ']

def pushStyle (style : Style) : InlineState := { s with styleStack := style :: s.styleStack }

def popStyle : InlineState := { s with styleStack := s.styleStack.tail }

def pushLink (link : Option Text) : InlineState := { s with linkStack := link :: s.linkStack }

def popLink : InlineState := { s with linkStack := s.linkStack.tail }

def intoLine : StyledLine := ⟨s.spans⟩

def intoLines : List StyledLine := s.lines ++ [⟨s.spans⟩]

def isEmpty : Bool := s.spans.isEmpty && s.lines.all fun line => line.spans.isEmpty

end InlineState

/-- What a bracket that closes does in `collect_inline`. -/
def inlineStop (s : InlineState) : TagEnd → InlineState
  | .image =>
      let start := s.imageStarts.head?
      let s := { s with imageStarts := s.imageStarts.tail }
      let s :=
        if start = some s.spans.length then
          s.pushText (imageFallbackLabel (s.currentLink.getD []))
        else s
      s.popStyle.popLink
  | .strong | .emphasis | .strikethrough => s.popStyle
  | .link => s.popStyle.popLink
  | _ => s

namespace Renderer

variable (r : Renderer)

def headingStyle (level : HeadingLevel) : Style :=
  r.theme.heading.get ⟨headingLevelToU8 level - 1, headingLevelToU8_le level⟩

/-- What a leaf does in `collect_inline`. -/
def inlineLeaf (s : InlineState) : Leaf → InlineState
  | .text t => s.pushText t
  | .code t => ((s.pushStyle r.theme.codeInline).pushText t).popStyle
  | .softBreak => s.pushText [' ']
  | .hardBreak => s.hardBreak
  | .footnoteReference label =>
      ((s.pushStyle r.theme.link).pushText (footnoteMarker label)).popStyle
  | _ => s

/-- What a bracket that opens does in `collect_inline`. -/
def inlineStart (s : InlineState) : Tag → InlineState
  | .image destUrl _ =>
      let s := (s.pushStyle r.theme.link).pushLink (some destUrl)
      { s with imageStarts := s.spans.length :: s.imageStarts }
  | .strong => s.pushStyle r.theme.bold
  | .emphasis => s.pushStyle r.theme.italic
  | .strikethrough => s.pushStyle r.theme.strikethrough
  | .link destUrl => (s.pushStyle r.theme.link).pushLink (some destUrl)
  | _ => s

/-- The state at the end of the inline content, and the events behind it. -/
def collectInline (stop : TagEnd) : List Event → InlineState → InlineState × List Event
  | [], s => (s, [])
  | .stop tag :: rest, s =>
      if tag = stop then (s, rest) else collectInline stop rest (inlineStop s tag)
  | .leaf a :: rest, s => collectInline stop rest (r.inlineLeaf s a)
  | .start tag :: rest, s => collectInline stop rest (r.inlineStart s tag)

end Renderer

/-- The text of an image up to its end, and the events behind it. -/
def imageAlt (depth : Nat) : List Event → Text × List Event
  | [] => ([], [])
  | e :: rest =>
      let more := fun depth text =>
        let found := imageAlt depth rest
        (text ++ found.1, found.2)
      match e with
      | .leaf (.text t) | .leaf (.code t) => more depth t
      | .leaf .softBreak | .leaf .hardBreak => more depth [' ']
      | .start (.image ..) => more (depth + 1) []
      | .stop .image => if depth = 0 then ([], rest) else more (depth - 1) []
      | _ => more depth []

/-- The image whose tag is open. -/
def collectImage (url title : Text) (events : List Event) : RenderedBlock × List Event :=
  let (alt, rest) := imageAlt 0 events
  let alt := if alt.isEmpty then title else alt
  let alt := if alt.isEmpty then imageFallbackLabel url else alt
  (.image alt url, rest)

/-! ### Blocks of events -/

/-- The texts up to the end of a block, and the events behind it. -/
def textUpTo (closes : TagEnd → Bool) : List Event → Text × List Event
  | [] => ([], [])
  | .leaf (.text t) :: rest =>
      let found := textUpTo closes rest
      (t ++ found.1, found.2)
  | .stop tag :: rest => if closes tag then ([], rest) else textUpTo closes rest
  | _ :: rest => textUpTo closes rest

/-- The events of an item without its own marker, what the marker says, and the events behind
the item. -/
def itemEvents (depth : Int) : List Event → (Option Bool × List Event) × List Event
  | [] => ((none, []), [])
  | e :: rest =>
      let keep := fun depth =>
        let found := itemEvents depth rest
        ((found.1.1, e :: found.1.2), found.2)
      match e with
      | .stop tag => if tag = .item ∧ depth = 0 then ((none, []), rest) else keep (depth - 1)
      | .leaf (.taskListMarker checked) =>
          if depth = 0 then
            let found := itemEvents depth rest
            -- a later marker overwrites this one
            ((found.1.1.or (some checked), found.1.2), found.2)
          else keep depth
      | .start _ => keep (depth + 1)
      | .leaf _ => keep depth

structure TableRows where
  headers : List StyledLine
  rows : List (List StyledLine)
  currentRow : List StyledLine
  inHead : Bool

/-- Whether the first word of the language is `mermaid`, in any case. -/
def isMermaid (language : Option Text) : Bool :=
  language.any fun lang =>
    (((lang.dropWhile isWhitespace).takeWhile fun ch => !isWhitespace ch).map Char.toLower) =
      "mermaid".toList

/-- The lines of the text that are not blank. -/
def metadata (raw : Text) : List RenderedBlock :=
  let lines := ((TextLines.lines raw).filter fun l => !(DiffText.trim l).isEmpty).map
    StyledLine.plain
  if lines.isEmpty then [] else [.metadata lines]

def columnAlignment : Alignment → ColumnAlignment
  | .none | .left => .left
  | .center => .center
  | .right => .right

namespace Renderer

variable (r : Renderer)

def plainCodeLines (code : Text) : List StyledLine :=
  (TextLines.lines code).map fun line => ⟨[⟨line, r.theme.codeBlockBg, none⟩]⟩

def codeBlock (kind : CodeBlockKind) (code : Text) : RenderedBlock :=
  let language :=
    match kind with
    | .fenced lang => if lang.isEmpty then none else some lang
    | .indented => none
  let lines :=
    match language with
    | some lang => (r.highlight lang code r.theme.codeBlockBg).getD (r.plainCodeLines code)
    | none => r.plainCodeLines code
  if isMermaid language then
    .diagram (if code.getLast? = some '\n' then code.dropLast else code) lines
  else .codeBlock language lines false 0

/-- `fuel` bounds the events that are left. -/
def collectTable (fuel : Nat) (t : TableRows) (events : List Event) : TableRows × List Event :=
  match fuel, events with
  | 0, _ => (t, events)
  | _, [] => (t, [])
  | fuel + 1, e :: rest =>
      match e with
      | .stop .table => (t, rest)
      | .start .tableHead => collectTable fuel { t with inHead := true } rest
      | .stop .tableHead =>
          let headers := if t.currentRow.isEmpty then t.headers else t.currentRow
          collectTable fuel { t with headers, currentRow := [], inHead := false } rest
      | .start .tableRow => collectTable fuel { t with currentRow := [] } rest
      | .stop .tableRow =>
          if t.inHead then collectTable fuel { t with headers := t.currentRow, currentRow := [] } rest
          else
            collectTable fuel { t with rows := t.rows ++ [t.currentRow], currentRow := [] } rest
      | .start .tableCell =>
          let style := if t.inHead then r.theme.tableHeader else r.theme.paragraph
          let (s, rest) := r.collectInline .tableCell rest (.new style)
          collectTable fuel { t with currentRow := t.currentRow ++ [s.intoLine] } rest
      | _ => collectTable fuel t rest

/-- The paragraph of a run of inline events, if there is anything in it. -/
def inlineRun (run : List Event) : List RenderedBlock :=
  let s := (r.collectInline .paragraph run (.multiline r.theme.paragraph)).1
  if s.isEmpty then [] else [.paragraph s.intoLines]

/-- The block of a paragraph whose tag is open. -/
def paragraph (events : List Event) : RenderedBlock × List Event :=
  let inline := fun _ : Unit =>
    let (s, rest) := r.collectInline .paragraph events (.multiline r.theme.paragraph)
    (RenderedBlock.paragraph s.intoLines, rest)
  match events with
  | .start (.image url title) :: rest =>
      -- an image alone in its paragraph
      match collectImage url title rest with
      | (image, .stop .paragraph :: rest) => (image, rest)
      | _ => inline ()
  | _ => inline ()

mutual

/-- The blocks of the events; `fuel` bounds them. -/
def renderWith : Nat → List Event → List RenderedBlock
  | 0, _ => []
  | _ + 1, [] => []
  | fuel + 1, e :: rest =>
      let (blocks, rest) := renderOne fuel e rest
      blocks ++ renderWith fuel rest

/-- The blocks of the element that the first event starts, and the events behind it. -/
def renderOne : Nat → Event → List Event → List RenderedBlock × List Event
  | 0, _, rest => ([], rest)
  | fuel + 1, e, rest =>
      match e with
      | .start (.heading level) =>
          let (s, rest) := r.collectInline (.heading level) rest
            (.new (r.headingStyle level))
          ([.heading (headingLevelToU8 level) s.intoLine], rest)
      | .start .paragraph =>
          let (block, rest) := r.paragraph rest
          ([block], rest)
      | .start (.blockQuote kind) =>
          let (inner, rest) := TreeEvents.inside (fun tag => tag = .blockQuote kind) 0 rest
          ([.blockQuote (renderWith fuel inner)], rest)
      | .start (.list start) =>
          let (items, rest) := collectListItems fuel start.isSome (start.getD 1) rest
          ([.list start.isSome start items], rest)
      | .start (.codeBlock kind) =>
          let (code, rest) := textUpTo (fun tag => tag = .codeBlock) rest
          ([r.codeBlock kind code], rest)
      | .start (.table alignments) =>
          let (t, rest) := r.collectTable fuel ⟨[], [], [], false⟩ rest
          ([.table t.headers t.rows (alignments.map columnAlignment)], rest)
      | .leaf .rule => ([.horizontalRule], rest)
      | .start (.metadataBlock _) =>
          let (raw, rest) := textUpTo
            (fun tag => match tag with | .metadataBlock _ => true | _ => false) rest
          (metadata raw, rest)
      | .start (.footnoteDefinition label) =>
          let (inner, rest) := TreeEvents.inside (fun tag => tag = .footnoteDefinition) 0 rest
          ([.footnote label (renderWith fuel inner)], rest)
      | .start (.image url title) =>
          let (image, rest) := collectImage url title rest
          ([image], rest)
      | _ => ([], rest)

def collectListItems : Nat → Bool → Nat → List Event → List ListItem × List Event
  | 0, _, _, events => ([], events)
  | _ + 1, _, _, [] => ([], [])
  | fuel + 1, ordered, itemIndex, e :: rest =>
      match e with
      | .stop (.list _) => ([], rest)
      | .start .item =>
          let marker := if ordered then (Nat.repr itemIndex).toList ++ ['.'] else ['•']
          let ((checked, inner), rest) := itemEvents 0 rest
          let content := renderItemContent fuel inner
          let (items, rest) := collectListItems fuel ordered (itemIndex + 1) rest
          (.mk marker checked content :: items, rest)
      | _ => collectListItems fuel ordered itemIndex rest

def renderItemContent : Nat → List Event → List RenderedBlock
  | 0, _ => []
  | _ + 1, [] => []
  | fuel + 1, e :: rest =>
      if isInlineEvent e then
        let run := e :: rest.takeWhile isInlineEvent
        r.inlineRun run ++ renderItemContent fuel (rest.dropWhile isInlineEvent)
      else
        let (blocks, rest) := renderOne fuel e rest
        blocks ++ renderItemContent fuel rest

end

def render (events : List Event) : List RenderedBlock := r.renderWith (2 * events.length) events

end Renderer

end Markdown

end Yaldabaoth
