import Yaldabaoth.Model.Markdown

/-!
# `Yaldabaoth.Model.MarkdownTree`: what the blocks of a document should be

The document as a tree, and the blocks that it stands for, by recursion on
the tree: styles and links come from the elements around, there are no
stacks and no positions. `isBlock` is what the parser promises of an
element, as far as the renderer relies on it.
-/

set_option autoImplicit false

namespace Yaldabaoth

namespace Markdown

/-- An element with what is inside, or a leaf. -/
abbrev Element := SplitTree Tag Leaf

def eventsOf (elements : List Element) : List Event := TreeEvents.eventsOf Tag.toEnd elements

/-! ### Which elements stand where -/

namespace Element

mutual

def isInline : Element → Bool
  | .empty => false
  | .leaf a => isInlineEvent (.leaf a)
  | .split tag content => isInlineEvent (.start tag) && allInline content

def allInline : List Element → Bool
  | [] => true
  | element :: rest => isInline element && allInline rest

end

def isText : Element → Bool
  | .leaf (.text _) => true
  | _ => false

def isHtml : Element → Bool
  | .leaf (.html _) => true
  | _ => false

def isCell : Element → Bool
  | .split .tableCell content => allInline content
  | _ => false

def isRow : Element → Bool
  | .split .tableRow cells => cells.all isCell
  | _ => false

def isTable : List Element → Bool
  | .split .tableHead cells :: rows => cells.all isCell && rows.all isRow
  | _ => false

mutual

def isBlock : Element → Bool
  | .empty => false
  | .leaf a => decide (a = .rule)
  | .split tag content =>
      match tag with
      | .paragraph | .heading _ => allInline content
      | .blockQuote _ | .footnoteDefinition _ => allBlock content
      | .list _ => allItem content
      | .codeBlock _ | .metadataBlock _ => content.all isText
      | .htmlBlock => content.all isHtml
      | .table _ => isTable content
      | _ => false

def allBlock : List Element → Bool
  | [] => true
  | element :: rest => isBlock element && allBlock rest

def isItem : Element → Bool
  | .split .item parts => allPart parts
  | _ => false

def allItem : List Element → Bool
  | [] => true
  | element :: rest => isItem element && allItem rest

/-- The items of a tight list have inline content beside blocks. -/
def allPart : List Element → Bool
  | [] => true
  | part :: rest => (isInline part || isBlock part) && allPart rest

end

end Element

/-! ### Inline content -/

/-- Lines, the last of which is open. -/
structure Lines where
  done : List StyledLine
  spans : List StyledSpan

namespace Lines

def add (l : Lines) (text : Text) (style : Style) (link : Option Text) : Lines :=
  { l with spans := l.spans ++ [⟨text, style, link⟩] }

def all (l : Lines) : List StyledLine := l.done ++ [⟨l.spans⟩]

end Lines

/-- What a hard break does: a line ends, where there may be more than one. -/
def breakLine (hardBreaks : Bool) (style : Style) (link : Option Text) (l : Lines) : Lines :=
  if hardBreaks then ⟨l.done ++ [⟨l.spans⟩], []⟩ else l.add [' '] style link

/-- What the text of an image is: leaves only, and breaks as spaces. -/
def leafAlt : Leaf → Text
  | .text t | .code t => t
  | .softBreak | .hardBreak => [' ']
  | _ => []

def altOf (content : List Element) : Text := (SplitTree.leavesOf content).flatMap leafAlt

def imageOf (url title : Text) (content : List Element) : RenderedBlock :=
  let alt := if (altOf content).isEmpty then title else altOf content
  .image (if alt.isEmpty then imageFallbackLabel url else alt) url

/-- The text of a block that has nothing else in it. -/
def textOf (content : List Element) : Text :=
  (SplitTree.leavesOf content).flatMap fun a => match a with | .text t => t | _ => []

/-- The marker of an item, if it is one. -/
def marker : Element → Option Bool
  | .leaf (.taskListMarker checked) => some checked
  | _ => none

def checkedOf (parts : List Element) : Option Bool := (parts.filterMap marker).getLast?

def itemMarker (ordered : Bool) (index : Nat) : Text :=
  if ordered then (Nat.repr index).toList ++ ['.'] else ['•']

namespace Renderer

variable (r : Renderer)

def leafLines (hardBreaks : Bool) (style : Style) (link : Option Text) (l : Lines) :
    Leaf → Lines
  | .text t => l.add t style link
  | .code t => l.add t (style.patch r.theme.codeInline) link
  | .softBreak => l.add [' '] style link
  | .hardBreak => breakLine hardBreaks style link l
  | .footnoteReference label => l.add (footnoteMarker label) (style.patch r.theme.link) link
  | _ => l

mutual

/-- The lines with the element behind them; `style` and `link` are those around it. -/
def inlineLines (hardBreaks : Bool) (style : Style) (link : Option Text) (l : Lines) :
    Element → Lines
  | .empty => l
  | .leaf a => r.leafLines hardBreaks style link l a
  | .split tag content =>
      match tag with
      | .strong => inlinesLines hardBreaks (style.patch r.theme.bold) link l content
      | .emphasis => inlinesLines hardBreaks (style.patch r.theme.italic) link l content
      | .strikethrough =>
          inlinesLines hardBreaks (style.patch r.theme.strikethrough) link l content
      | .link destUrl =>
          inlinesLines hardBreaks (style.patch r.theme.link) (some destUrl) l content
      | .image destUrl _ =>
          let style := style.patch r.theme.link
          let l' := inlinesLines hardBreaks style (some destUrl) l content
          -- the open line is as long as it was before
          if l.spans.length = l'.spans.length then
            l'.add (imageFallbackLabel destUrl) style (some destUrl)
          else l'
      | _ => l

def inlinesLines (hardBreaks : Bool) (style : Style) (link : Option Text) (l : Lines) :
    List Element → Lines
  | [] => l
  | element :: rest =>
      inlinesLines hardBreaks style link (inlineLines hardBreaks style link l element) rest

end

/-- A line of its own. -/
def lineOf (style : Style) (content : List Element) : StyledLine :=
  ⟨(r.inlinesLines false (Style.patch {} style) none ⟨[], []⟩ content).spans⟩

/-- Lines of their own, which hard breaks end. -/
def linesOf (content : List Element) : List StyledLine :=
  (r.inlinesLines true (Style.patch {} r.theme.paragraph) none ⟨[], []⟩ content).all

/-! ### Blocks -/

def paragraphOf (content : List Element) : RenderedBlock :=
  match content with
  | [.split (.image url title) alt] => imageOf url title alt
  | _ => .paragraph (r.linesOf content)

def cellsOf (style : Style) (cells : List Element) : List StyledLine :=
  cells.map fun cell =>
    match cell with
    | .split _ content => r.lineOf style content
    | _ => ⟨[]⟩

def rowOf : Element → List StyledLine
  | .split _ cells => r.cellsOf r.theme.paragraph cells
  | _ => []

def tableOf (alignments : List Alignment) (content : List Element) : RenderedBlock :=
  match content with
  | .split _ head :: rows =>
      .table (r.cellsOf r.theme.tableHeader head) (rows.map r.rowOf)
        (alignments.map columnAlignment)
  | _ => .table [] [] (alignments.map columnAlignment)

/-- The paragraph of what stands in an item without one. -/
def runOf (run : List Element) : List RenderedBlock :=
  if (r.linesOf run).all fun line => line.spans.isEmpty then [] else [.paragraph (r.linesOf run)]

mutual

/-- The blocks that an element stands for, which is one or none. -/
def blocksOf : Element → List RenderedBlock
  | .empty => []
  | .leaf a => if a = .rule then [.horizontalRule] else []
  | .split tag content =>
      match tag with
      | .heading level =>
          [.heading (headingLevelToU8 level) (r.lineOf (r.headingStyle level) content)]
      | .paragraph => [r.paragraphOf content]
      | .blockQuote _ => [.blockQuote (allBlocksOf content)]
      | .list start => [.list start.isSome start (itemsOf start.isSome (start.getD 1) content)]
      | .codeBlock kind => [r.codeBlock kind (textOf content)]
      | .table alignments => [r.tableOf alignments content]
      | .metadataBlock _ => metadata (textOf content)
      | .footnoteDefinition label => [.footnote label (allBlocksOf content)]
      | _ => []

def allBlocksOf : List Element → List RenderedBlock
  | [] => []
  | element :: rest => blocksOf element ++ allBlocksOf rest

def itemOf (ordered : Bool) (index : Nat) : Element → List ListItem
  | .split _ parts => [.mk (itemMarker ordered index) (checkedOf parts) (contentOf [] parts)]
  | _ => []

def itemsOf (ordered : Bool) (index : Nat) : List Element → List ListItem
  | [] => []
  | item :: rest => itemOf ordered index item ++ itemsOf ordered (index + 1) rest

/-- The content of an item behind `run`, which is inline. Its own marker is not part of it. -/
def contentOf (run : List Element) : List Element → List RenderedBlock
  | [] => r.runOf run
  | part :: rest =>
      if (marker part).isSome then contentOf run rest
      else if part.isInline then contentOf (run ++ [part]) rest
      else r.runOf run ++ blocksOf part ++ contentOf [] rest

end

end Renderer

end Markdown

end Yaldabaoth
