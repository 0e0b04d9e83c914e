import Yaldabaoth.Proofs.Markdown.Events

/-!
# `Yaldabaoth.Proofs.Markdown.Inline`: the stacks of inline content

On the events of inline elements the stacks of `collect_inline` come back
to what they were, and what is pushed has the style and the link of the
elements around it (`collectInline_inlines`). With it the lines, cells,
images and texts that the renderer reads off a block are those of the
elements in it.
-/

set_option autoImplicit false

namespace Yaldabaoth

namespace Markdown

variable (r : Renderer)

/-- The events of an element. -/
def events (element : Element) : List Event := TreeEvents.events Tag.toEnd element

@[simp] theorem events_leaf (a : Leaf) : events (.leaf a) = [.leaf a] := rfl

theorem events_split (tag : Tag) (content : List Element) :
    events (.split tag content) = .start tag :: (eventsOf content ++ [.stop tag.toEnd]) := rfl

@[simp] theorem eventsOf_nil : eventsOf [] = [] := rfl

@[simp] theorem eventsOf_cons (element : Element) (rest : List Element) :
    eventsOf (element :: rest) = events element ++ eventsOf rest := rfl

theorem eventsOf_append (front back : List Element) :
    eventsOf (front ++ back) = eventsOf front ++ eventsOf back :=
  TreeEvents.eventsOf_append Tag.toEnd front back

theorem split_append (tag : Tag) (content : List Element) (more : List Event) :
    events (.split tag content) ++ more =
      .start tag :: (eventsOf content ++ .stop tag.toEnd :: more) := by
  rw [events_split, List.cons_append, List.append_assoc, List.singleton_append]

theorem cons_append (element : Element) (rest : List Element) (more : List Event) :
    eventsOf (element :: rest) ++ more = events element ++ (eventsOf rest ++ more) :=
  List.append_assoc ..

/-! ### States -/

namespace InlineState

/-- The state with other lines. -/
def on (s : InlineState) (l : Lines) : InlineState := { s with spans := l.spans, lines := l.done }

def toLines (s : InlineState) : Lines := ⟨s.lines, s.spans⟩

theorem hardBreak_eq (s : InlineState) :
    s.hardBreak =
      s.on (breakLine s.hardBreaks s.currentStyle s.currentLink s.toLines) := by
  rw [hardBreak, breakLine]
  split <;> rfl

end InlineState

/-- What the elements write, from the state in front of them. -/
def Renderer.written (s : InlineState) (content : List Element) : Lines :=
  r.inlinesLines s.hardBreaks s.currentStyle s.currentLink s.toLines content

theorem inlineLeaf_eq (s : InlineState) (a : Leaf) :
    r.inlineLeaf s a =
      s.on (r.leafLines s.hardBreaks s.currentStyle s.currentLink s.toLines a) := by
  cases a with
  | hardBreak => exact s.hardBreak_eq
  | _ => rfl

/-- The bracket that closes takes back what the one that opens put on the stacks. -/
theorem inlineStop_start (s : InlineState) {tag : Tag} (htag : isInlineEvent (.start tag) = true)
    (content : List Element) :
    inlineStop ((r.inlineStart s tag).on (r.written (r.inlineStart s tag) content)) tag.toEnd =
      s.on (r.inlineLines s.hardBreaks s.currentStyle s.currentLink s.toLines
        (.split tag content)) := by
  cases tag with
  | image destUrl title =>
      rw [Renderer.inlineLines]
      show InlineState.popLink (InlineState.popStyle (ite _ _ _)) = s.on (ite _ _ _)
      by_cases h : s.spans.length =
        (r.written (r.inlineStart s (.image destUrl title)) content).spans.length
      · refine (congrArg (fun s => InlineState.popLink (InlineState.popStyle s))
          (if_pos (congrArg some h))).trans ?_
        refine Eq.trans ?_ (congrArg s.on (if_pos h).symm)
        rfl
      · refine (congrArg (fun s => InlineState.popLink (InlineState.popStyle s))
          (if_neg fun h' => h (Option.some.inj h'))).trans ?_
        refine Eq.trans ?_ (congrArg s.on (if_neg h).symm)
        rfl
  | _ => first | rfl | cases htag

/-! ### Runs of inline elements -/

theorem isInline_split {tag : Tag} {content : List Element}
    (h : Element.isInline (.split tag content) = true) :
    isInlineEvent (.start tag) = true ∧ Element.allInline content = true := by
  rwa [Element.isInline, Bool.and_eq_true] at h

theorem allInline_cons {element : Element} {rest : List Element} :
    Element.allInline (element :: rest) = true ↔
      element.isInline = true ∧ Element.allInline rest = true := by
  rw [Element.allInline, Bool.and_eq_true]

/-- What opens inside a paragraph closes inside it. -/
theorem isInlineEvent_toEnd {tag : Tag} (h : isInlineEvent (.start tag) = true) :
    isInlineEvent (.stop tag.toEnd) = true := by
  cases tag <;> first | rfl | cases h

mutual

theorem collectInline_inline {stop : TagEnd} (hstop : isInlineEvent (.stop stop) = false) (s : InlineState) (more : List Event) :
    ∀ element : Element, element.isInline = true →
      r.collectInline stop (events element ++ more) s =
        r.collectInline stop more
          (s.on (r.inlineLines s.hardBreaks s.currentStyle s.currentLink s.toLines element))
  | .empty, h => by cases h
  | .leaf a, _ => by
      show r.collectInline stop more (r.inlineLeaf s a) = _
      rw [inlineLeaf_eq]
      rfl
  | .split tag content, h => by
      obtain ⟨htag, hcontent⟩ := isInline_split h
      have hne : tag.toEnd ≠ stop := by
        rintro rfl
        rw [isInlineEvent_toEnd htag] at hstop
        cases hstop
      rw [split_append, Renderer.collectInline, collectInline_inlines hstop _ _ content hcontent,
        Renderer.collectInline, if_neg hne, inlineStop_start r s htag content]

/-- The events of inline elements write what the elements do. -/
theorem collectInline_inlines {stop : TagEnd} (hstop : isInlineEvent (.stop stop) = false)
    (s : InlineState) (more : List Event) :
    ∀ content : List Element, Element.allInline content = true →
      r.collectInline stop (eventsOf content ++ more) s =
        r.collectInline stop more (s.on (r.written s content))
  | [], _ => rfl
  | element :: rest, h => by
      obtain ⟨helement, hrest⟩ := allInline_cons.1 h
      rw [cons_append, collectInline_inline hstop _ _ element helement,
        collectInline_inlines hstop _ _ rest hrest]
      rfl

end

/-- Up to the bracket that closes. -/
theorem collectInline_content {stop : TagEnd} (hstop : isInlineEvent (.stop stop) = false)
    (s : InlineState) {content : List Element}
    (h : Element.allInline content = true) (more : List Event) :
    r.collectInline stop (eventsOf content ++ .stop stop :: more) s =
      (s.on (r.written s content), more) := by
  rw [collectInline_inlines r hstop s _ content h, Renderer.collectInline, if_pos rfl]

theorem lineOf_eq (style : Style) (content : List Element) :
    ((InlineState.new style).on (r.written (.new style) content)).intoLine =
      r.lineOf style content := rfl

theorem linesOf_eq (content : List Element) :
    ((InlineState.multiline r.theme.paragraph).on
      (r.written (.multiline r.theme.paragraph) content)).intoLines = r.linesOf content := rfl

/-- A run of inline elements alone. -/
theorem inlineRun_eq {run : List Element} (h : Element.allInline run = true) :
    r.inlineRun (eventsOf run) = r.runOf run := by
  have hcollect := collectInline_inlines r (rfl : isInlineEvent (.stop .paragraph) = false)
    (.multiline r.theme.paragraph) [] run h
  rw [List.append_nil] at hcollect
  rw [Renderer.inlineRun, hcollect, Renderer.runOf]
  show (if InlineState.isEmpty _ then _ else [RenderedBlock.paragraph (r.linesOf run)]) = _
  have hempty (s : InlineState) : s.isEmpty = s.intoLines.all fun line => line.spans.isEmpty := by
    rw [InlineState.isEmpty, InlineState.intoLines, List.all_append]
    simp [Bool.and_comm]
  rw [hempty, show InlineState.intoLines _ = r.linesOf run from rfl]

/-! ### Images and texts -/

mutual

theorem imageAlt_events (depth : Nat) (more : List Event) :
    ∀ element : Element, imageAlt depth (events element ++ more) =
      ((SplitTree.leaves element).flatMap leafAlt ++ (imageAlt depth more).1,
        (imageAlt depth more).2)
  | .empty => rfl
  | .leaf a => by
      cases a <;> simp [imageAlt, leafAlt]
  | .split tag content => by
      have hcontent (d : Nat) := imageAlt_eventsOf d (.stop tag.toEnd :: more) content
      rw [split_append, SplitTree.leaves_split]
      cases tag with
      | image url title =>
          show (([] : Text) ++ (imageAlt (depth + 1) _).1, (imageAlt (depth + 1) _).2) = _
          rw [hcontent, List.nil_append]
          rfl
      | _ =>
          show (([] : Text) ++ (imageAlt depth _).1, (imageAlt depth _).2) = _
          rw [hcontent, List.nil_append]
          rfl

theorem imageAlt_eventsOf (depth : Nat) (more : List Event) :
    ∀ content : List Element, imageAlt depth (eventsOf content ++ more) =
      (altOf content ++ (imageAlt depth more).1, (imageAlt depth more).2)
  | [] => rfl
  | element :: rest => by
      rw [cons_append, imageAlt_events depth _ element,
        imageAlt_eventsOf depth more rest, altOf, altOf, SplitTree.leavesOf_cons,
        List.flatMap_append, List.append_assoc]

end

theorem collectImage_content (url title : Text) (alt : List Element) (more : List Event) :
    collectImage url title (eventsOf alt ++ .stop .image :: more) =
      (imageOf url title alt, more) := by
  have hstop : imageAlt 0 (.stop .image :: more) = ([], more) := rfl
  rw [collectImage, imageAlt_eventsOf, hstop, List.append_nil]
  rfl

/-- The text of a block without other content. -/
theorem textUpTo_content {closes : TagEnd → Bool} {stop : TagEnd} (hstop : closes stop = true)
    {content : List Element} (h : content.all Element.isText = true) (more : List Event) :
    textUpTo closes (eventsOf content ++ .stop stop :: more) = (textOf content, more) := by
  induction content with
  | nil =>
      rw [eventsOf_nil, List.nil_append, textUpTo, if_pos hstop]
      rfl
  | cons element rest ih =>
      rw [List.all_cons, Bool.and_eq_true] at h
      have hrest := ih h.2
      cases element with
      | empty => cases h.1
      | split tag content => cases h.1
      | leaf a =>
          cases a with
          | text t =>
              show (t ++ (textUpTo closes (eventsOf rest ++ .stop stop :: more)).1,
                (textUpTo closes (eventsOf rest ++ .stop stop :: more)).2) = _
              rw [hrest]
              rfl
          | _ => cases h.1

end Markdown

end Yaldabaoth
