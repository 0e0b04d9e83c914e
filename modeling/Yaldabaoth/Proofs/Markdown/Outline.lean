import Yaldabaoth.Proofs.Markdown.SourceMap

/-!
# `Yaldabaoth.Proofs.Markdown.Outline`: the headings of a document

`outline` keeps one open heading while it goes over the events. `headingsOf`
reads the headings off the tree, wherever they are in it. Between the two
stand the walks over one element: inside a heading they push text
(`pushed_element`), outside they list what is below (`walked_element`).
-/

set_option autoImplicit false

namespace Yaldabaoth

namespace Markdown

/-! ### Headings in a tree -/

def Tag.isHeading : Tag → Bool
  | .heading _ => true
  | _ => false

namespace Element

mutual

/-- No heading is in the element. -/
def headless : Element → Bool
  | .split tag content => !tag.isHeading && allHeadless content
  | _ => true

def allHeadless : List Element → Bool
  | [] => true
  | element :: rest => headless element && allHeadless rest

end

mutual

/-- No heading is in a heading. -/
def flat : Element → Bool
  | .split tag content => if tag.isHeading then allHeadless content else allFlat content
  | _ => true

def allFlat : List Element → Bool
  | [] => true
  | element :: rest => flat element && allFlat rest

end

end Element

/-- The heading as it is listed, if there is something to show. -/
def listed (markdown : List UInt8) (level : HeadingLevel) (text : Text) (bytes : Range) :
    List OutlineHeading :=
  if (DiffText.trim text).isEmpty then []
  else [⟨headingLevelToU8 level, DiffText.trim text, bytes, lineAt markdown bytes.1⟩]

mutual

/-- The headings in an element, with the ranges of its events at hand. -/
def headingsOf (markdown : List UInt8) : Element → List Range → List OutlineHeading
  | .split tag content, ranges =>
      match tag with
      | .heading level => listed markdown level (altOf content) (ranges.headD (0, 0))
      | _ => headingsOfAll markdown content ranges.tail
  | .empty, _ | .leaf _, _ => []

def headingsOfAll (markdown : List UInt8) : List Element → List Range → List OutlineHeading
  | [], _ => []
  | element :: rest, ranges =>
      headingsOf markdown element ranges ++
        headingsOfAll markdown rest (ranges.drop (events element).length)

end

/-! ### Inside a heading -/

namespace Outline

theorem push_nil (o : Outline) : o.push [] = o := by
  cases o with
  | mk out current lines => cases current <;> simp [push]

theorem push_push (o : Outline) (text more : Text) :
    (o.push text).push more = o.push (text ++ more) := by
  cases o with
  | mk out current lines => cases current <;> simp [push]

theorem step_leaf (o : Outline) (a : Leaf) (range : Range) :
    o.step (.leaf a, range) = o.push (leafAlt a) := by
  cases a <;> first | rfl | exact (push_nil o).symm

theorem step_start (o : Outline) {tag : Tag} (h : tag.isHeading = false) (range : Range) :
    o.step (.start tag, range) = o := by
  cases tag <;> first | rfl | cases h

theorem step_stop (o : Outline) {tag : Tag} (h : tag.isHeading = false) (range : Range) :
    o.step (.stop tag.toEnd, range) = o := by
  cases tag <;> first | rfl | cases h

end Outline

/-- The events of an inner node, with their ranges. -/
theorem exists_stream {tag : Tag} {content : List Element} {stream : List (Event × Range)}
    (h : stream.map Prod.fst = events (.split tag content)) :
    ∃ first inner last, stream = (.start tag, first) :: (inner ++ [(.stop tag.toEnd, last)]) ∧
      inner.map Prod.fst = eventsOf content := by
  rw [events_split, List.map_eq_cons_iff] at h
  obtain ⟨⟨_, first⟩, rest, rfl, rfl, h⟩ := h
  obtain ⟨inner, back, rfl, hinner, hback⟩ := List.map_eq_append_iff.1 h
  obtain ⟨⟨_, last⟩, rfl, rfl⟩ := List.map_eq_singleton_iff.1 hback
  exact ⟨first, inner, last, rfl, hinner⟩

mutual

theorem pushed_element : ∀ (element : Element), element.headless = true →
    ∀ (stream : List (Event × Range)), stream.map Prod.fst = events element → ∀ o : Outline,
      stream.foldl Outline.step o = o.push (altOf [element])
  | .empty, _, stream, hstream, o => by
      obtain rfl := List.map_eq_nil_iff.1 hstream
      exact o.push_nil.symm
  | .leaf a, _, stream, hstream, o => by
      obtain ⟨⟨_, range⟩, rfl, rfl⟩ := List.map_eq_singleton_iff.1 hstream
      show o.step (.leaf a, range) = o.push (altOf [.leaf a])
      rw [o.step_leaf]
      simp [altOf]
  | .split tag content, h, stream, hstream, o => by
      rw [Element.headless, Bool.and_eq_true, Bool.not_eq_true'] at h
      obtain ⟨first, inner, last, rfl, hinner⟩ := exists_stream hstream
      have htext : altOf [.split tag content] = altOf content := by simp [altOf]
      rw [List.foldl_cons, List.foldl_append, o.step_start h.1,
        pushed_elements content h.2 inner hinner, htext]
      exact Outline.step_stop _ h.1 last

theorem pushed_elements : ∀ (content : List Element), Element.allHeadless content = true →
    ∀ (stream : List (Event × Range)), stream.map Prod.fst = eventsOf content → ∀ o : Outline,
      stream.foldl Outline.step o = o.push (altOf content)
  | [], _, stream, hstream, o => by
      obtain rfl := List.map_eq_nil_iff.1 hstream
      exact o.push_nil.symm
  | element :: rest, h, stream, hstream, o => by
      rw [Element.allHeadless, Bool.and_eq_true] at h
      obtain ⟨front, back, rfl, hfront, hback⟩ := List.map_eq_append_iff.1 hstream
      have htext : altOf (element :: rest) = altOf [element] ++ altOf rest := by simp [altOf]
      rw [List.foldl_append, pushed_element element h.1 front hfront,
        pushed_elements rest h.2 back hback, Outline.push_push, htext]

end

/-! ### Outside of headings -/

/-- A heading is opened, filled and listed. -/
theorem walked_heading {level : HeadingLevel} {content : List Element}
    (h : Element.allHeadless content = true) {inner : List (Event × Range)}
    (hinner : inner.map Prod.fst = eventsOf content) (first last : Range)
    (out : List OutlineHeading) {lines : LineIndex} (hlines : lines.Sound) :
    ∃ lines' : LineIndex, lines'.Sound ∧ lines'.text = lines.text ∧
      ((.start (.heading level), first) :: (inner ++ [(.stop (.heading level), last)])).foldl
          Outline.step ⟨out, none, lines⟩ =
        ⟨out ++ listed lines.text level (altOf content) first, none, lines'⟩ := by
  obtain ⟨hline, hsound, htext⟩ := LineIndex.lineOf_spec hlines first.1
  refine ⟨(lines.lineOf first.1).2, hsound, htext, ?_⟩
  rw [List.foldl_cons, List.foldl_append, pushed_elements content h inner hinner]
  simp only [Outline.step, Outline.push, Option.map_some, List.foldl_cons, List.foldl_nil,
    List.nil_append, listed, hline]
  split
  · rw [List.append_nil]
  · rfl

mutual

theorem walked_element : ∀ (element : Element), element.flat = true →
    ∀ (stream : List (Event × Range)), stream.map Prod.fst = events element →
      ∀ (more : List Range) (out : List OutlineHeading) (lines : LineIndex), lines.Sound →
        ∃ lines' : LineIndex, lines'.Sound ∧ lines'.text = lines.text ∧
          stream.foldl Outline.step ⟨out, none, lines⟩ =
            ⟨out ++ headingsOf lines.text element (stream.map Prod.snd ++ more), none, lines'⟩
  | .empty, _, stream, hstream, more, out, lines, hlines => by
      obtain rfl := List.map_eq_nil_iff.1 hstream
      exact ⟨lines, hlines, rfl, by rw [headingsOf, List.append_nil]; rfl⟩
  | .leaf a, _, stream, hstream, more, out, lines, hlines => by
      obtain ⟨⟨_, range⟩, rfl, rfl⟩ := List.map_eq_singleton_iff.1 hstream
      refine ⟨lines, hlines, rfl, ?_⟩
      rw [headingsOf, List.append_nil]
      exact Outline.step_leaf _ a range
  | .split tag content, h, stream, hstream, more, out, lines, hlines => by
      obtain ⟨first, inner, last, rfl, hinner⟩ := exists_stream hstream
      rw [Element.flat] at h
      cases htag : tag.isHeading with
      | true =>
          rw [if_pos htag] at h
          cases tag <;> first | exact walked_heading h hinner first last out hlines | cases htag
      | false =>
          rw [htag, if_neg Bool.false_ne_true] at h
          obtain ⟨lines', hsound, htext, hinside⟩ :=
            walked_elements content h inner hinner (last :: more) out lines hlines
          refine ⟨lines', hsound, htext, ?_⟩
          rw [List.foldl_cons, Outline.step_start _ htag, List.foldl_append, hinside]
          have hbelow : headingsOf lines.text (.split tag content)
              (((.start tag, first) :: (inner ++ [(.stop tag.toEnd, last)])).map Prod.snd ++ more) =
              headingsOfAll lines.text content (inner.map Prod.snd ++ last :: more) := by
            cases tag with
            | heading level => cases htag
            | _ => simp [headingsOf]
          rw [hbelow]
          exact Outline.step_stop _ htag last

theorem walked_elements : ∀ (content : List Element), Element.allFlat content = true →
    ∀ (stream : List (Event × Range)), stream.map Prod.fst = eventsOf content →
      ∀ (more : List Range) (out : List OutlineHeading) (lines : LineIndex), lines.Sound →
        ∃ lines' : LineIndex, lines'.Sound ∧ lines'.text = lines.text ∧
          stream.foldl Outline.step ⟨out, none, lines⟩ =
            ⟨out ++ headingsOfAll lines.text content (stream.map Prod.snd ++ more), none, lines'⟩
  | [], _, stream, hstream, more, out, lines, hlines => by
      obtain rfl := List.map_eq_nil_iff.1 hstream
      exact ⟨lines, hlines, rfl, by rw [headingsOfAll, List.append_nil]; rfl⟩
  | element :: rest, h, stream, hstream, more, out, lines, hlines => by
      rw [Element.allFlat, Bool.and_eq_true] at h
      obtain ⟨front, back, rfl, hfront, hback⟩ := List.map_eq_append_iff.1 hstream
      obtain ⟨mid, hmid, htext, hfirst⟩ := walked_element element h.1 front hfront
        (back.map Prod.snd ++ more) out lines hlines
      obtain ⟨lines', hsound, htext', hrest⟩ := walked_elements rest h.2 back hback more
        (out ++ headingsOf lines.text element (front.map Prod.snd ++ (back.map Prod.snd ++ more)))
        mid hmid
      have hlength : (events element).length = (front.map Prod.snd).length :=
        (congrArg List.length hfront).symm.trans (by rw [List.length_map, List.length_map])
      refine ⟨lines', hsound, htext'.trans htext, ?_⟩
      rw [List.foldl_append, hfirst, hrest, headingsOfAll, List.map_append, List.append_assoc,
        List.append_assoc, hlength, List.drop_left, htext]

end

/-- The outline of a document has its headings, wherever they are in it, in their order: each with
its level, all of its text, the bytes of the element and the line that these start on, counted from
the start. Only headings without a text are left out. -/
theorem outline_exact {content : List Element} (h : Element.allFlat content = true)
    {stream : List (Event × Range)} (hstream : stream.map Prod.fst = eventsOf content)
    (markdown : List UInt8) :
    outline markdown stream = headingsOfAll markdown content (stream.map Prod.snd) := by
  obtain ⟨lines, -, -, hwalk⟩ := walked_elements content h stream hstream [] [] (.new markdown)
    (LineIndex.sound_new markdown)
  rw [outline, hwalk, List.nil_append, List.append_nil]
  rfl

theorem outline_exact_sample :
    outline taskAndHeadingText taskAndHeadingStream = [⟨1, ['T'], (9, 13), 2⟩] :=
  (@outline_exact taskAndHeading (by decide) taskAndHeadingStream (by decide) _).trans (by decide)

end Markdown

end Yaldabaoth
