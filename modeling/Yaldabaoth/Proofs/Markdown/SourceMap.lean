import Yaldabaoth.Model.MarkdownSource
import Yaldabaoth.Proofs.Markdown.Rendering

/-!
# `Yaldabaoth.Proofs.Markdown.SourceMap`: spans point at their source

Every block has the range of the element it was made from, and the lines
of that range: what `LineIndex` counts on from the last query is what
would be counted from the start (`linesOfAll_eq`). Where the ranges of the
elements follow each other, as those of the parser do, a line is mapped to
the last block that starts at or above it.
-/

set_option autoImplicit false

namespace Yaldabaoth

namespace Markdown

variable (r : Renderer)

/-! ### Lines -/

/-- The line of a byte, counted from the start. -/
def lineAt (text : List UInt8) (byte : Nat) : Nat := (text.take byte).count newline

def linesAt (text : List UInt8) (bytes : Range) : Range :=
  if bytes.1 < bytes.2 then (lineAt text bytes.1, lineAt text (bytes.2 - 1) + 1)
  else (lineAt text bytes.1, lineAt text bytes.1 + 1)

theorem lineAt_add (text : List UInt8) {pos byte : Nat} (h : pos ≤ byte) :
    lineAt text pos + ((text.take byte).drop pos).count newline = lineAt text byte := by
  have htake : (text.take byte).take pos = text.take pos := by
    rw [List.take_take, Nat.min_eq_left h]
  rw [lineAt, lineAt, ← htake, ← List.count_append, List.take_append_drop]

theorem lineAt_mono (text : List UInt8) {a b : Nat} (h : a ≤ b) :
    lineAt text a ≤ lineAt text b := by
  rw [← lineAt_add text h]
  exact Nat.le_add_right _ _

theorem lineAt_min (text : List UInt8) (byte : Nat) :
    lineAt text (min byte text.length) = lineAt text byte := by
  rw [lineAt, lineAt, ← List.take_eq_take_min]

namespace LineIndex

/-- The line that has been counted is that of the position. -/
def Sound (index : LineIndex) : Prop := index.line = lineAt index.text index.pos

theorem sound_new (text : List UInt8) : (new text).Sound := rfl

theorem lineOf_spec {index : LineIndex} (h : index.Sound) (byte : Nat) :
    (index.lineOf byte).1 = lineAt index.text byte ∧ (index.lineOf byte).2.Sound ∧
      (index.lineOf byte).2.text = index.text := by
  have hline (i : LineIndex) (hi : i.Sound) (hpos : i.pos ≤ min byte i.text.length) :
      i.line + ((i.text.take (min byte i.text.length)).drop i.pos).count newline =
        lineAt i.text byte := by
    rw [hi, lineAt_add _ hpos, lineAt_min]
  rw [lineOf]
  dsimp only
  split
  · -- the count starts anew
    have hstart := hline { index with pos := 0, line := 0 } rfl (Nat.zero_le _)
    refine ⟨hstart, ?_, rfl⟩
    rw [Sound]
    exact hstart.trans (lineAt_min _ _).symm
  · have hon := hline index h (Nat.le_of_not_lt ‹_›)
    refine ⟨hon, ?_, rfl⟩
    rw [Sound]
    exact hon.trans (lineAt_min _ _).symm

theorem linesOf_spec {index : LineIndex} (h : index.Sound) (bytes : Range) :
    (index.linesOf bytes).1 = linesAt index.text bytes ∧ (index.linesOf bytes).2.Sound ∧
      (index.linesOf bytes).2.text = index.text := by
  obtain ⟨hstart, hsound, htext⟩ := lineOf_spec h bytes.1
  obtain ⟨hlast, hsound', htext'⟩ := lineOf_spec hsound (bytes.2 - 1)
  rw [linesOf, linesAt]
  dsimp only
  split
  · refine ⟨?_, hsound', htext'.trans htext⟩
    rw [hstart, hlast, htext]
  · exact ⟨by rw [hstart], hsound, htext⟩

theorem linesOfAll_eq {index : LineIndex} (h : index.Sound) (ranges : List Range) :
    index.linesOfAll ranges = ranges.map (linesAt index.text) := by
  induction ranges generalizing index with
  | nil => rfl
  | cons bytes rest ih =>
      obtain ⟨hlines, hsound, htext⟩ := linesOf_spec h bytes
      rw [linesOfAll, List.map_cons, ← hlines, ← htext, ← ih hsound]

end LineIndex

/-! ### One range for each block -/

/-- The range of each element: that of its first event. -/
def elementRanges : List Element → List Range → List Range
  | [], _ => []
  | element :: rest, ranges =>
      ranges.headD (0, 0) :: elementRanges rest (ranges.drop (events element).length)

/-- The range of each block. -/
def Renderer.blockRanges : List Element → List Range → List Range
  | [], _ => []
  | element :: rest, ranges =>
      (r.blocksOf element).map (fun _ => ranges.headD (0, 0)) ++
        blockRanges rest (ranges.drop (events element).length)

theorem blockRanges_length (content : List Element) (ranges : List Range) :
    (r.blockRanges content ranges).length = (r.allBlocksOf content).length := by
  induction content generalizing ranges with
  | nil => rfl
  | cons element rest ih =>
      rw [Renderer.blockRanges, Renderer.allBlocksOf, List.length_append, List.length_append,
        List.length_map, ih]

/-- An element is one block, or none. -/
theorem blocksOf_length (element : Element) : (r.blocksOf element).length ≤ 1 := by
  cases element with
  | empty => exact Nat.zero_le 1
  | leaf a =>
      rw [Renderer.blocksOf]
      split <;> decide
  | split tag content =>
      cases tag with
      | metadataBlock kind =>
          show (metadata (textOf content)).length ≤ 1
          rw [metadata]
          split
          · exact Nat.zero_le 1
          · exact Nat.le_refl 1
      | _ => first | exact Nat.le_refl 1 | exact Nat.zero_le 1

theorem blockRanges_sublist (content : List Element) (ranges : List Range) :
    (r.blockRanges content ranges).Sublist (elementRanges content ranges) := by
  induction content generalizing ranges with
  | nil => exact .slnil
  | cons element rest ih =>
      rw [Renderer.blockRanges, elementRanges]
      have hone := blocksOf_length r element
      cases hblocks : r.blocksOf element with
      | nil => exact (ih _).cons _
      | cons b more =>
          rw [hblocks, List.length_cons] at hone
          obtain rfl : more = [] := List.length_eq_zero_iff.1 (by omega)
          exact (ih _).cons_cons _

/-- The loop over events with their ranges, past the events of one element. -/
theorem renderTop_element {element : Element} (h : Taken r element ∨ IsHtmlBlock element)
    {front back : List (Event × Range)} (hfront : front.map Prod.fst = events element) {n : Nat}
    (hn : 2 * (front ++ back).length ≤ n) :
    ∃ m, 2 * back.length ≤ m ∧ r.renderTop n (front ++ back) =
      (r.blocksOf element ++ (r.renderTop m back).1,
        (r.blocksOf element).map (fun _ => (front.map Prod.snd).headD (0, 0)) ++
          (r.renderTop m back).2) := by
  rcases h with ⟨e, rest, he, -, hone⟩ | h
  · rw [he] at hfront
    cases front with
    | nil => cases hfront
    | cons first front =>
        obtain ⟨hfirst, hrest⟩ := List.cons.inj hfront
        rw [List.cons_append, List.length_cons] at hn
        obtain ⟨n, rfl⟩ : ∃ k, n = k + 1 := Nat.exists_eq_add_one.2 (by omega)
        have hlength : (front ++ back).length - (back.map Prod.fst).length = front.length := by
          rw [List.length_append, List.length_map, Nat.add_sub_cancel]
        have htaken : r.renderOne n first.1 ((front ++ back).map Prod.fst) =
            (r.blocksOf element, back.map Prod.fst) := by
          rw [(fuel_enough r n (2 * ((front ++ back).map Prod.fst).length + 1)).2.1 _ _
            (by rw [List.length_map]; omega) (Nat.le_refl _), List.map_append]
          rw [show first.1 = e from hfirst, show front.map Prod.fst = rest from hrest]
          exact hone _
        refine ⟨n, ?_, ?_⟩
        · rw [List.length_append] at hn
          omega
        · rw [List.cons_append, Renderer.renderTop, htaken]
          dsimp only
          rw [hlength, List.drop_left]
          rfl
  · have hnone : r.blocksOf element = [] := by
      obtain ⟨content, rfl, -⟩ := h
      rfl
    have hskipped := html_skipped r h
    rw [← hfront] at hskipped
    rw [hnone]
    -- one event after the other, without a block
    clear hfront
    induction front generalizing n with
    | nil => exact ⟨n, hn, rfl⟩
    | cons first front ih =>
        rw [List.cons_append, List.length_cons] at hn
        obtain ⟨n, rfl⟩ : ∃ k, n = k + 1 := Nat.exists_eq_add_one.2 (by omega)
        have hone : r.renderOne n first.1 ((front ++ back).map Prod.fst) =
            ([], (front ++ back).map Prod.fst) := by
          rw [(fuel_enough r n (2 * ((front ++ back).map Prod.fst).length + 1)).2.1 _ _
            (by rw [List.length_map]; omega) (Nat.le_refl _)]
          exact (hskipped first.1 List.mem_cons_self).2 _
        obtain ⟨m, hm, hrest⟩ := ih (n := n) (by omega)
          fun e he => hskipped e (List.mem_cons_of_mem _ he)
        refine ⟨m, hm, ?_⟩
        rw [List.cons_append, Renderer.renderTop, hone]
        dsimp only
        rw [List.length_map, Nat.sub_self, List.drop_zero, hrest]
        rfl

theorem events_ne_nil {element : Element} (h : Taken r element ∨ IsHtmlBlock element) :
    events element ≠ [] := by
  rcases h with ⟨e, rest, he, -⟩ | ⟨content, rfl, -⟩
  · rw [he]
    exact List.cons_ne_nil e rest
  · exact List.cons_ne_nil _ _

theorem renderTop_eq {content : List Element} (h : Element.allBlock content = true)
    {stream : List (Event × Range)} (hstream : stream.map Prod.fst = eventsOf content) {n : Nat}
    (hn : 2 * stream.length ≤ n) :
    r.renderTop n stream =
      (r.allBlocksOf content, r.blockRanges content (stream.map Prod.snd)) := by
  induction content generalizing stream n with
  | nil =>
      obtain rfl := List.map_eq_nil_iff.1 hstream
      cases n <;> rfl
  | cons element rest ih =>
      obtain ⟨helement, hrest⟩ := allBlock_cons.1 h
      obtain ⟨front, back, rfl, hfront, hback⟩ := List.map_eq_append_iff.1 hstream
      have hblock := one_block r element helement
      obtain ⟨m, hm, htop⟩ := renderTop_element r hblock hfront hn
      have hlength : (events element).length = (front.map Prod.snd).length :=
        (congrArg List.length hfront).symm.trans (by rw [List.length_map, List.length_map])
      have hhead : ((front ++ back).map Prod.snd).headD (0, 0) =
          (front.map Prod.snd).headD (0, 0) := by
        cases front with
        | nil => exact absurd hfront.symm (events_ne_nil r hblock)
        | cons first front => rfl
      rw [htop, ih hrest hback hm, Renderer.allBlocksOf, Renderer.blockRanges, hhead, hlength,
        List.map_append, List.drop_left]

/-- What the parser promises of the ranges of the elements: none is empty, they follow each
other, and they are in the text. -/
structure Laid (content : List Element) (ranges : List Range) (text : List UInt8) : Prop where
  nonempty : ∀ b ∈ elementRanges content ranges, b.1 < b.2
  inText : ∀ b ∈ elementRanges content ranges, b.2 ≤ text.length
  inOrder : (elementRanges content ranges).Pairwise fun b b' => b.2 ≤ b'.1

section
variable {content : List Element} {stream : List (Event × Range)} {markdown : List UInt8}

theorem renderMapped_eq (h : Element.allBlock content = true)
    (hstream : stream.map Prod.fst = eventsOf content) :
    r.renderMapped markdown stream =
      ⟨r.allBlocksOf content, (r.blockRanges content (stream.map Prod.snd)).map
        fun b => ⟨b, linesAt markdown b⟩⟩ := by
  rw [Renderer.renderMapped, renderTop_eq r h hstream (Nat.le_refl _)]
  dsimp only
  rw [LineIndex.linesOfAll_eq (LineIndex.sound_new markdown), List.zip_map_right, List.map_map]
  congr 1
  induction r.blockRanges content (stream.map Prod.snd) with
  | nil => rfl
  | cons b rest ih => rw [List.zip_cons_cons, List.map_cons, List.map_cons, ih]; rfl

theorem linesAt_laid (hlaid : Laid content (stream.map Prod.snd) markdown) {b : Range}
    (hb : b ∈ r.blockRanges content (stream.map Prod.snd)) :
    linesAt markdown b = (lineAt markdown b.1, lineAt markdown (b.2 - 1) + 1) :=
  if_pos (hlaid.nonempty b ((blockRanges_sublist r content (stream.map Prod.snd)).subset hb))

/-- The spans follow each other, and so do the lines they start on. -/
theorem renderMapped_ordered (h : Element.allBlock content = true)
    (hstream : stream.map Prod.fst = eventsOf content)
    (hlaid : Laid content (stream.map Prod.snd) markdown) :
    (r.renderMapped markdown stream).spans.Pairwise
      (fun s s' => s.bytes.2 ≤ s'.bytes.1 ∧ s.lines.1 ≤ s'.lines.1) := by
  have hsub := blockRanges_sublist r content (stream.map Prod.snd)
  rw [renderMapped_eq r h hstream, List.pairwise_map]
  refine (hlaid.inOrder.sublist hsub).imp_of_mem fun {b b'} hb hb' hle => ⟨hle, ?_⟩
  have hle : b.2 ≤ b'.1 := hle
  have hnonempty := hlaid.nonempty b (hsub.subset hb)
  rw [linesAt_laid r hlaid hb, linesAt_laid r hlaid hb']
  exact lineAt_mono markdown (by omega)

/-- Blocks that are mapped are those of `render`, each with one span: the range of its element,
and the lines of that. The spans are in the text and follow each other. -/
theorem spans_tile (h : Element.allBlock content = true)
    (hstream : stream.map Prod.fst = eventsOf content)
    (hlaid : Laid content (stream.map Prod.snd) markdown) :
    (r.renderMapped markdown stream).blocks = r.render (stream.map Prod.fst) ∧
      (r.renderMapped markdown stream).spans = (r.blockRanges content (stream.map Prod.snd)).map
        (fun b => ⟨b, (lineAt markdown b.1, lineAt markdown (b.2 - 1) + 1)⟩) ∧
      (r.renderMapped markdown stream).spans.length =
        (r.renderMapped markdown stream).blocks.length ∧
      (r.renderMapped markdown stream).spans.Pairwise
        (fun s s' => s.bytes.2 ≤ s'.bytes.1 ∧ s.lines.1 ≤ s'.lines.1) ∧
      ∀ s ∈ (r.renderMapped markdown stream).spans,
        s.bytes.1 < s.bytes.2 ∧ s.bytes.2 ≤ markdown.length ∧ s.lines.1 < s.lines.2 := by
  have hsub := blockRanges_sublist r content (stream.map Prod.snd)
  refine ⟨?_, ?_, ?_, renderMapped_ordered r h hstream hlaid, ?_⟩
  · rw [renderMapped_eq r h hstream, hstream, render_blocks r content h]
  · rw [renderMapped_eq r h hstream]
    exact List.map_congr_left fun b hb => by rw [linesAt_laid r hlaid hb]
  · rw [renderMapped_eq r h hstream, List.length_map, blockRanges_length]
  · intro s hs
    rw [renderMapped_eq r h hstream] at hs
    obtain ⟨b, hb, rfl⟩ := List.mem_map.1 hs
    have hnonempty := hlaid.nonempty b (hsub.subset hb)
    refine ⟨hnonempty, hlaid.inText b (hsub.subset hb), ?_⟩
    show (linesAt markdown b).1 < (linesAt markdown b).2
    rw [linesAt_laid r hlaid hb]
    exact Nat.lt_succ_of_le (lineAt_mono markdown (by omega))

/-- The bytes of `taskAndHeading`. -/
def taskAndHeadingText : List UInt8 := [45, 32, 91, 120, 93, 32, 97, 10, 10, 35, 32, 84, 10]

/-- The events of `taskAndHeading`, with what they cover. -/
def taskAndHeadingStream : List (Event × Range) :=
  [(.start (.list none), (0, 8)), (.start .item, (0, 8)), (.leaf (.taskListMarker true), (2, 5)),
    (.leaf (.text ['a']), (6, 7)), (.stop .item, (0, 8)), (.stop (.list false), (0, 8)),
    (.start (.heading .h1), (9, 13)), (.leaf (.text ['T']), (11, 12)),
    (.stop (.heading .h1), (9, 13))]

theorem taskAndHeading_laid :
    Laid taskAndHeading (taskAndHeadingStream.map Prod.snd) taskAndHeadingText :=
  ⟨by decide, by decide, by decide⟩

theorem spans_tile_sample :
    (plainRenderer.renderMapped taskAndHeadingText taskAndHeadingStream).blocks =
        plainRenderer.render (taskAndHeadingStream.map Prod.fst) ∧
      (plainRenderer.renderMapped taskAndHeadingText taskAndHeadingStream).spans =
        [⟨(0, 8), (0, 1)⟩, ⟨(9, 13), (2, 3)⟩] := by
  have h := spans_tile plainRenderer (by decide) (by decide) taskAndHeading_laid
  exact ⟨h.1, h.2.1.trans (by decide)⟩

/-- The last of the entries that pass a test, where those that pass stand in front. -/
theorem partitionPoint_eq {α : Type} {p : α → Bool} {xs : List α} {k : Nat}
    (hfront : ∀ x ∈ xs.take (k + 1), p x = true) (hk : k < xs.length)
    (hback : ∀ x ∈ xs[k + 1]?, p x = false) : Spans.partitionPoint p xs = k + 1 := by
  have hstop : (xs.drop (k + 1)).takeWhile p = [] := by
    cases hdrop : xs.drop (k + 1) with
    | nil => rfl
    | cons x rest =>
        have hx : xs[k + 1]? = some x := by
          rw [← List.head?_drop, hdrop]
          rfl
        exact List.takeWhile_cons_of_neg (by rw [hback x hx]; decide)
  rw [Spans.partitionPoint, ← List.take_append_drop (k + 1) xs,
    List.takeWhile_append_of_pos hfront, hstop, List.append_nil, List.length_take,
    Nat.min_eq_left hk]

/-- A line leads to the last block that starts at or above it, and one above all of them to the
first. -/
theorem block_at_line_exact (h : Element.allBlock content = true)
    (hstream : stream.map Prod.fst = eventsOf content)
    (hlaid : Laid content (stream.map Prod.snd) markdown) {k : Nat} {s : SourceSpan}
    (hs : (r.renderMapped markdown stream).spans[k]? = some s) (line : Nat) :
    (s.lines.1 ≤ line →
        (∀ s' ∈ (r.renderMapped markdown stream).spans[k + 1]?, line < s'.lines.1) →
          (r.renderMapped markdown stream).blockAtLine line = some k) ∧
      ((∀ s' ∈ (r.renderMapped markdown stream).spans[0]?, line < s'.lines.1) →
        (r.renderMapped markdown stream).blockAtLine line = some 0) := by
  have horder := renderMapped_ordered r h hstream hlaid
  have hlt : k < (r.renderMapped markdown stream).spans.length := (List.getElem?_eq_some_iff.1 hs).1
  have hnonempty : (r.renderMapped markdown stream).spans.isEmpty = false := by
    cases hspans : (r.renderMapped markdown stream).spans with
    | nil => rw [hspans] at hlt; cases hlt
    | cons first rest => rfl
  rw [Rendered.blockAtLine, if_neg (by rw [hnonempty]; decide)]
  constructor
  · intro hin hnext
    refine congrArg some ?_
    rw [partitionPoint_eq (k := k) ?_ hlt ?_, Nat.add_sub_cancel]
    · intro s' hs'
      obtain ⟨i, hi, rfl⟩ := List.getElem_of_mem hs'
      rw [List.length_take] at hi
      rw [List.getElem_take, decide_eq_true_iff]
      obtain ⟨_, hsk⟩ := List.getElem?_eq_some_iff.1 hs
      rcases Nat.lt_or_ge i k with hik | hik
      · have hle := (List.pairwise_iff_getElem.1 horder i k (by omega) hlt hik).2
        rw [hsk] at hle
        exact Nat.le_trans hle hin
      · have hik : i = k := by omega
        subst hik
        rw [hsk]
        exact hin
    · intro s' hs'
      rw [decide_eq_false_iff_not]
      exact Nat.not_le.2 (hnext s' hs')
  · intro hfirst
    refine congrArg some ?_
    cases hspans : (r.renderMapped markdown stream).spans with
    | nil => rfl
    | cons first rest =>
        rw [hspans] at hfirst
        rw [Spans.partitionPoint, List.takeWhile_cons_of_neg
          (by simpa using hfirst first rfl)]
        rfl

theorem block_at_line_exact_sample :
    (plainRenderer.renderMapped taskAndHeadingText taskAndHeadingStream).blockAtLine 2 =
      some 1 :=
  (block_at_line_exact plainRenderer (by decide) (by decide) taskAndHeading_laid
    (k := 1) (s := ⟨(9, 13), (2, 3)⟩) (by decide) 2).1 (by decide) (by decide)

end

end Markdown

end Yaldabaoth
