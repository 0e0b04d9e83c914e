import Yaldabaoth.Proofs.Markdown.Inline

/-!
# `Yaldabaoth.Proofs.Markdown.Rendering`: the blocks are those of the tree

The renderer reads a flat stream and counts brackets. On the stream of a
document it makes the blocks that the tree stands for, with nothing of one
block in another (`renders_tree`). The induction is on the tree: a block
takes the events of its element and no others (`one_block`), an item its
own marker and the rest of its events (`itemEvents_parts`).
-/

set_option autoImplicit false

namespace Yaldabaoth

namespace Markdown

variable (r : Renderer)

/-! ### Paragraphs -/

/-- No inline element starts with the end of a paragraph, and none is without events. -/
theorem exists_inline_event {element : Element} (h : element.isInline = true) :
    ∃ e rest, events element = e :: rest ∧ isInlineEvent e = true := by
  cases element with
  | empty => cases h
  | leaf a => exact ⟨_, _, rfl, h⟩
  | split tag content => exact ⟨_, _, rfl, (isInline_split h).1⟩

theorem paragraph_content {content : List Element} (h : Element.allInline content = true)
    (more : List Event) :
    r.paragraph (eventsOf content ++ .stop .paragraph :: more) =
      (r.paragraphOf content, more) := by
  have hinline : (RenderedBlock.paragraph
        (r.collectInline .paragraph (eventsOf content ++ .stop .paragraph :: more)
          (.multiline r.theme.paragraph)).1.intoLines,
      (r.collectInline .paragraph (eventsOf content ++ .stop .paragraph :: more)
          (.multiline r.theme.paragraph)).2) = (.paragraph (r.linesOf content), more) := by
    rw [collectInline_content r rfl _ h, linesOf_eq]
  cases content with
  | nil => exact hinline
  | cons element rest =>
      obtain ⟨helement, hrest⟩ := allInline_cons.1 h
      cases element with
      | empty => cases helement
      | leaf a => exact hinline
      | split tag alt =>
          cases tag with
          | image url title =>
              have himage := collectImage_content url title alt
                (eventsOf rest ++ .stop .paragraph :: more)
              rw [cons_append, split_append] at hinline ⊢
              rw [Renderer.paragraph]
              dsimp only
              rw [show Tag.toEnd (.image url title) = .image from rfl] at hinline ⊢
              rw [himage]
              cases rest with
              | nil => rfl
              | cons element' rest =>
                  -- the image is not alone
                  obtain ⟨e, after, he, hinlineEvent⟩ :=
                    exists_inline_event (allInline_cons.1 hrest).1
                  rw [eventsOf_cons, he] at hinline ⊢
                  split
                  · rename_i heq
                    cases heq
                    cases hinlineEvent
                  · exact hinline
          | _ => exact hinline

/-! ### Tables -/

/-- `collect_table`. -/
def Renderer.table (t : TableRows) (events : List Event) : TableRows × List Event :=
  r.collectTable events.length t events

theorem collectTable_eq {n : Nat} (t : TableRows) {events : List Event}
    (h : events.length ≤ n) : r.collectTable n t events = r.table t events :=
  collectTable_fuel r _ _ t events h (Nat.le_refl _)

theorem table_cells {style : Style} {inHead : Bool}
    (hstyle : (if inHead then r.theme.tableHeader else r.theme.paragraph) = style)
    {cells : List Element} (h : cells.all Element.isCell = true) (headers : List StyledLine)
    (rows : List (List StyledLine)) (currentRow : List StyledLine) (more : List Event) :
    r.table ⟨headers, rows, currentRow, inHead⟩ (eventsOf cells ++ more) =
      r.table ⟨headers, rows, currentRow ++ r.cellsOf style cells, inHead⟩ more := by
  induction cells generalizing currentRow with
  | nil => rw [Renderer.cellsOf, List.map_nil, List.append_nil]; rfl
  | cons cell rest ih =>
      rw [List.all_cons, Bool.and_eq_true] at h
      cases cell with
      | empty => cases h.1
      | leaf a => cases h.1
      | split tag content =>
          cases tag with
          | tableCell =>
              have hcontent : Element.allInline content = true := h.1
              have hcell := collectInline_content r (rfl : isInlineEvent (.stop .tableCell) = false) (.new style) hcontent
                (eventsOf rest ++ more)
              have hlength := collectInline_length r .tableCell
                (eventsOf content ++ .stop .tableCell :: (eventsOf rest ++ more)) (.new style)
              rw [hcell] at hlength
              rw [cons_append, split_append]
              show r.collectTable _ ⟨headers, rows, currentRow ++ [(r.collectInline .tableCell
                  (eventsOf content ++ .stop .tableCell :: (eventsOf rest ++ more))
                  (.new (if inHead then _ else _))).1.intoLine], inHead⟩
                (r.collectInline .tableCell
                  (eventsOf content ++ .stop .tableCell :: (eventsOf rest ++ more))
                  (.new (if inHead then _ else _))).2 = _
              rw [hstyle, hcell]
              refine (collectTable_eq r _ hlength).trans ?_
              show r.table ⟨headers, rows, currentRow ++ [r.lineOf style content], inHead⟩
                (eventsOf rest ++ more) = _
              rw [ih h.2, List.append_assoc]
              rfl
          | _ => cases h.1

theorem table_rows {rows : List Element} (h : rows.all Element.isRow = true)
    (headers : List StyledLine) (done : List (List StyledLine)) (more : List Event) :
    r.table ⟨headers, done, [], false⟩ (eventsOf rows ++ more) =
      r.table ⟨headers, done ++ rows.map r.rowOf, [], false⟩ more := by
  induction rows generalizing done with
  | nil => rw [List.map_nil, List.append_nil]; rfl
  | cons row rest ih =>
      rw [List.all_cons, Bool.and_eq_true] at h
      cases row with
      | empty => cases h.1
      | leaf a => cases h.1
      | split tag cells =>
          cases tag with
          | tableRow =>
              rw [cons_append, split_append]
              show r.table ⟨headers, done, [], false⟩ (eventsOf cells ++
                (.stop .tableRow :: (eventsOf rest ++ more))) = _
              rw [@table_cells r r.theme.paragraph false rfl _ h.1]
              show r.table ⟨headers, done ++ [[] ++ r.cellsOf r.theme.paragraph cells], [], false⟩
                (eventsOf rest ++ more) = _
              rw [ih h.2, List.nil_append, List.append_assoc]
              rfl
          | _ => cases h.1

theorem table_content {content : List Element} (h : Element.isTable content = true)
    (more : List Event) (alignments : List Alignment) :
    ∃ t : TableRows,
      r.table ⟨[], [], [], false⟩ (eventsOf content ++ .stop .table :: more) = (t, more) ∧
        r.tableOf alignments content =
          .table t.headers t.rows (alignments.map columnAlignment) := by
  cases content with
  | nil => cases h
  | cons head rows =>
      cases head with
      | empty => cases h
      | leaf a => cases h
      | split tag cells =>
          cases tag with
          | tableHead =>
              have hcontent : (cells.all Element.isCell && rows.all Element.isRow) = true := h
              rw [Bool.and_eq_true] at hcontent
              have hheaders : (if ([] ++ r.cellsOf r.theme.tableHeader cells).isEmpty then []
                  else [] ++ r.cellsOf r.theme.tableHeader cells) =
                    r.cellsOf r.theme.tableHeader cells := by
                rw [List.nil_append]
                split
                · rename_i hempty
                  exact (List.isEmpty_iff.1 hempty).symm
                · rfl
              refine ⟨⟨r.cellsOf r.theme.tableHeader cells, rows.map r.rowOf, [], false⟩, ?_, rfl⟩
              rw [cons_append, split_append]
              show r.table ⟨[], [], [], true⟩ (eventsOf cells ++
                (.stop .tableHead :: (eventsOf rows ++ .stop .table :: more))) = _
              rw [@table_cells r r.theme.tableHeader true rfl _ hcontent.1]
              show r.table ⟨if ([] ++ r.cellsOf r.theme.tableHeader cells).isEmpty then []
                else [] ++ r.cellsOf r.theme.tableHeader cells, [], [], false⟩
                (eventsOf rows ++ .stop .table :: more) = _
              rw [hheaders, table_rows r hcontent.2]
              rfl
          | _ => cases h

/-! ### Items -/

/-- The scan of an item that goes on behind `front`. -/
def behind (front : List Event) (found : (Option Bool × List Event) × List Event) :
    (Option Bool × List Event) × List Event :=
  ((found.1.1, front ++ found.1.2), found.2)

theorem behind_append (front back : List Event)
    (found : (Option Bool × List Event) × List Event) :
    behind (front ++ back) found = behind front (behind back found) := by
  rw [behind, List.append_assoc]
  rfl

theorem itemEvents_start (depth : Int) (tag : Tag) (more : List Event) :
    itemEvents depth (.start tag :: more) =
      behind [.start tag] (itemEvents (depth + 1) more) := rfl

theorem itemEvents_stop {depth : Int} (hdepth : 0 ≤ depth) (stop : TagEnd) (more : List Event) :
    itemEvents (depth + 1) (.stop stop :: more) = behind [.stop stop] (itemEvents depth more) := by
  show (if stop = .item ∧ depth + 1 = 0 then _
    else behind [.stop stop] (itemEvents (depth + 1 - 1) more)) = _
  rw [if_neg (by omega), Int.add_sub_cancel]

mutual

/-- A marker deeper in an item is not its own. -/
theorem itemEvents_deep {depth : Int} (hdepth : 0 < depth) (more : List Event) :
    ∀ element : Element,
      itemEvents depth (events element ++ more) = behind (events element) (itemEvents depth more)
  | .empty => rfl
  | .leaf a => by
      have hne : depth ≠ 0 := by omega
      cases a with
      | taskListMarker checked =>
          show (if depth = 0 then _ else _) = _
          rw [if_neg hne]
          rfl
      | _ => rfl
  | .split tag content => by
      rw [split_append, itemEvents_start, itemEvents_deepOf (by omega) _ content,
        itemEvents_stop (Int.le_of_lt hdepth), ← behind_append, ← behind_append]
      rfl

theorem itemEvents_deepOf {depth : Int} (hdepth : 0 < depth) (more : List Event) :
    ∀ content : List Element,
      itemEvents depth (eventsOf content ++ more) =
        behind (eventsOf content) (itemEvents depth more)
  | [] => rfl
  | element :: rest => by
      rw [cons_append, itemEvents_deep hdepth _ element, itemEvents_deepOf hdepth more rest,
        eventsOf_cons, behind_append]

end

theorem itemEvents_part {part : Element} (h : (marker part).isSome = false)
    (more : List Event) :
    itemEvents 0 (events part ++ more) = behind (events part) (itemEvents 0 more) := by
  cases part with
  | empty => rfl
  | leaf a =>
      cases a with
      | taskListMarker checked => cases h
      | _ => rfl
  | split tag content =>
      rw [split_append, itemEvents_start, itemEvents_deepOf (by decide) _ content,
        itemEvents_stop (Int.le_refl 0), ← behind_append, ← behind_append]
      rfl

theorem eq_of_marker {part : Element} {checked : Bool} (h : marker part = some checked) :
    part = .leaf (.taskListMarker checked) := by
  rw [marker.eq_def] at h
  split at h
  · rw [Option.some.inj h]
  · cases h

/-- An item: its own marker, and the other events up to its end. -/
theorem itemEvents_parts (parts : List Element) (more : List Event) :
    itemEvents 0 (eventsOf parts ++ .stop .item :: more) =
      ((checkedOf parts, eventsOf (parts.filter fun part => !(marker part).isSome)), more) := by
  induction parts with
  | nil => rfl
  | cons part rest ih =>
      rw [cons_append]
      by_cases hpart : (marker part).isSome = true
      · obtain ⟨checked, hchecked⟩ := Option.isSome_iff_exists.1 hpart
        obtain rfl := eq_of_marker hchecked
        have hmarker : itemEvents 0 (events (.leaf (.taskListMarker checked)) ++
            (eventsOf rest ++ .stop .item :: more)) =
              (((checkedOf rest).or (some checked),
                eventsOf (rest.filter fun part => !(marker part).isSome)), more) := by
          show (((itemEvents 0 (eventsOf rest ++ .stop .item :: more)).1.1.or (some checked),
            (itemEvents 0 (eventsOf rest ++ .stop .item :: more)).1.2),
            (itemEvents 0 (eventsOf rest ++ .stop .item :: more)).2) = _
          rw [ih]
        rw [hmarker, List.filter_cons_of_neg (by simp [hpart]), checkedOf, checkedOf,
          List.filterMap_cons_some hchecked, List.getLast?_cons]
        cases (rest.filterMap marker).getLast? <;> rfl
      · rw [Bool.not_eq_true] at hpart
        have hnone : marker part = none := Option.not_isSome_iff_eq_none.1 (by simp [hpart])
        rw [itemEvents_part hpart, ih, List.filter_cons_of_pos (by simp [hpart]), checkedOf,
          checkedOf, List.filterMap_cons_none hnone]
        rfl

/-! ### Runs of inline elements in an item -/

mutual

theorem inline_events : ∀ element : Element, element.isInline = true →
    ∀ e ∈ events element, isInlineEvent e = true
  | .empty, h => by cases h
  | .leaf a, h => by
      intro e he
      obtain rfl := List.mem_singleton.1 he
      exact h
  | .split tag content, h => by
      obtain ⟨htag, hcontent⟩ := isInline_split h
      intro e he
      rw [events_split, List.mem_cons, List.mem_append, List.mem_singleton] at he
      rcases he with rfl | he | rfl
      · exact htag
      · exact inline_eventsOf content hcontent e he
      · exact isInlineEvent_toEnd htag

theorem inline_eventsOf : ∀ content : List Element, Element.allInline content = true →
    ∀ e ∈ eventsOf content, isInlineEvent e = true
  | [], _ => by
      intro e he
      cases he
  | element :: rest, h => by
      obtain ⟨helement, hrest⟩ := allInline_cons.1 h
      intro e he
      rw [eventsOf_cons, List.mem_append] at he
      rcases he with he | he
      · exact inline_events element helement e he
      · exact inline_eventsOf rest hrest e he

end

theorem allInline_append (front back : List Element) :
    Element.allInline (front ++ back) =
      (Element.allInline front && Element.allInline back) := by
  induction front with
  | nil => rfl
  | cons element rest ih =>
      rw [List.cons_append, Element.allInline, Element.allInline, ih, Bool.and_assoc]

@[simp] theorem runOf_nil : r.runOf [] = [] := rfl

/-- A run of inline elements ends where a block starts. -/
theorem itemContent_run {run : List Element} (h : Element.allInline run = true)
    {stream : List Event} (hstream : ∀ e ∈ stream.head?, isInlineEvent e = false) :
    r.itemContent (eventsOf run ++ stream) = r.runOf run ++ r.itemContent stream := by
  cases run with
  | nil => rw [runOf_nil]; rfl
  | cons element rest =>
      obtain ⟨e, tail, he, hinline⟩ := exists_inline_event (allInline_cons.1 h).1
      have hevents : eventsOf (element :: rest) = e :: (tail ++ eventsOf rest) := by
        rw [eventsOf_cons, he, List.cons_append]
      have htail : ∀ e' ∈ tail ++ eventsOf rest, isInlineEvent e' = true := by
        intro e' he'
        exact inline_eventsOf _ h e' (hevents ▸ List.mem_cons_of_mem e he')
      have hstop : stream.takeWhile isInlineEvent = [] ∧
          stream.dropWhile isInlineEvent = stream := by
        cases stream with
        | nil => exact ⟨rfl, rfl⟩
        | cons first more =>
            have hfirst := hstream first rfl
            exact ⟨List.takeWhile_cons_of_neg (by simp [hfirst]),
              List.dropWhile_cons_of_neg (by simp [hfirst])⟩
      rw [hevents, List.cons_append, itemContent_inline r hinline,
        List.takeWhile_append_of_pos htail, List.dropWhile_append_of_pos htail, hstop.1, hstop.2,
        List.append_nil, ← hevents, inlineRun_eq r h]

/-! ### Blocks -/

/-- The renderer takes the events of the element, and no others. -/
def Taken (element : Element) : Prop :=
  ∃ e rest, events element = e :: rest ∧ isInlineEvent e = false ∧
    ∀ more, r.one e (rest ++ more) = (r.blocksOf element, more)

/-- What the parser found to be HTML. -/
def IsHtmlBlock (element : Element) : Prop :=
  ∃ content, element = .split .htmlBlock content ∧ content.all Element.isHtml = true

/-- The events of HTML are passed over one by one. -/
theorem html_skipped {element : Element} (h : IsHtmlBlock element) :
    ∀ e ∈ events element, isInlineEvent e = false ∧ ∀ more, r.one e more = ([], more) := by
  obtain ⟨content, rfl, hcontent⟩ := h
  intro e he
  rw [events_split, List.mem_cons, List.mem_append, List.mem_singleton] at he
  rcases he with rfl | he | rfl
  · exact ⟨rfl, fun _ => rfl⟩
  · induction content with
    | nil => cases he
    | cons leaf rest ih =>
        rw [List.all_cons, Bool.and_eq_true] at hcontent
        rw [eventsOf_cons, List.mem_append] at he
        rcases he with he | he
        · cases leaf with
          | empty => cases hcontent.1
          | split tag content => cases hcontent.1
          | leaf a =>
              cases a with
              | html t =>
                  obtain rfl := List.mem_singleton.1 he
                  exact ⟨rfl, fun _ => rfl⟩
              | _ => cases hcontent.1
        · exact ih hcontent.2 he
  · exact ⟨rfl, fun _ => rfl⟩

theorem render_skipped {skipped : List Event}
    (h : ∀ e ∈ skipped, isInlineEvent e = false ∧ ∀ more, r.one e more = ([], more))
    (more : List Event) :
    r.render (skipped ++ more) = r.render more ∧
      r.itemContent (skipped ++ more) = r.itemContent more := by
  induction skipped with
  | nil => exact ⟨rfl, rfl⟩
  | cons e rest ih =>
      obtain ⟨hinline, hone⟩ := h e List.mem_cons_self
      have hrest := ih fun e he => h e (List.mem_cons_of_mem _ he)
      constructor
      · rw [List.cons_append, render_cons, hone, List.nil_append, hrest.1]
      · rw [List.cons_append, itemContent_block r hinline, hone, List.nil_append, hrest.2]

/-- Either way the blocks of the element stand in front of what follows. -/
theorem render_block {element : Element} (h : Taken r element ∨ IsHtmlBlock element)
    (more : List Event) :
    r.render (events element ++ more) = r.blocksOf element ++ r.render more ∧
      r.itemContent (events element ++ more) = r.blocksOf element ++ r.itemContent more := by
  rcases h with ⟨e, rest, he, hinline, hone⟩ | h
  · rw [he, List.cons_append, render_cons, itemContent_block r hinline, hone]
    exact ⟨rfl, rfl⟩
  · have hnone : r.blocksOf element = [] := by
      obtain ⟨content, rfl, -⟩ := h
      rfl
    rw [hnone]
    exact render_skipped r (html_skipped r h) more

theorem block_head {element : Element} (h : Taken r element ∨ IsHtmlBlock element)
    (more : List Event) : ∀ e ∈ (events element ++ more).head?, isInlineEvent e = false := by
  rcases h with ⟨e, rest, he, hinline, -⟩ | h
  · rw [he]
    rintro e' ⟨⟩
    exact hinline
  · have hskipped := html_skipped r h
    obtain ⟨content, rfl, -⟩ := h
    rintro e' ⟨⟩
    rfl

theorem allBlock_cons {element : Element} {rest : List Element} :
    Element.allBlock (element :: rest) = true ↔
      element.isBlock = true ∧ Element.allBlock rest = true := by
  rw [Element.allBlock, Bool.and_eq_true]

mutual

/-- A block takes the events of its element, whatever they are nested in. -/
theorem one_block : ∀ element : Element, element.isBlock = true →
    Taken r element ∨ IsHtmlBlock element
  | .empty, h => by cases h
  | .leaf a, h => by
      obtain rfl : a = .rule := of_decide_eq_true h
      exact .inl ⟨_, [], rfl, rfl, fun _ => rfl⟩
  | .split tag content, h => by
      have htaken (hinline : isInlineEvent (.start tag) = false)
          (hone : ∀ more, r.one (.start tag) (eventsOf content ++ .stop tag.toEnd :: more) =
            (r.blocksOf (.split tag content), more)) : Taken r (.split tag content) := by
        refine ⟨.start tag, eventsOf content ++ [.stop tag.toEnd], rfl, hinline, fun more => ?_⟩
        rw [List.append_assoc, List.singleton_append]
        exact hone more
      have hinside (closes : TagEnd → Bool) (hcloses : closes tag.toEnd = true)
          (more : List Event) :
          TreeEvents.inside closes 0 (eventsOf content ++ .stop tag.toEnd :: more) =
            (eventsOf content, more) :=
        TreeEvents.inside_eventsOf Tag.toEnd content hcloses more
      cases tag with
      | paragraph =>
          refine .inl (htaken rfl fun more => ?_)
          show ([(r.paragraph _).1], (r.paragraph _).2) = _
          rw [show Tag.toEnd .paragraph = .paragraph from rfl, paragraph_content r h]
          rfl
      | heading level =>
          refine .inl (htaken rfl fun more => ?_)
          show ([RenderedBlock.heading _ (r.collectInline _ _ _).1.intoLine],
            (r.collectInline _ _ _).2) = _
          rw [show Tag.toEnd (.heading level) = .heading level from rfl,
            collectInline_content r rfl _ h, lineOf_eq]
          rfl
      | blockQuote kind =>
          refine .inl (htaken rfl fun more => ?_)
          rw [one_blockQuote, hinside _ (by simp [Tag.toEnd]), render_blocks content h]
          rfl
      | footnoteDefinition label =>
          refine .inl (htaken rfl fun more => ?_)
          rw [one_footnote, hinside _ (by simp [Tag.toEnd]), render_blocks content h]
          rfl
      | list start =>
          refine .inl (htaken rfl fun more => ?_)
          rw [one_list, show Tag.toEnd (.list start) = .list start.isSome from rfl,
            listItems_items start.isSome start.isSome more content h]
          rfl
      | codeBlock kind =>
          refine .inl (htaken rfl fun more => ?_)
          show ([r.codeBlock kind (textUpTo _ _).1], (textUpTo _ _).2) = _
          rw [show Tag.toEnd (.codeBlock kind) = .codeBlock from rfl,
            textUpTo_content (by simp) h]
          rfl
      | metadataBlock kind =>
          refine .inl (htaken rfl fun more => ?_)
          show (metadata (textUpTo _ _).1, (textUpTo _ _).2) = _
          rw [show Tag.toEnd (.metadataBlock kind) = .metadataBlock kind from rfl,
            textUpTo_content rfl h]
          rfl
      | table alignments =>
          refine .inl (htaken rfl fun more => ?_)
          obtain ⟨t, ht, hblock⟩ := table_content r h more alignments
          show ([RenderedBlock.table (r.collectTable _ _ _).1.headers
            (r.collectTable _ _ _).1.rows _], (r.collectTable _ _ _).2) = _
          rw [show Tag.toEnd (.table alignments) = .table from rfl,
            collectTable_eq r _ (by omega), ht]
          exact Prod.ext (congrArg (fun b => [b]) hblock.symm) rfl
      | htmlBlock => exact .inr ⟨content, rfl, h⟩
      | _ => cases h

theorem render_blocks : ∀ content : List Element, Element.allBlock content = true →
    r.render (eventsOf content) = r.allBlocksOf content
  | [], _ => rfl
  | element :: rest, h => by
      obtain ⟨helement, hrest⟩ := allBlock_cons.1 h
      rw [eventsOf_cons, (render_block r (one_block element helement) _).1,
        render_blocks rest hrest, Renderer.allBlocksOf]

theorem listItems_items (ordered b : Bool) (more : List Event) :
    ∀ (content : List Element), Element.allItem content = true → ∀ index : Nat,
      r.listItems ordered index (eventsOf content ++ .stop (.list b) :: more) =
        (r.itemsOf ordered index content, more)
  | [], _, index => listItems_stop r ordered index b more
  | .empty :: _, h, _ => by cases h
  | .leaf _ :: _, h, _ => by cases h
  | .split tag parts :: rest, h, index => by
      cases tag with
      | item =>
          have hcontent : (Element.allPart parts && Element.allItem rest) = true := h
          rw [Bool.and_eq_true] at hcontent
          have hparts := itemContent_parts parts hcontent.1 [] rfl
          rw [eventsOf_nil, List.nil_append] at hparts
          rw [cons_append, split_append, listItems_item,
            show Tag.toEnd .item = .item from rfl, itemEvents_parts, hparts,
            listItems_items ordered b more rest hcontent.2]
          rfl
      | _ => cases h

theorem itemContent_parts : ∀ parts : List Element, Element.allPart parts = true →
    ∀ run : List Element, Element.allInline run = true →
      r.itemContent (eventsOf run ++
          eventsOf (parts.filter fun part => !(marker part).isSome)) = r.contentOf run parts
  | [], _, run, hrun => by
      rw [List.filter_nil, eventsOf_nil, itemContent_run r hrun (by simp), itemContent_nil,
        List.append_nil]
      rfl
  | part :: rest, h, run, hrun => by
      rw [Element.allPart, Bool.and_eq_true, Bool.or_eq_true] at h
      rw [Renderer.contentOf]
      by_cases hmarker : (marker part).isSome = true
      · rw [if_pos hmarker, List.filter_cons_of_neg (by simp [hmarker])]
        exact itemContent_parts rest h.2 run hrun
      · rw [if_neg hmarker, List.filter_cons_of_pos (by simp [hmarker]), eventsOf_cons]
        by_cases hinline : part.isInline = true
        · have hmore : Element.allInline (run ++ [part]) = true := by
            rw [allInline_append, hrun, Element.allInline, hinline]
            rfl
          rw [if_pos hinline, ← itemContent_parts rest h.2 (run ++ [part]) hmore, eventsOf_append,
            List.append_assoc, eventsOf_cons, eventsOf_nil, List.append_nil]
        · have hblock := one_block part (h.1.resolve_left hinline)
          have hrest := itemContent_parts rest h.2 [] rfl
          rw [eventsOf_nil, List.nil_append] at hrest
          rw [if_neg hinline, itemContent_run r hrun (block_head r hblock _),
            (render_block r hblock _).2, hrest, List.append_assoc]

end

/-- On the stream of a document the renderer makes the blocks that its tree stands for. Its bound
is no part of that: any other that is large enough gives the same. -/
theorem renders_tree {content : List Element} (h : Element.allBlock content = true) :
    r.render (eventsOf content) = r.allBlocksOf content ∧
      ∀ fuel, 2 * (eventsOf content).length ≤ fuel →
        r.renderWith fuel (eventsOf content) = r.allBlocksOf content := by
  have hrender := render_blocks r content h
  refine ⟨hrender, fun fuel hfuel => ?_⟩
  rw [renderWith_eq r hfuel, hrender]

/-- A renderer without styles and without colours for code. -/
def plainRenderer : Renderer where
  theme :=
    { heading := Vector.replicate 6 {}
      paragraph := {}
      bold := {}
      italic := {}
      strikethrough := {}
      codeInline := {}
      codeBlockBg := {}
      blockquoteBar := {}
      blockquoteText := {}
      link := {}
      horizontalRule := {}
      listMarker := {}
      tableHeader := {} }
  highlight _ _ _ := none

/-- `- [x] a`, and the heading `T`. -/
def taskAndHeading : List Element :=
  [.split (.list none) [.split .item [.leaf (.taskListMarker true), .leaf (.text ['a'])]],
    .split (.heading .h1) [.leaf (.text ['T'])]]

theorem renders_tree_sample :
    plainRenderer.render (eventsOf taskAndHeading) = plainRenderer.allBlocksOf taskAndHeading ∧
      ∀ fuel, 2 * (eventsOf taskAndHeading).length ≤ fuel →
        plainRenderer.renderWith fuel (eventsOf taskAndHeading) =
          plainRenderer.allBlocksOf taskAndHeading :=
  renders_tree plainRenderer (by decide)

end Markdown

end Yaldabaoth
