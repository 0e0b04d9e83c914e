import Yaldabaoth.Model.MarkdownTree

/-!
# `Yaldabaoth.Proofs.Markdown.Events`: the renderer without its bound

The functions of the renderer recurse on a number. A number of twice the
events that are left is enough for each (`fuel_enough`), whatever the
events are, so `render` goes on like the loop of the source
(`render_cons`, and one lemma for each kind of block).
-/

set_option autoImplicit false

namespace Yaldabaoth

namespace Markdown

variable (r : Renderer)

/-! ### Nothing is read twice -/

theorem collectInline_length (stop : TagEnd) (events : List Event) (s : InlineState) :
    (r.collectInline stop events s).2.length ≤ events.length := by
  induction events generalizing s with
  | nil => exact Nat.le_refl 0
  | cons e rest ih =>
      cases e with
      | start tag => exact Nat.le_succ_of_le (ih _)
      | leaf a => exact Nat.le_succ_of_le (ih _)
      | stop tag =>
          rw [Renderer.collectInline]
          split
          · exact Nat.le_succ _
          · exact Nat.le_succ_of_le (ih _)

theorem imageAlt_length (depth : Nat) (events : List Event) :
    (imageAlt depth events).2.length ≤ events.length := by
  induction events generalizing depth with
  | nil => exact Nat.le_refl 0
  | cons e rest ih =>
      rw [imageAlt.eq_def]
      dsimp only
      split
      all_goals try exact Nat.le_succ_of_le (ih _)
      split
      · exact Nat.le_succ _
      · exact Nat.le_succ_of_le (ih _)

theorem collectImage_length (url title : Text) (events : List Event) :
    (collectImage url title events).2.length ≤ events.length :=
  imageAlt_length 0 events

theorem textUpTo_length (closes : TagEnd → Bool) (events : List Event) :
    (textUpTo closes events).2.length ≤ events.length := by
  induction events with
  | nil => exact Nat.le_refl 0
  | cons e rest ih =>
      rw [textUpTo.eq_def]
      split
      · exact Nat.zero_le _
      · rename_i heq
        cases heq
        exact Nat.le_succ_of_le ih
      · rename_i heq
        cases heq
        split
        · exact Nat.le_succ _
        · exact Nat.le_succ_of_le ih
      · rename_i heq
        cases heq
        exact Nat.le_succ_of_le ih

theorem itemEvents_length (depth : Int) (events : List Event) :
    (itemEvents depth events).1.2.length + (itemEvents depth events).2.length ≤
      events.length := by
  induction events generalizing depth with
  | nil => exact Nat.le_refl 0
  | cons e rest ih =>
      have hkeep (d : Int) : ((itemEvents d rest).1.2.length + 1) +
          (itemEvents d rest).2.length ≤ rest.length + 1 := by
        have := ih d
        omega
      rw [itemEvents.eq_def]
      dsimp only
      split
      · split
        · simp
        · exact hkeep _
      · split
        · exact Nat.le_succ_of_le (ih _)
        · exact hkeep _
      · exact hkeep _
      · exact hkeep _

theorem collectTable_length (fuel : Nat) (t : TableRows) (events : List Event) :
    (r.collectTable fuel t events).2.length ≤ events.length := by
  induction fuel generalizing t events with
  | zero =>
      cases events <;> exact Nat.le_refl _
  | succ fuel ih =>
      cases events with
      | nil => exact Nat.le_refl 0
      | cons e rest =>
          rw [Renderer.collectTable.eq_def]
          dsimp only
          split
          · exact Nat.le_succ _
          · exact Nat.le_succ_of_le (ih _ _)
          · exact Nat.le_succ_of_le (ih _ _)
          · exact Nat.le_succ_of_le (ih _ _)
          · split
            · exact Nat.le_succ_of_le (ih _ _)
            · exact Nat.le_succ_of_le (ih _ _)
          · exact Nat.le_succ_of_le ((ih _ _).trans (collectInline_length r _ _ _))
          · exact Nat.le_succ_of_le (ih _ _)

theorem paragraph_length (events : List Event) :
    (r.paragraph events).2.length ≤ events.length := by
  have hinline := collectInline_length r .paragraph events (.multiline r.theme.paragraph)
  rw [Renderer.paragraph.eq_def]
  dsimp only
  split
  · rename_i url title rest
    have himage := collectImage_length url title rest
    split
    · rename_i heq
      rw [heq] at himage
      simp only [List.length_cons] at himage ⊢
      omega
    · exact hinline
  · exact hinline

theorem collectListItems_length (fuel : Nat) (ordered : Bool) (itemIndex : Nat)
    (events : List Event) :
    (r.collectListItems fuel ordered itemIndex events).2.length ≤ events.length := by
  induction fuel generalizing itemIndex events with
  | zero => cases events <;> exact Nat.le_refl _
  | succ fuel ih =>
      cases events with
      | nil => exact Nat.le_refl 0
      | cons e rest =>
          rw [Renderer.collectListItems.eq_def]
          dsimp only
          split
          · exact Nat.le_succ _
          · have hitem := itemEvents_length 0 rest
            have hrest := ih (itemIndex + 1) (itemEvents 0 rest).2
            simp only [List.length_cons]
            omega
          · exact Nat.le_succ_of_le (ih _ _)

theorem renderOne_length (fuel : Nat) (e : Event) (rest : List Event) :
    (r.renderOne fuel e rest).2.length ≤ rest.length := by
  cases fuel with
  | zero => exact Nat.le_refl _
  | succ fuel =>
      have hinside (closes : TagEnd → Bool) :
          (TreeEvents.inside closes 0 rest).2.length ≤ rest.length := by
        have := @TreeEvents.inside_length _ _ _ closes 0 rest
        omega
      rw [Renderer.renderOne.eq_def]
      dsimp only
      split
      · exact collectInline_length r _ _ _
      · exact paragraph_length r _
      · exact hinside _
      · exact collectListItems_length r _ _ _ _
      · exact textUpTo_length _ _
      · exact collectTable_length r _ _ _
      · exact Nat.le_refl _
      · exact textUpTo_length _ _
      · exact hinside _
      · rename_i url title
        exact collectImage_length url title _
      · exact Nat.le_refl _

/-! ### The bound is no bound -/

theorem collectTable_fuel (n m : Nat) (t : TableRows) (events : List Event)
    (hn : events.length ≤ n) (hm : events.length ≤ m) :
    r.collectTable n t events = r.collectTable m t events := by
  induction n generalizing m t events with
  | zero =>
      obtain rfl := List.length_eq_zero_iff.1 (Nat.le_zero.1 hn)
      cases m <;> rfl
  | succ n ih =>
      cases events with
      | nil => cases m <;> rfl
      | cons e rest =>
          obtain ⟨m, rfl⟩ : ∃ k, m = k + 1 := Nat.exists_eq_add_one.2 (by
            simp only [List.length_cons] at hm
            omega)
          have hn' : rest.length ≤ n := Nat.le_of_succ_le_succ hn
          have hm' : rest.length ≤ m := Nat.le_of_succ_le_succ hm
          rw [Renderer.collectTable.eq_def, Renderer.collectTable.eq_def]
          dsimp only
          split
          · rfl
          · exact ih _ _ _ hn' hm'
          · exact ih _ _ _ hn' hm'
          · exact ih _ _ _ hn' hm'
          · rw [ih _ _ _ hn' hm', ih _ _ _ hn' hm']
          · have hcell (s : InlineState) := collectInline_length r .tableCell rest s
            exact ih _ _ _ ((hcell _).trans hn') ((hcell _).trans hm')
          · exact ih _ _ _ hn' hm'

/-- With twice the events that are left, the functions do not run out. -/
theorem fuel_enough (n : Nat) :
    ∀ m : Nat,
      (∀ events, 2 * events.length ≤ n → 2 * events.length ≤ m →
        r.renderWith n events = r.renderWith m events) ∧
      (∀ e rest, 2 * rest.length + 1 ≤ n → 2 * rest.length + 1 ≤ m →
        r.renderOne n e rest = r.renderOne m e rest) ∧
      (∀ ordered index events, 2 * events.length ≤ n → 2 * events.length ≤ m →
        r.collectListItems n ordered index events = r.collectListItems m ordered index events) ∧
      (∀ events, 2 * events.length ≤ n → 2 * events.length ≤ m →
        r.renderItemContent n events = r.renderItemContent m events) := by
  induction n with
  | zero =>
      intro m
      have hnil (events : List Event) (h : 2 * events.length ≤ 0) : events = [] :=
        List.length_eq_zero_iff.1 (by omega)
      refine ⟨?_, ?_, ?_, ?_⟩
      · intro events hn _
        rw [hnil events hn]
        cases m <;> rfl
      · intro e rest hn
        omega
      · intro ordered index events hn _
        rw [hnil events hn]
        cases m <;> rfl
      · intro events hn _
        rw [hnil events hn]
        cases m <;> rfl
  | succ n ih =>
      intro m
      cases m with
      | zero =>
          have hnil (events : List Event) (h : 2 * events.length ≤ 0) : events = [] :=
            List.length_eq_zero_iff.1 (by omega)
          refine ⟨?_, ?_, ?_, ?_⟩
          · intro events _ hm
            rw [hnil events hm]
            rfl
          · intro e rest _ hm
            omega
          · intro ordered index events _ hm
            rw [hnil events hm]
            rfl
          · intro events _ hm
            rw [hnil events hm]
            rfl
      | succ m =>
          obtain ⟨hrender, hone, hitems, hcontent⟩ := ih m
          refine ⟨?_, ?_, ?_, ?_⟩
          · intro events hn hm
            cases events with
            | nil => rfl
            | cons e rest =>
                simp only [List.length_cons] at hn hm
                have hrest := renderOne_length r m e rest
                rw [Renderer.renderWith, Renderer.renderWith, hone e rest (by omega) (by omega)]
                show _ ++ r.renderWith n (r.renderOne m e rest).2 =
                  _ ++ r.renderWith m (r.renderOne m e rest).2
                rw [hrender _ (by omega) (by omega)]
          · intro e rest hn hm
            have hinside (closes : TagEnd → Bool) :
                (TreeEvents.inside closes 0 rest).1.length ≤ rest.length := by
              have := @TreeEvents.inside_length _ _ _ closes 0 rest
              omega
            rw [Renderer.renderOne.eq_def, Renderer.renderOne.eq_def]
            dsimp only
            split
            · rfl
            · rfl
            · rename_i kind
              have := hinside fun tag => decide (tag = .blockQuote kind)
              rw [hrender _ (by omega) (by omega)]
            · rw [hitems _ _ _ (by omega) (by omega)]
            · rfl
            · rw [collectTable_fuel r n m _ _ (by omega) (by omega)]
            · rfl
            · rfl
            · have := hinside fun tag => decide (tag = .footnoteDefinition)
              rw [hrender _ (by omega) (by omega)]
            · rfl
            · rfl
          · intro ordered index events hn hm
            cases events with
            | nil => rfl
            | cons e rest =>
                simp only [List.length_cons] at hn hm
                have hitem := itemEvents_length 0 rest
                rw [Renderer.collectListItems.eq_def, Renderer.collectListItems.eq_def]
                dsimp only
                split
                · rfl
                · rw [hcontent (itemEvents 0 rest).1.2 (by omega) (by omega),
                    hitems _ _ (itemEvents 0 rest).2 (by omega) (by omega)]
                · exact hitems _ _ _ (by omega) (by omega)
          · intro events hn hm
            cases events with
            | nil => rfl
            | cons e rest =>
                simp only [List.length_cons] at hn hm
                have hdrop := (List.dropWhile_suffix (l := rest) isInlineEvent).length_le
                have hrest := renderOne_length r m e rest
                rw [Renderer.renderItemContent, Renderer.renderItemContent]
                split
                · rw [hcontent _ (by omega) (by omega)]
                · rw [hone e rest (by omega) (by omega)]
                  show _ ++ r.renderItemContent n (r.renderOne m e rest).2 =
                    _ ++ r.renderItemContent m (r.renderOne m e rest).2
                  rw [hcontent _ (by omega) (by omega)]

/-! ### The loops of the source -/

namespace Renderer

/-- `render_one`. -/
def one (e : Event) (rest : List Event) : List RenderedBlock × List Event :=
  r.renderOne (2 * rest.length + 1) e rest

/-- `collect_list_items`. -/
def listItems (ordered : Bool) (index : Nat) (events : List Event) : List ListItem × List Event :=
  r.collectListItems (2 * events.length) ordered index events

/-- `render_item_content`. -/
def itemContent (events : List Event) : List RenderedBlock :=
  r.renderItemContent (2 * events.length) events

end Renderer

theorem renderWith_eq {n : Nat} {events : List Event} (h : 2 * events.length ≤ n) :
    r.renderWith n events = r.render events :=
  (fuel_enough r n _).1 events h (Nat.le_refl _)

theorem renderItemContent_eq {n : Nat} {events : List Event} (h : 2 * events.length ≤ n) :
    r.renderItemContent n events = r.itemContent events :=
  (fuel_enough r n _).2.2.2 events h (Nat.le_refl _)

theorem collectListItems_eq {n : Nat} (ordered : Bool) (index : Nat) {events : List Event}
    (h : 2 * events.length ≤ n) :
    r.collectListItems n ordered index events = r.listItems ordered index events :=
  (fuel_enough r n _).2.2.1 ordered index events h (Nat.le_refl _)

@[simp] theorem render_nil : r.render [] = [] := rfl

theorem render_cons (e : Event) (rest : List Event) :
    r.render (e :: rest) = (r.one e rest).1 ++ r.render (r.one e rest).2 := by
  have hrest := renderOne_length r (2 * rest.length + 1) e rest
  show (r.one e rest).1 ++ r.renderWith (2 * rest.length + 1) (r.one e rest).2 = _
  rw [renderWith_eq r (by rw [Renderer.one]; omega)]

@[simp] theorem itemContent_nil : r.itemContent [] = [] := rfl

theorem itemContent_inline {e : Event} (he : isInlineEvent e = true) (rest : List Event) :
    r.itemContent (e :: rest) = r.inlineRun (e :: rest.takeWhile isInlineEvent) ++
      r.itemContent (rest.dropWhile isInlineEvent) := by
  have hdrop := (List.dropWhile_suffix (l := rest) isInlineEvent).length_le
  show r.renderItemContent (2 * rest.length + 1 + 1) (e :: rest) = _
  rw [Renderer.renderItemContent, if_pos he]
  show _ ++ r.renderItemContent (2 * rest.length + 1) (rest.dropWhile isInlineEvent) = _
  rw [renderItemContent_eq r (by omega)]

theorem itemContent_block {e : Event} (he : isInlineEvent e = false) (rest : List Event) :
    r.itemContent (e :: rest) = (r.one e rest).1 ++ r.itemContent (r.one e rest).2 := by
  have hrest := renderOne_length r (2 * rest.length + 1) e rest
  show r.renderItemContent (2 * rest.length + 1 + 1) (e :: rest) = _
  rw [Renderer.renderItemContent, if_neg (by rw [he]; decide)]
  show (r.one e rest).1 ++ r.renderItemContent (2 * rest.length + 1) (r.one e rest).2 = _
  rw [renderItemContent_eq r (by rw [Renderer.one]; omega)]

theorem listItems_item (ordered : Bool) (index : Nat) (rest : List Event) :
    r.listItems ordered index (.start .item :: rest) =
      (.mk (itemMarker ordered index) (itemEvents 0 rest).1.1
          (r.itemContent (itemEvents 0 rest).1.2) ::
        (r.listItems ordered (index + 1) (itemEvents 0 rest).2).1,
        (r.listItems ordered (index + 1) (itemEvents 0 rest).2).2) := by
  have hitem := itemEvents_length 0 rest
  show (ListItem.mk (itemMarker ordered index) (itemEvents 0 rest).1.1
      (r.renderItemContent (2 * rest.length + 1) (itemEvents 0 rest).1.2) ::
    (r.collectListItems (2 * rest.length + 1) ordered (index + 1) (itemEvents 0 rest).2).1,
    (r.collectListItems (2 * rest.length + 1) ordered (index + 1) (itemEvents 0 rest).2).2) = _
  rw [renderItemContent_eq r (by omega), collectListItems_eq r _ _ (by omega)]

theorem listItems_stop (ordered : Bool) (index : Nat) (b : Bool) (rest : List Event) :
    r.listItems ordered index (.stop (.list b) :: rest) = ([], rest) := rfl

theorem one_blockQuote (kind : Option BlockQuoteKind) (rest : List Event) :
    r.one (.start (.blockQuote kind)) rest =
      ([.blockQuote (r.render (TreeEvents.inside (fun tag => tag = .blockQuote kind) 0 rest).1)],
        (TreeEvents.inside (fun tag => tag = .blockQuote kind) 0 rest).2) := by
  have hinside := @TreeEvents.inside_length Tag _ Leaf (fun tag => decide (tag = .blockQuote kind)) 0
    rest
  rw [← renderWith_eq r (n := 2 * rest.length) (by omega)]
  rfl

theorem one_footnote (label : Text) (rest : List Event) :
    r.one (.start (.footnoteDefinition label)) rest =
      ([.footnote label
          (r.render (TreeEvents.inside (fun tag => tag = .footnoteDefinition) 0 rest).1)],
        (TreeEvents.inside (fun tag => tag = .footnoteDefinition) 0 rest).2) := by
  have hinside := @TreeEvents.inside_length Tag _ Leaf
    (fun tag => decide (tag = .footnoteDefinition)) 0 rest
  rw [← renderWith_eq r (n := 2 * rest.length) (by omega)]
  rfl

theorem one_list (start : Option Nat) (rest : List Event) :
    r.one (.start (.list start)) rest =
      ([.list start.isSome start (r.listItems start.isSome (start.getD 1) rest).1],
        (r.listItems start.isSome (start.getD 1) rest).2) := rfl

end Markdown

end Yaldabaoth
