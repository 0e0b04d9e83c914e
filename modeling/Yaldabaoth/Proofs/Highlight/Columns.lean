import Yaldabaoth.Model.RenderedLine
import Yaldabaoth.Proofs.Highlight.Lines

/-!
# `Yaldabaoth.Proofs.Highlight.Columns`: source columns of shown characters

The parts of a line say in which column each shown character stands
(`sourceCols`). The program looks for it instead, from the column behind the
last one on. What it finds is never too far (`stripLoop_ascends`), but too
early where the text hidden in between holds the same character
(`columns_of_shown`).
-/

set_option autoImplicit false

namespace Yaldabaoth

namespace MdHighlight

/-! ### The columns -/

/-- The columns of what parts show, which begin at `col`. -/
def sourceColsFrom : Nat → List Part → List Nat
  | _, [] => []
  | col, part :: parts =>
      List.range' (col + part.opens.length) part.body.length ++
        sourceColsFrom (col + part.raw.length) parts

/-- The parts of a line; a fence shows nothing. -/
def shownParts (line : List Char) : List Part :=
  if opensOrClosesFence line then [] else lineParts line

def sourceCols (line : List Char) : List Nat := sourceColsFrom 0 (shownParts line)

/-- A search from the hidden text on passes it by. -/
def Clear (hidden : List Char) (shown : Char) : Prop :=
  shown ∉ hidden ∧ ¬ (shown = '\u2022' ∧ isListMarker hidden.head? = true)

/-- What is hidden between two shown texts is passed by. -/
def Unmistaken : List Char → List Part → Prop
  | _, [] => True
  | hidden, part :: parts =>
      match part.shown.head? with
      | none => Unmistaken (hidden ++ part.opens ++ part.closes) parts
      | some c => Clear (hidden ++ part.opens) c ∧ Unmistaken part.closes parts

/-! ### One search -/

theorem stripLoop_ne_nil (raw text : List Char) (ri : Nat) : stripLoop raw text ri ≠ [] := by
  cases text with
  | nil => simp [stripLoop]
  | cons sc text =>
      rw [stripLoop]
      split <;> simp

theorem head_drop {raw before after : List Char} {ri : Nat} (h : raw.drop ri = before ++ after) :
    raw[ri]? = (before ++ after).head? := by
  rw [← h, List.head?_drop]

theorem drop_further {raw before after : List Char} {ri : Nat}
    (h : raw.drop ri = before ++ after) : raw.drop (ri + before.length) = after := by
  rw [← List.drop_drop, h, List.drop_left]

theorem drop_one {raw after : List Char} {c : Char} {ri : Nat} (h : raw.drop ri = c :: after) :
    raw.drop (ri + 1) = after := by
  rw [← List.drop_drop, h]
  rfl

theorem lt_of_drop {raw before after : List Char} {c : Char} {ri : Nat}
    (h : raw.drop ri = before ++ c :: after) : ri + before.length < raw.length := by
  have hlength := congrArg List.length h
  simp only [List.length_drop, List.length_append, List.length_cons] at hlength
  omega

/-- Where the hidden text is passed by, the character is found. -/
theorem stripLoop_clear {raw hidden after : List Char} {c : Char} {ri : Nat}
    (hraw : raw.drop ri = hidden ++ c :: after) (hclear : Clear hidden c) (text : List Char) :
    stripLoop raw (c :: text) ri =
      (ri + hidden.length) :: stripLoop raw text (ri + hidden.length + 1) := by
  have hlt := lt_of_drop hraw
  have hnoBullet : ¬ (c = '\u2022' ∧ isListMarker raw[ri]? = true) := by
    intro hbullet
    rw [head_drop hraw] at hbullet
    cases hidden with
    | nil =>
        rw [hbullet.1] at hbullet
        exact absurd hbullet.2 (by simp [isListMarker])
    | cons h hidden => exact hclear.2 hbullet
  have hfound : ((raw.drop ri).takeWhile fun d => d ≠ c) = hidden := by
    rw [hraw, List.takeWhile_append_of_pos]
    · simp
    · intro d hd
      simp only [ne_eq, decide_not, Bool.not_eq_eq_eq_not, Bool.not_true, decide_eq_false_iff_not]
      intro heq
      exact hclear.1 (heq ▸ hd)
  rw [stripLoop, if_neg hnoBullet, hfound]
  dsimp only
  rw [Nat.min_eq_left (Nat.le_of_lt hlt), Nat.min_eq_left hlt]

/-- Else an earlier one is. -/
theorem stripLoop_mistaken {raw hidden after : List Char} {c : Char} {ri : Nat}
    (hraw : raw.drop ri = hidden ++ c :: after) (hmistaken : ¬ Clear hidden c)
    (text : List Char) :
    ∃ col next, stripLoop raw (c :: text) ri = col :: stripLoop raw text next ∧
      col < ri + hidden.length := by
  have hlt := lt_of_drop hraw
  rw [stripLoop]
  by_cases hbullet : c = '\u2022' ∧ isListMarker raw[ri]? = true
  · rw [if_pos hbullet]
    refine ⟨_, _, rfl, ?_⟩
    cases hidden with
    | nil =>
        rw [head_drop hraw, hbullet.1] at hbullet
        exact absurd hbullet.2 (by simp [isListMarker])
    | cons h hidden => simp
  · rw [if_neg hbullet]
    refine ⟨_, _, rfl, ?_⟩
    -- the hidden text holds the character
    have hin : c ∈ hidden := by
      by_contra hout
      apply hmistaken
      refine ⟨hout, ?_⟩
      intro hhead
      apply hbullet
      rw [head_drop hraw]
      cases hidden with
      | nil => exact absurd hhead.2 (by decide)
      | cons h hidden => exact hhead
    obtain ⟨front, back, hsplit⟩ := List.append_of_mem hin
    have hshort : ((raw.drop ri).takeWhile fun d => d ≠ c).length ≤ front.length := by
      rw [hraw, hsplit, List.append_assoc, List.takeWhile_append]
      split
      · simp
      · exact (List.takeWhile_sublist _).length_le
    have hlength := congrArg List.length hsplit
    simp only [List.length_append, List.length_cons] at hlength
    omega

/-- A text that stands where the search is. -/
theorem stripLoop_verbatim {raw before after : List Char} {ri : Nat}
    (hraw : raw.drop ri = before ++ after) (text : List Char) :
    stripLoop raw (before ++ text) ri =
      List.range' ri before.length ++ stripLoop raw text (ri + before.length) := by
  induction before generalizing ri with
  | nil => rfl
  | cons c before ih =>
      have hclear : Clear [] c := by
        constructor
        · simp
        · intro hhead
          exact absurd hhead.2 (by decide)
      have hnext : raw.drop (ri + 1) = before ++ after := drop_one hraw
      have hfirst : raw.drop ri = [] ++ c :: (before ++ after) := hraw
      rw [List.cons_append, stripLoop_clear hfirst hclear, List.length_nil, Nat.add_zero, ih hnext,
        List.length_cons, List.range'_succ]
      simp [Nat.add_comm, Nat.add_left_comm]

/-! ### Parts that are shown as they are -/

/-- The search finds the columns if and only if nothing hidden misleads it. -/
theorem stripLoop_parts {raw : List Char} (parts : List Part)
    (hplain : ∀ part ∈ parts, part.shown = part.body) {hidden : List Char} {ri : Nat}
    (hraw : raw.drop ri = hidden ++ parts.flatMap Part.raw) :
    (stripLoop raw (parts.flatMap Part.shown) ri).dropLast =
        sourceColsFrom (ri + hidden.length) parts ↔ Unmistaken hidden parts := by
  induction parts generalizing hidden ri with
  | nil => simp [stripLoop, sourceColsFrom, Unmistaken]
  | cons part parts ih =>
      obtain ⟨opens, body, closes, shown⟩ := part
      have hshown : shown = body := hplain _ List.mem_cons_self
      have hrest : ∀ part ∈ parts, part.shown = part.body := by
        intro part hpart
        exact hplain part (List.mem_cons_of_mem _ hpart)
      subst hshown
      rw [List.flatMap_cons, Part.raw] at hraw
      rw [List.flatMap_cons, sourceColsFrom, Unmistaken, Part.raw]
      dsimp only at hraw ⊢
      cases shown with
      | nil =>
          have hnext : raw.drop ri = (hidden ++ opens ++ closes) ++ parts.flatMap Part.raw := by
            rw [hraw]
            simp
          have hall := ih hrest hnext
          simp only [List.length_append, List.length_nil, List.nil_append, List.append_nil,
            List.range'_zero, List.head?_nil, Nat.add_assoc] at hall ⊢
          exact hall
      | cons c cs =>
          have hfirst : raw.drop ri =
              (hidden ++ opens) ++ c :: (cs ++ (closes ++ parts.flatMap Part.raw)) := by
            rw [hraw]
            simp
          rw [List.head?_cons]
          dsimp only
          by_cases hclear : Clear (hidden ++ opens) c
          · -- the first character is found, and the others stand behind it
            have hbehind := drop_one (drop_further hfirst)
            have hcloses := drop_further hbehind
            have hall := ih hrest hcloses
            rw [List.cons_append, stripLoop_clear hfirst hclear]
            have hcs := stripLoop_verbatim hbehind (parts.flatMap Part.shown)
            rw [hcs, List.dropLast_cons_of_ne_nil (by simp [stripLoop_ne_nil]),
              List.dropLast_append_of_ne_nil (stripLoop_ne_nil _ _ _)]
            rw [List.length_cons, List.range'_succ, List.cons_append]
            have hcols : ri + hidden.length + (opens ++ c :: cs ++ closes).length =
                ri + (hidden ++ opens).length + 1 + cs.length + closes.length := by
              simp only [List.length_append, List.length_cons]
              omega
            have hstart : ri + hidden.length + opens.length = ri + (hidden ++ opens).length := by
              rw [List.length_append, Nat.add_assoc]
            rw [hcols, hstart, List.cons.injEq, List.append_cancel_left_eq, hall]
            simp [hclear]
          · -- the first character is found too early
            obtain ⟨col, next, hloop, hearly⟩ := stripLoop_mistaken hfirst hclear
              (cs ++ parts.flatMap Part.shown)
            rw [List.cons_append, hloop, List.length_cons, List.range'_succ]
            constructor
            · intro heq
              have hhead := congrArg List.head? heq
              rw [List.dropLast_cons_of_ne_nil (stripLoop_ne_nil _ _ _)] at hhead
              simp only [List.head?_cons, List.cons_append, Option.some.injEq] at hhead
              rw [List.length_append] at hearly
              omega
            · intro hboth
              exact absurd hboth.1 hclear

/-! ### The columns ascend -/

theorem sublist_behind {c : Char} {text raw : List Char} (h : (c :: text).Sublist raw) :
    ∃ front behind, raw = front ++ c :: behind ∧ c ∉ front ∧ text.Sublist behind := by
  induction raw with
  | nil => cases h
  | cons d raw ih =>
      by_cases hd : c = d
      · subst hd
        exact ⟨[], raw, rfl, by simp, List.cons_sublist_cons.1 h⟩
      · have hlater : (c :: text).Sublist raw := by
          cases h with
          | cons _ hsub => exact hsub
          | cons_cons _ _ => exact absurd rfl hd
        obtain ⟨front, behind, hraw, hfront, hsub⟩ := ih hlater
        refine ⟨d :: front, behind, by rw [hraw]; rfl, ?_, hsub⟩
        simp [hd, hfront]

/-- The search for a text that is left in the line goes forward, and to the
last character. -/
theorem stripLoop_ascends {raw : List Char} (text : List Char) {ri : Nat} (hri : ri ≤ raw.length)
    (hsub : text.Sublist (raw.drop ri)) :
    (stripLoop raw text ri).Pairwise (· < ·) ∧ ∀ col ∈ stripLoop raw text ri, ri ≤ col := by
  induction text generalizing ri with
  | nil =>
      rw [stripLoop, Nat.min_eq_left hri]
      simp
  | cons c text ih =>
      have hstep : ∀ col next, ri ≤ col → next = col + 1 → next ≤ raw.length →
          text.Sublist (raw.drop next) →
            (col :: stripLoop raw text next).Pairwise (· < ·) ∧
              ∀ found ∈ col :: stripLoop raw text next, ri ≤ found := by
        intro col next hcol hnext hlt hrest
        obtain ⟨hpairs, hbelow⟩ := ih hlt hrest
        constructor
        · rw [List.pairwise_cons]
          refine ⟨?_, hpairs⟩
          intro found hfound
          have := hbelow found hfound
          omega
        · intro found hfound
          rcases List.mem_cons.1 hfound with rfl | hlater
          · exact hcol
          · have := hbelow found hlater
            omega
      obtain ⟨front, behind, hraw, hfront, hrest⟩ := sublist_behind hsub
      have hlt := lt_of_drop hraw
      by_cases hclear : Clear front c
      · rw [stripLoop_clear hraw hclear]
        apply hstep _ _ (Nat.le_add_right ri front.length) rfl hlt
        rw [drop_one (drop_further hraw)]
        exact hrest
      · -- a bullet is taken for the marker the search stands at
        have hbullet : c = '\u2022' ∧ isListMarker raw[ri]? = true := by
          by_contra hno
          apply hclear
          refine ⟨hfront, ?_⟩
          intro hhead
          apply hno
          rw [head_drop hraw]
          cases front with
          | nil => exact absurd hhead.2 (by decide)
          | cons d front => exact hhead
        rw [stripLoop, if_pos hbullet]
        apply hstep _ _ (Nat.le_refl ri) rfl (by omega)
        cases front with
        | nil =>
            rw [head_drop hraw, hbullet.1] at hbullet
            exact absurd hbullet.2 (by simp [isListMarker])
        | cons d front =>
            rw [drop_one hraw]
            exact hrest.trans ((List.sublist_cons_self c behind).trans
              (List.sublist_append_right front _))

/-! ### Lines -/

/-- The parts of a line are shown as they are, but for a list marker, before
which there is white space only. -/
theorem lineParts_shape (line : List Char) :
    (∀ part ∈ lineParts line, part.shown = part.body) ∨
    ∃ ws marker parts, lineParts line =
        .verbatim ws :: ⟨[], [marker, ' '], [], ['\u2022', ' ']⟩ :: parts ∧
      isListMarker (some marker) = true ∧ ∀ part ∈ parts, part.shown = part.body := by
  have hinlines : ∀ spans : List Inline, ∀ part ∈ spans.map Part.ofInline,
      part.shown = part.body := by
    intro spans part hpart
    obtain ⟨span, -, rfl⟩ := List.mem_map.1 hpart
    rfl
  rw [lineParts]
  cases hheading : headingSplit line with
  | some cut =>
      left
      simp
  | none =>
      dsimp only
      split
      · left
        simp [Part.verbatim]
      · split
        · left
          intro part hpart
          simp only [List.mem_cons] at hpart
          rcases hpart with rfl | rfl | hspan
          · rfl
          · rfl
          · exact hinlines _ part hspan
        · cases hmarker : markerSplit (trimStart line) with
          | some cut =>
              obtain ⟨marker, item⟩ := cut
              obtain ⟨-, hkind⟩ := markerSplit_eq hmarker
              rcases hkind with ⟨c, hc, rfl⟩ | ⟨d, rest, hd, rfl⟩
              · right
                refine ⟨line.takeWhile isWhitespace, c, (inlines item).map .ofInline, ?_, ?_,
                  hinlines (inlines item)⟩
                · rcases hc with rfl | rfl | rfl <;> rfl
                · rcases hc with rfl | rfl | rfl <;> rfl
              · left
                intro part hpart
                simp only [List.mem_cons] at hpart
                rcases hpart with rfl | rfl | hspan
                · rfl
                · simp [markerPart, hd]
                · exact hinlines _ part hspan
          | none =>
              left
              intro part hpart
              rcases List.mem_cons.1 hpart with rfl | hspan
              · rfl
              · exact hinlines _ part hspan

theorem clear_nil (c : Char) : Clear [] c := by
  constructor
  · simp
  · intro hhead
    exact absurd hhead.2 (by decide)

/-- A text shown as it is does not mislead the search. -/
theorem unmistaken_verbatim (text : List Char) (parts : List Part) :
    Unmistaken [] (.verbatim text :: parts) ↔ Unmistaken [] parts := by
  rw [Unmistaken, Part.verbatim]
  cases text with
  | nil => simp
  | cons c text => simp [clear_nil]

theorem parts_sublist {parts : List Part} (hplain : ∀ part ∈ parts, part.shown = part.body) :
    (parts.flatMap Part.shown).Sublist (parts.flatMap Part.raw) := by
  induction parts with
  | nil => exact List.Sublist.refl _
  | cons part parts ih =>
      rw [List.flatMap_cons, List.flatMap_cons]
      apply List.Sublist.append
      · rw [hplain part List.mem_cons_self, Part.raw]
        exact (List.sublist_append_right _ _).trans (List.sublist_append_left _ _)
      · apply ih
        intro part hpart
        exact hplain part (List.mem_cons_of_mem _ hpart)

theorem range'_two (n : Nat) : List.range' 0 (n + 2) = List.range' 0 n ++ [n, n + 1] := by
  rw [List.range'_concat, List.range'_concat]
  simp

/-- A bullet is found at its marker. -/
theorem stripLoop_bullet {raw ws after : List Char} {marker : Char}
    (hraw : raw = ws ++ marker :: ' ' :: after) (hmarker : isListMarker (some marker) = true)
    (text : List Char) :
    stripLoop raw (ws ++ '\u2022' :: ' ' :: text) 0 =
      List.range' 0 (ws.length + 2) ++ stripLoop raw text (ws.length + 2) := by
  have hstart : raw.drop 0 = ws ++ marker :: ' ' :: after := hraw
  have hat : raw.drop ws.length = [] ++ marker :: ' ' :: after := by
    rw [hraw, List.drop_left]
    rfl
  have hspace : raw.drop (ws.length + 1) = [' '] ++ after := drop_one hat
  have hbullet : stripLoop raw ('\u2022' :: ' ' :: text) ws.length =
      ws.length :: stripLoop raw (' ' :: text) (ws.length + 1) := by
    rw [stripLoop, if_pos]
    refine ⟨rfl, ?_⟩
    rw [head_drop hat]
    exact hmarker
  rw [stripLoop_verbatim hstart, Nat.zero_add, hbullet]
  have hbehind := stripLoop_verbatim hspace text
  rw [List.singleton_append] at hbehind
  rw [hbehind, range'_two]
  simp

/-- What the search in a line comes to. -/
theorem line_columns (line : List Char) :
    ((strippedToRawCols line ((lineParts line).flatMap Part.shown)).dropLast =
        sourceColsFrom 0 (lineParts line) ↔ Unmistaken [] (lineParts line)) ∧
      (strippedToRawCols line ((lineParts line).flatMap Part.shown)).Pairwise (· < ·) := by
  have hraw := lineParts_raw line
  rw [strippedToRawCols]
  rcases lineParts_shape line with hplain | ⟨ws, marker, parts, hparts, hmarker, hplain⟩
  · have hall : line.drop 0 = [] ++ (lineParts line).flatMap Part.raw := hraw.symm
    constructor
    · exact stripLoop_parts (lineParts line) hplain hall
    · apply (stripLoop_ascends _ (Nat.zero_le _) _).1
      rw [hall]
      exact parts_sublist hplain
  · rw [hparts] at hraw ⊢
    simp only [List.flatMap_cons, Part.raw, Part.verbatim, List.nil_append, List.append_nil,
      List.cons_append] at hraw
    have hafter : line.drop (ws.length + 2) = [] ++ parts.flatMap Part.raw := by
      rw [← hraw, ← List.drop_drop, List.drop_left]
      rfl
    have hlength : ws.length + 2 ≤ line.length := by
      rw [← hraw]
      simp
    have hshown : (Part.verbatim ws :: ⟨[], [marker, ' '], [], ['\u2022', ' ']⟩ :: parts).flatMap
        Part.shown = ws ++ '\u2022' :: ' ' :: parts.flatMap Part.shown := by
      simp [Part.verbatim]
    have hcols : sourceColsFrom 0
        (Part.verbatim ws :: ⟨[], [marker, ' '], [], ['\u2022', ' ']⟩ :: parts) =
        List.range' 0 (ws.length + 2) ++ sourceColsFrom (ws.length + 2) parts := by
      rw [range'_two]
      simp [sourceColsFrom, Part.verbatim, Part.raw, List.range'_succ]
    have hclear : Unmistaken []
        (Part.verbatim ws :: ⟨[], [marker, ' '], [], ['\u2022', ' ']⟩ :: parts) ↔
        Unmistaken [] parts := by
      rw [unmistaken_verbatim, Unmistaken]
      simp [clear_nil]
    rw [hshown, hcols, hclear, stripLoop_bullet hraw.symm hmarker]
    constructor
    · rw [List.dropLast_append_of_ne_nil (stripLoop_ne_nil _ _ _), List.append_cancel_left_eq]
      exact stripLoop_parts parts hplain hafter
    · have hrest := stripLoop_ascends (parts.flatMap Part.shown) hlength
        (by rw [hafter]; exact parts_sublist hplain)
      rw [List.pairwise_append]
      refine ⟨List.pairwise_lt_range', hrest.1, ?_⟩
      intro col hcol later hlater
      have := hrest.2 later hlater
      have := List.mem_range'_1.1 hcol
      omega

/-! ### The columns of a rendering -/

/-- Each shown character is found where it stands, and the columns ascend to
the one at the end. -/
structure HitsSource (line shown : List Char) : Prop where
  columns : ∀ i < shown.length, (strippedToRawCols line shown)[i]? = (sourceCols line)[i]?
  ascends : (strippedToRawCols line shown).Pairwise (· < ·)

theorem stripLoop_length (raw text : List Char) (ri : Nat) :
    (stripLoop raw text ri).length = text.length + 1 := by
  induction text generalizing ri with
  | nil => rfl
  | cons c text ih =>
      rw [stripLoop]
      split
      · rw [List.length_cons, ih, List.length_cons]
      · dsimp only
        rw [List.length_cons, ih, List.length_cons]

theorem sourceColsFrom_length {parts : List Part}
    (hlength : ∀ part ∈ parts, part.shown.length = part.body.length) (col : Nat) :
    (sourceColsFrom col parts).length = (parts.flatMap Part.shown).length := by
  induction parts generalizing col with
  | nil => rfl
  | cons part parts ih =>
      rw [sourceColsFrom, List.length_append, List.length_range', List.flatMap_cons,
        List.length_append, hlength part List.mem_cons_self, ih]
      intro part hpart
      exact hlength part (List.mem_cons_of_mem _ hpart)

theorem lineParts_length (line : List Char) :
    ∀ part ∈ lineParts line, part.shown.length = part.body.length := by
  intro part hpart
  rcases lineParts_shape line with hplain | ⟨ws, marker, parts, hparts, -, hplain⟩
  · rw [hplain part hpart]
  · rw [hparts] at hpart
    simp only [List.mem_cons] at hpart
    rcases hpart with rfl | rfl | hpart
    · rfl
    · rfl
    · rw [hplain part hpart]

/-- The text that a line shows outside fences. -/
def shownText (line : List Char) : List Char := (shownParts line).flatMap Part.shown

theorem shown_columns (line : List Char) :
    ((strippedToRawCols line (shownText line)).dropLast = sourceCols line ↔
        Unmistaken [] (shownParts line)) ∧
      (strippedToRawCols line (shownText line)).Pairwise (· < ·) := by
  rw [shownText, sourceCols, shownParts]
  split
  · constructor
    · exact ⟨fun _ => trivial, fun _ => rfl⟩
    · exact List.pairwise_singleton _ _
  · exact line_columns line

theorem sourceCols_length (line : List Char) :
    (sourceCols line).length = (shownText line).length := by
  rw [sourceCols, shownText, shownParts]
  split
  · rfl
  · exact sourceColsFrom_length (lineParts_length line) 0

theorem hitsSource_iff (line : List Char) :
    HitsSource line (shownText line) ↔ Unmistaken [] (shownParts line) := by
  obtain ⟨hcolumns, hascends⟩ := shown_columns line
  rw [← hcolumns]
  have hlength : (strippedToRawCols line (shownText line)).length = (shownText line).length + 1 :=
    stripLoop_length _ _ _
  constructor
  · intro hhits
    apply List.ext_getElem?
    intro i
    rw [List.getElem?_dropLast, hlength, Nat.add_sub_cancel]
    split
    · next hi => exact hhits.columns i hi
    · next hi => rw [List.getElem?_eq_none (by rw [sourceCols_length]; omega)]
  · intro heq
    refine ⟨?_, hascends⟩
    intro i hi
    rw [← heq, List.getElem?_dropLast, hlength, Nat.add_sub_cancel, if_pos hi]

/-- The stripped text of a line outside fences. -/
theorem highlightOneLine_shown (theme : Theme) (hl : Option Highlighter) (line : List Char)
    {fence : FenceState} (hfence : fence.inFence = false) :
    ∃ segs next, highlightOneLine theme true hl line fence = some (segs, next) ∧
      textOf segs = shownText line := by
  obtain ⟨segs, next, hsegs, htext⟩ := highlightOneLine_text theme true hl line hfence
  refine ⟨segs, next, hsegs, ?_⟩
  rw [htext, shownText, shownParts]
  split
  · rfl
  · rfl

/-- The columns of a line's rendering are right if and only if no text hidden
in it holds the character shown next. -/
theorem columns_of_shown (theme : Theme) (hl : Option Highlighter) (line : List Char)
    (fence : FenceState) (hfence : fence.inFence = false) :
    ∃ segs next, highlightOneLine theme true hl line fence = some (segs, next) ∧
      (HitsSource line (textOf segs) ↔ Unmistaken [] (shownParts line)) := by
  obtain ⟨segs, next, hsegs, htext⟩ := highlightOneLine_shown theme hl line hfence
  refine ⟨segs, next, hsegs, ?_⟩
  rw [htext]
  exact hitsSource_iff line

/-- A heading whose marker is hidden. -/
theorem columns_of_shown_heading : ∃ segs next,
    highlightOneLine plainTheme true none ['#', ' ', 'a'] {} = some (segs, next) ∧
      HitsSource ['#', ' ', 'a'] (textOf segs) := by
  obtain ⟨segs, next, hsegs, hhits⟩ := columns_of_shown plainTheme none ['#', ' ', 'a'] {} rfl
  refine ⟨segs, next, hsegs, hhits.2 ?_⟩
  have hparts : shownParts ['#', ' ', 'a'] = [⟨['#', ' '], ['a'], [], ['a']⟩] := by
    decide
  rw [hparts]
  refine ⟨⟨?_, ?_⟩, trivial⟩
  · decide
  · intro hhead
    exact absurd hhead.1 (by decide)

/-- The marker of the heading is taken for the text that begins like it. -/
theorem heading_mistaken : ¬ ∀ (theme : Theme) (hl : Option Highlighter) (line : List Char)
    (fence : FenceState), fence.inFence = false →
      ∃ segs next, highlightOneLine theme true hl line fence = some (segs, next) ∧
        HitsSource line (textOf segs) := by
  intro hclaim
  obtain ⟨segs, next, hsegs, hhits⟩ := hclaim plainTheme none ['#', ' ', '#', '1'] {} rfl
  have hshown : (highlightOneLine plainTheme true none ['#', ' ', '#', '1'] {}).map
      (fun found => textOf found.1) = some ['#', '1'] := by decide
  rw [hsegs] at hshown
  have htext : textOf segs = ['#', '1'] := Option.some.inj hshown
  have hfirst := hhits.columns 0
  rw [htext] at hfirst
  exact absurd (hfirst (by decide)) (by decide)


end MdHighlight

end Yaldabaoth
