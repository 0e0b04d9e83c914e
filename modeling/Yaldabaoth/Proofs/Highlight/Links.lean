import Mathlib.Data.List.Pairwise
import Yaldabaoth.Proofs.Highlight.Columns

/-!
# `Yaldabaoth.Proofs.Highlight.Links`: links of a rendered line

The highlighter recognises link spans (`lineLinks`). The program looks for
brackets in the source once more. Where every bracket it takes begins a link
span and it reads the span to the same ends (`Undisputed`), its loop gives
these spans (`linksLoop_spans`), and where the columns are right, their
labels (`links_of_shown`).
-/

set_option autoImplicit false

namespace Yaldabaoth

namespace MdHighlight

/-! ### Link spans -/

/-- The parts of a line before its inline spans. -/
def leadParts (line : List Char) : List Part :=
  match headingSplit line with
  | some (lead, text) => [⟨lead, text, [], text⟩]
  | none =>
      if isHorizontalRule line then [.verbatim line]
      else
        let rest := trimStart line
        let ws := Part.verbatim (line.takeWhile isWhitespace)
        if (quoteSplit rest).1 ≠ [] then [ws, .hidden (quoteSplit rest).1]
        else
          match markerSplit rest with
          | some (marker, _) => [ws, markerPart marker]
          | none => [ws]

def lineSpans (line : List Char) : List Inline :=
  match headingSplit line with
  | some _ => []
  | none =>
      if isHorizontalRule line then []
      else
        let rest := trimStart line
        if (quoteSplit rest).1 ≠ [] then inlines (quoteSplit rest).2
        else
          match markerSplit rest with
          | some (_, item) => inlines item
          | none => inlines rest

theorem lineParts_split (line : List Char) :
    lineParts line = leadParts line ++ (lineSpans line).map Part.ofInline := by
  rw [lineParts, leadParts, lineSpans]
  cases headingSplit line with
  | some cut => rfl
  | none =>
      dsimp only
      split
      · rfl
      · split
        · rfl
        · cases markerSplit (trimStart line) with
          | some cut => rfl
          | none => rfl

/-- A link span: the column of its bracket, and the one in which its label is
shown. -/
structure LinkSpan where
  start : Nat
  shownAt : Nat
  label : List Char
  target : List Char
deriving Repr, DecidableEq

namespace LinkSpan

def labelEnd (span : LinkSpan) : Nat := span.start + 1 + span.label.length

def targetEnd (span : LinkSpan) : Nat := span.labelEnd + 2 + span.target.length

/-- What is to be found of a span that has a label and a target. -/
def entry (span : LinkSpan) : List RenderedMarkdownLink :=
  if span.label ≠ [] ∧ trimText span.target ≠ [] then
    [⟨span.shownAt, span.shownAt + span.label.length, trimText span.target⟩]
  else []

end LinkSpan

/-- The links among spans that begin at `col` and are shown from `shownAt`
on. -/
def linkSpansFrom : Nat → Nat → List Inline → List LinkSpan
  | _, _, [] => []
  | col, shownAt, span :: spans =>
      let rest := linkSpansFrom (col + span.raw.length) (shownAt + span.shown.length) spans
      match span with
      | .link label target => ⟨col, shownAt, label, target⟩ :: rest
      | _ => rest

/-- The link spans of a line outside fences. -/
def lineLinks (line : List Char) : List LinkSpan :=
  if opensOrClosesFence line then []
  else
    linkSpansFrom ((leadParts line).flatMap Part.raw).length
      ((leadParts line).flatMap Part.shown).length (lineSpans line)

/-! ### What is agreed on -/

def escapedAt (raw : List Char) (i : Nat) : Prop := 0 < i ∧ raw[i - 1]? = some '\\'

/-- The link spans are as the program reads them, and no other bracket opens
what it takes for a link. -/
structure Undisputed (line : List Char) : Prop where
  free : ∀ span ∈ lineLinks line, ¬ escapedAt line span.start
  label : ∀ span ∈ lineLinks line, ']' ∉ span.label
  target : ∀ span ∈ lineLinks line, ')' ∉ span.target
  others : ∀ i, (line)[i]? = some '[' → ¬ escapedAt line i →
    (∀ span ∈ lineLinks line, ¬ (span.start ≤ i ∧ i ≤ span.targetEnd)) →
      ∀ labelEnd, positionFrom line ']' (i + 1) = some labelEnd →
        (line)[labelEnd + 1]? = some '(' → positionFrom line ')' (labelEnd + 2) = none

/-! ### Searches -/

theorem positionFrom_found {raw front after : List Char} {c : Char} {i : Nat}
    (hraw : raw.drop i = front ++ c :: after) (hfront : c ∉ front) :
    positionFrom raw c i = some (i + front.length) := by
  have hindex : (front ++ c :: after).idxOf? c = some front.length := by
    rw [List.idxOf?_eq_some_iff]
    refine ⟨by simp, by simp, ?_⟩
    intro j hj
    rw [List.getElem_append_left hj]
    intro heq
    exact hfront (heq ▸ List.getElem_mem hj)
  rw [positionFrom, hraw, hindex]
  rfl

theorem positionFrom_some {raw : List Char} {c : Char} {i j : Nat}
    (h : positionFrom raw c i = some j) :
    i ≤ j ∧ raw[j]? = some c ∧ ∀ k, i ≤ k → k < j → raw[k]? ≠ some c := by
  rw [positionFrom, Option.map_eq_some_iff] at h
  obtain ⟨offset, hoffset, rfl⟩ := h
  obtain ⟨hlt, hat, hbefore⟩ := List.idxOf?_eq_some_iff.1 hoffset
  refine ⟨Nat.le_add_right i offset, ?_, ?_⟩
  · rw [← List.getElem?_drop, List.getElem?_eq_getElem hlt, hat]
  · intro k hik hk hfound
    have hoff : (raw.drop i)[k - i]? = some c := by
      rw [List.getElem?_drop, Nat.add_sub_cancel' hik, hfound]
    obtain ⟨hin, heq⟩ := List.getElem?_eq_some_iff.1 hoff
    exact hbefore (k - i) (by omega) heq

theorem positionFrom_none {raw : List Char} {c : Char} {i : Nat}
    (h : positionFrom raw c i = none) : ∀ k, i ≤ k → raw[k]? ≠ some c := by
  rw [positionFrom, Option.map_eq_none_iff, List.idxOf?_eq_none_iff] at h
  intro k hik hfound
  apply h
  have hoff : (raw.drop i)[k - i]? = some c := by
    rw [List.getElem?_drop, Nat.add_sub_cancel' hik, hfound]
  exact List.mem_of_getElem? hoff

/-! ### The loop -/

/-- The program finds a span as it is. -/
structure Found (raw : List Char) (span : LinkSpan) : Prop where
  opens : raw[span.start]? = some '['
  free : ¬ escapedAt raw span.start
  label : positionFrom raw ']' (span.start + 1) = some span.labelEnd
  paren : raw[span.labelEnd + 1]? = some '('
  target : positionFrom raw ')' (span.labelEnd + 2) = some span.targetEnd

/-- A bracket outside the spans, from which the search for its `]` comes to
`labelEnd`, is before any span that begins in between only if it opens a link
itself. -/
theorem Found.behind {raw : List Char} {span : LinkSpan} (hfound : Found raw span)
    {i labelEnd : Nat} (hlabel : positionFrom raw ']' (i + 1) = some labelEnd)
    (hi : i < span.start) :
    labelEnd < span.start ∨ raw[labelEnd + 1]? = some '(' := by
  obtain ⟨_, hat, hbefore⟩ := positionFrom_some hlabel
  obtain ⟨hstart, hspanAt, hspanBefore⟩ := positionFrom_some hfound.label
  by_cases hlate : labelEnd < span.start
  · exact .inl hlate
  · right
    have hnot : labelEnd ≠ span.start := by
      intro heq
      rw [heq, hfound.opens] at hat
      exact absurd hat (by decide)
    -- both searches come to the same `]`
    have hle : labelEnd ≤ span.labelEnd := by
      by_contra hmore
      exact hbefore span.labelEnd (by omega) (by omega) hspanAt
    have hge : span.labelEnd ≤ labelEnd := by
      by_contra hmore
      exact hspanBefore labelEnd (by omega) (by omega) hat
    rw [Nat.le_antisymm hle hge]
    exact hfound.paren

theorem Found.spans {raw : List Char} {span : LinkSpan} (_ : Found raw span) :
    span.start < span.labelEnd ∧ span.labelEnd < span.targetEnd := by
  rw [LinkSpan.targetEnd, LinkSpan.labelEnd]
  omega

theorem filter_start {spans : List LinkSpan} {i j : Nat}
    (h : ∀ span ∈ spans, i ≤ span.start ↔ j ≤ span.start) :
    (spans.filter fun span => i ≤ span.start) = spans.filter fun span => j ≤ span.start := by
  apply List.filter_congr
  intro span hspan
  exact decide_eq_decide.2 (h span hspan)

theorem filter_none {spans : List LinkSpan} {i : Nat} (h : ∀ span ∈ spans, span.start < i) :
    (spans.filter fun span => i ≤ span.start) = [] := by
  rw [List.filter_eq_nil_iff]
  intro span hspan
  have := h span hspan
  simp only [decide_eq_true_eq]
  omega

theorem pairwise_either {spans : List LinkSpan}
    (hsorted : spans.Pairwise fun span later => span.targetEnd < later.start)
    {span other : LinkSpan} (hspan : span ∈ spans) (hother : other ∈ spans) (hne : span ≠ other) :
    span.targetEnd < other.start ∨ other.targetEnd < span.start := by
  let Apart : LinkSpan → LinkSpan → Prop := fun span other =>
    span.targetEnd < other.start ∨ other.targetEnd < span.start
  have hsymm : Std.Symm Apart := ⟨fun _ _ h => h.symm⟩
  have hapart : spans.Pairwise Apart := hsorted.imp Or.inl
  exact hapart.forall hspan hother hne

/-- No span begins behind the end. -/
theorem filter_end {raw : List Char} {spans : List LinkSpan}
    (hfound : ∀ span ∈ spans, Found raw span) {i : Nat} (hi : raw.length ≤ i) :
    (spans.filter fun span => i ≤ span.start) = [] := by
  apply filter_none
  intro span hspan
  have hlt := (List.getElem?_eq_some_iff.1 (hfound span hspan).opens).1
  omega

/-- The spans from one on are that one and those behind its end. -/
theorem filter_from {raw : List Char} {spans : List LinkSpan}
    (hfound : ∀ span ∈ spans, Found raw span)
    (hsorted : spans.Pairwise fun span later => span.targetEnd < later.start) {span : LinkSpan}
    (hspan : span ∈ spans) :
    (spans.filter fun later => span.start ≤ later.start) =
      span :: spans.filter fun later => span.targetEnd + 1 ≤ later.start := by
  obtain ⟨front, back, rfl⟩ := List.append_of_mem hspan
  rw [List.pairwise_append, List.pairwise_cons] at hsorted
  obtain ⟨-, ⟨hback, -⟩, hfront⟩ := hsorted
  have hlength := (hfound span hspan).spans
  have hbefore : ∀ earlier ∈ front, earlier.start < span.start := by
    intro earlier hearlier
    have := hfront earlier hearlier span List.mem_cons_self
    have := (hfound earlier (List.mem_append_left _ hearlier)).spans
    omega
  rw [List.filter_append, List.filter_append, filter_none hbefore, List.nil_append,
    filter_none (i := span.targetEnd + 1)
      (fun earlier hearlier => Nat.lt_of_lt_of_le (hbefore earlier hearlier) (by omega)),
    List.nil_append, List.filter_cons_of_pos (by simp),
    List.filter_cons_of_neg (by simp only [decide_eq_true_eq]; omega)]
  congr 1
  apply filter_start
  intro later hlater
  have := hback later hlater
  omega

/-- From a column outside the spans, the loop finds those behind it. -/
theorem linksLoop_spans {raw : List Char} {spans : List LinkSpan} (cols : List Nat)
    (hfound : ∀ span ∈ spans, Found raw span)
    (hsorted : spans.Pairwise fun span later => span.targetEnd < later.start)
    (hothers : ∀ i, raw[i]? = some '[' → ¬ escapedAt raw i →
      (∀ span ∈ spans, ¬ (span.start ≤ i ∧ i ≤ span.targetEnd)) →
        ∀ labelEnd, positionFrom raw ']' (i + 1) = some labelEnd →
          raw[labelEnd + 1]? = some '(' → positionFrom raw ')' (labelEnd + 2) = none)
    (fuel i : Nat) (hfuel : raw.length ≤ i + fuel)
    (hout : ∀ span ∈ spans, i ≤ span.start ∨ span.targetEnd < i) :
    linksLoop raw cols fuel i =
      (spans.filter fun span => i ≤ span.start).flatMap fun span =>
        renderedLink raw cols span.start span.labelEnd span.targetEnd := by
  induction fuel generalizing i with
  | zero =>
      rw [linksLoop, filter_end hfound (Nat.add_zero i ▸ hfuel)]
      rfl
  | succ fuel ih =>
      rw [linksLoop]
      by_cases hlt : i < raw.length
      · rw [if_pos hlt]
        by_cases hpass : raw[i]? ≠ some '[' ∨ (0 < i ∧ raw[i - 1]? = some '\\')
        · -- no span begins here
          rw [if_pos hpass]
          have hnot : ∀ span ∈ spans, span.start ≠ i := by
            intro span hspan heq
            rcases hpass with hother | hescaped
            · exact hother (heq ▸ (hfound span hspan).opens)
            · exact (hfound span hspan).free (heq ▸ hescaped)
          rw [ih (i + 1) (by omega)]
          · rw [filter_start]
            intro span hspan
            have := hnot span hspan
            omega
          · intro span hspan
            have := hnot span hspan
            have := hout span hspan
            omega
        · rw [if_neg hpass]
          rw [not_or, not_not] at hpass
          obtain ⟨hopens, hfree⟩ := hpass
          by_cases hbegins : ∃ span ∈ spans, span.start = i
          · -- a span begins here: it is found, and the loop goes on behind it
            obtain ⟨span, hspan, rfl⟩ := hbegins
            have hfind := hfound span hspan
            have hlength := hfind.spans
            rw [hfind.label]
            dsimp only
            rw [if_neg (not_not.2 hfind.paren), hfind.target, filter_from hfound hsorted hspan,
              List.flatMap_cons]
            dsimp only
            rw [ih (span.targetEnd + 1) (by omega)]
            intro later hlater
            by_cases hsame : later = span
            · right
              rw [hsame]
              omega
            · rcases pairwise_either hsorted hlater hspan hsame with hearlier | hbehind
              · right
                omega
              · left
                omega
          · -- none does: the bracket opens nothing
            have hbehind : ∀ span ∈ spans, i ≤ span.start → i < span.start := by
              intro span hspan hle
              by_contra hnot
              exact hbegins ⟨span, hspan, by omega⟩
            have houtside : ∀ span ∈ spans, ¬ (span.start ≤ i ∧ i ≤ span.targetEnd) := by
              intro span hspan hin
              have := hbehind span hspan
              have := hout span hspan
              omega
            cases hlabel : positionFrom raw ']' (i + 1) with
            | none =>
                dsimp only
                have hnone : ∀ span ∈ spans, span.start < i := by
                  intro span hspan
                  by_contra hle
                  have hstart := hbehind span hspan (by omega)
                  have hat := positionFrom_some (hfound span hspan).label
                  exact positionFrom_none hlabel span.labelEnd (by omega) hat.2.1
                rw [filter_none hnone]
                rfl
            | some labelEnd =>
                dsimp only
                have hle := (positionFrom_some hlabel).1
                by_cases hparen : raw[labelEnd + 1]? = some '('
                · -- a link without its end: nothing ends behind it
                  rw [if_neg (not_not.2 hparen),
                    hothers i hopens hfree houtside labelEnd hlabel hparen]
                  dsimp only
                  have htarget := positionFrom_none
                    (hothers i hopens hfree houtside labelEnd hlabel hparen)
                  have hnone : ∀ span ∈ spans, span.start < i := by
                    intro span hspan
                    by_contra hle
                    have hstart := hbehind span hspan (by omega)
                    have hlength := (hfound span hspan).spans
                    have hat := positionFrom_some (hfound span hspan).label
                    have hend := positionFrom_some (hfound span hspan).target
                    have hlate : labelEnd ≤ span.labelEnd := by
                      by_contra hearly
                      exact (positionFrom_some hlabel).2.2 span.labelEnd (by omega) (by omega)
                        hat.2.1
                    exact htarget span.targetEnd (by omega) hend.2.1
                  rw [filter_none hnone]
                  rfl
                · rw [if_pos hparen]
                  have hlater : ∀ span ∈ spans, i ≤ span.start → labelEnd + 1 ≤ span.start := by
                    intro span hspan hstart
                    rcases (hfound span hspan).behind hlabel (hbehind span hspan hstart) with
                      hlate | hat
                    · exact hlate
                    · exact absurd hat hparen
                  rw [ih (labelEnd + 1) (by omega)]
                  · rw [filter_start]
                    intro span hspan
                    have := hlater span hspan
                    omega
                  · intro span hspan
                    have := hlater span hspan
                    have := hout span hspan
                    omega
      · rw [if_neg hlt, filter_end hfound (by omega)]
        rfl
/-! ### The spans of a line -/

theorem link_raw (label target : List Char) :
    (Inline.link label target).raw = '[' :: (label ++ ']' :: '(' :: (target ++ [')'])) := by
  simp [Inline.raw, Inline.parts]

/-- Where a span stands among the spans of a text. -/
theorem linkSpansFrom_split (spans : List Inline) (col shownAt : Nat) :
    ∀ span ∈ linkSpansFrom col shownAt spans, ∃ front back,
      spans = front ++ .link span.label span.target :: back ∧
      span.start = col + (front.flatMap Inline.raw).length ∧
      span.shownAt = shownAt + (front.flatMap Inline.shown).length := by
  induction spans generalizing col shownAt with
  | nil =>
      intro span hspan
      cases hspan
  | cons first spans ih =>
      have hlater : ∀ span ∈ linkSpansFrom (col + first.raw.length)
          (shownAt + first.shown.length) spans, ∃ front back,
          first :: spans = front ++ .link span.label span.target :: back ∧
          span.start = col + (front.flatMap Inline.raw).length ∧
          span.shownAt = shownAt + (front.flatMap Inline.shown).length := by
        intro span hspan
        obtain ⟨front, back, hsplit, hstart, hshown⟩ := ih _ _ span hspan
        refine ⟨first :: front, back, ?_, ?_, ?_⟩
        · rw [hsplit, List.cons_append]
        · rw [List.flatMap_cons, List.length_append, hstart, Nat.add_assoc]
        · rw [List.flatMap_cons, List.length_append, hshown, Nat.add_assoc]
      intro span hspan
      cases first with
      | link label target =>
          rw [linkSpansFrom] at hspan
          rcases List.mem_cons.1 hspan with rfl | hmem
          · exact ⟨[], spans, rfl, rfl, rfl⟩
          · exact hlater span hmem
      | plain _ => exact hlater span hspan
      | code _ => exact hlater span hspan
      | bold _ => exact hlater span hspan
      | italic _ _ => exact hlater span hspan
      | strike _ => exact hlater span hspan

theorem linkSpansFrom_start (spans : List Inline) (col shownAt : Nat) :
    ∀ span ∈ linkSpansFrom col shownAt spans, col ≤ span.start := by
  intro span hspan
  obtain ⟨front, back, -, hstart, -⟩ := linkSpansFrom_split spans col shownAt span hspan
  omega

theorem linkSpansFrom_sorted (spans : List Inline) (col shownAt : Nat) :
    (linkSpansFrom col shownAt spans).Pairwise fun span later =>
      span.targetEnd < later.start := by
  induction spans generalizing col shownAt with
  | nil => exact List.Pairwise.nil
  | cons first spans ih =>
      cases first with
      | link label target =>
          rw [linkSpansFrom, List.pairwise_cons]
          refine ⟨?_, ih _ _⟩
          intro later hlater
          have hstart := linkSpansFrom_start _ _ _ later hlater
          rw [link_raw] at hstart
          simp only [List.length_cons, List.length_append, List.length_nil] at hstart
          simp only [LinkSpan.targetEnd, LinkSpan.labelEnd]
          omega
      | plain _ => exact ih _ _
      | code _ => exact ih _ _
      | bold _ => exact ih _ _
      | italic _ _ => exact ih _ _
      | strike _ => exact ih _ _

theorem sourceColsFrom_append (parts more : List Part) (col : Nat) :
    sourceColsFrom col (parts ++ more) =
      sourceColsFrom col parts ++ sourceColsFrom (col + (parts.flatMap Part.raw).length) more := by
  induction parts generalizing col with
  | nil => rfl
  | cons part parts ih =>
      rw [List.cons_append, sourceColsFrom, sourceColsFrom, ih, List.flatMap_cons,
        List.length_append, List.append_assoc, Nat.add_assoc]

theorem sourceColsFrom_bounds (parts : List Part) (col : Nat) :
    ∀ found ∈ sourceColsFrom col parts,
      col ≤ found ∧ found < col + (parts.flatMap Part.raw).length := by
  induction parts generalizing col with
  | nil =>
      intro found hfound
      cases hfound
  | cons part parts ih =>
      intro found hfound
      rw [sourceColsFrom, List.mem_append] at hfound
      rw [List.flatMap_cons, List.length_append]
      rcases hfound with hhere | hlater
      · have := List.mem_range'_1.1 hhere
        simp only [Part.raw, List.length_append]
        omega
      · have := ih _ found hlater
        omega

/-- Where a link stands among the parts of its line. -/
theorem lineLinks_split {line : List Char} {span : LinkSpan} (hspan : span ∈ lineLinks line) :
    ∃ before after,
      shownParts line = before ++ .ofInline (.link span.label span.target) :: after ∧
      span.start = (before.flatMap Part.raw).length ∧
      span.shownAt = (before.flatMap Part.shown).length := by
  rw [lineLinks] at hspan
  rw [shownParts]
  split at hspan
  · cases hspan
  · next hopens =>
    rw [if_neg hopens, lineParts_split]
    obtain ⟨front, back, hsplit, hstart, hshown⟩ := linkSpansFrom_split _ _ _ span hspan
    have hraw : (front.map Part.ofInline).flatMap Part.raw = front.flatMap Inline.raw := by
      rw [List.flatMap_map]
      rfl
    have hshownAll : (front.map Part.ofInline).flatMap Part.shown =
        front.flatMap Inline.shown := by
      rw [List.flatMap_map]
      rfl
    refine ⟨leadParts line ++ front.map Part.ofInline, back.map Part.ofInline, ?_, ?_, ?_⟩
    · rw [hsplit]
      simp
    · rw [List.flatMap_append, List.length_append, hraw, hstart]
    · rw [List.flatMap_append, List.length_append, hshownAll, hshown]

theorem lineLinks_sorted (line : List Char) :
    (lineLinks line).Pairwise fun span later => span.targetEnd < later.start := by
  rw [lineLinks]
  split
  · exact List.Pairwise.nil
  · exact linkSpansFrom_sorted _ _ _

/-- The source of a link. -/
theorem lineLinks_drop {line : List Char} {span : LinkSpan} (hspan : span ∈ lineLinks line) :
    ∃ after, line.drop span.start =
      '[' :: (span.label ++ ']' :: '(' :: (span.target ++ ')' :: after)) := by
  obtain ⟨before, after, hparts, hstart, -⟩ := lineLinks_split hspan
  have hraw : (shownParts line).flatMap Part.raw = line := by
    rw [shownParts]
    split
    · next hopens =>
      rw [shownParts, if_pos hopens] at hparts
      cases before <;> cases hparts
    · exact lineParts_raw line
  refine ⟨after.flatMap Part.raw, ?_⟩
  rw [← hraw, hparts, List.flatMap_append, List.flatMap_cons, Part.ofInline_raw, link_raw, hstart,
    List.drop_left]
  simp

theorem lineLinks_target {line : List Char} {span : LinkSpan} (hspan : span ∈ lineLinks line) :
    (line.take span.targetEnd).drop (span.labelEnd + 2) = span.target := by
  obtain ⟨after, hdrop⟩ := lineLinks_drop hspan
  have hlength : span.targetEnd - (span.labelEnd + 2) = span.target.length := by
    rw [LinkSpan.targetEnd]
    omega
  rw [List.drop_take, hlength, LinkSpan.labelEnd,
    drop_one (drop_one (drop_further (drop_one hdrop)))]
  exact List.take_left

/-- The program finds the spans that nothing disputes. -/
theorem Undisputed.found {line : List Char} (h : Undisputed line) {span : LinkSpan}
    (hspan : span ∈ lineLinks line) : Found line span := by
  obtain ⟨after, hdrop⟩ := lineLinks_drop hspan
  have hlabel := drop_one hdrop
  have hbracket := drop_further hlabel
  have hparen := drop_one hbracket
  have htarget := drop_one hparen
  constructor
  · rw [← List.head?_drop, hdrop]
    rfl
  · exact h.free span hspan
  · exact positionFrom_found hlabel (h.label span hspan)
  · rw [← List.head?_drop, LinkSpan.labelEnd, hparen]
    rfl
  · exact positionFrom_found htarget (h.target span hspan)

/-! ### Ranges -/

/-- The columns below one that stands between the columns. -/
theorem rawToStrippedCol_between {map before after : List Nat} {rawCol : Nat}
    (hmap : map.dropLast = before ++ after) (hbefore : ∀ r ∈ before, r < rawCol)
    (hafter : ∀ r ∈ after, rawCol ≤ r) : rawToStrippedCol map rawCol = before.length := by
  rw [rawToStrippedCol, hmap, List.takeWhile_append_of_pos]
  · cases after with
    | nil => simp
    | cons r after =>
        have hle := hafter r List.mem_cons_self
        rw [List.takeWhile_cons_of_neg (by simpa using hle)]
        simp
  · intro r hr
    simpa using hbefore r hr

/-- With the right columns, a link is found in the range of its label. -/
theorem renderedLink_entry {line : List Char} {cols : List Nat} {span : LinkSpan}
    (hspan : span ∈ lineLinks line) (hcols : cols.dropLast = sourceCols line) :
    renderedLink line cols span.start span.labelEnd span.targetEnd = span.entry := by
  obtain ⟨before, after, hparts, hstart, hshown⟩ := lineLinks_split hspan
  have hlengths : ∀ part ∈ shownParts line, part.shown.length = part.body.length := by
    rw [shownParts]
    split
    · intro part hpart
      cases hpart
    · exact lineParts_length line
  have hall : cols.dropLast = sourceColsFrom 0 before ++
      (List.range' (span.start + 1) span.label.length ++
        sourceColsFrom (span.targetEnd + 1) after) := by
    have hraw : (Part.ofInline (.link span.label span.target)).raw.length =
        span.label.length + span.target.length + 4 := by
      rw [Part.ofInline_raw, link_raw]
      simp
      omega
    have hnext : span.start + (span.label.length + span.target.length + 4) =
        span.targetEnd + 1 := by
      rw [LinkSpan.targetEnd, LinkSpan.labelEnd]
      omega
    rw [hcols, sourceCols, hparts, sourceColsFrom_append, sourceColsFrom, Nat.zero_add, ← hstart,
      hraw, hnext]
    rfl
  have hcount : (sourceColsFrom 0 before).length = span.shownAt := by
    rw [hshown]
    apply sourceColsFrom_length
    intro part hpart
    apply hlengths
    rw [hparts]
    exact List.mem_append_left _ hpart
  have hbefore : ∀ r ∈ sourceColsFrom 0 before, r < span.start := by
    intro r hr
    have := (sourceColsFrom_bounds before 0 r hr).2
    omega
  have hafter : ∀ r ∈ sourceColsFrom (span.targetEnd + 1) after, span.targetEnd < r := by
    intro r hr
    exact (sourceColsFrom_bounds after _ r hr).1
  have hspans : span.labelEnd = span.start + 1 + span.label.length ∧
      span.targetEnd = span.labelEnd + 2 + span.target.length := ⟨rfl, rfl⟩
  have hfrom : rawToStrippedCol cols (span.start + 1) = span.shownAt := by
    rw [← hcount]
    apply rawToStrippedCol_between hall
    · intro r hr
      have := hbefore r hr
      omega
    · intro r hr
      rcases List.mem_append.1 hr with hlabel | hrest
      · exact (List.mem_range'_1.1 hlabel).1
      · have := hafter r hrest
        omega
  have hto : rawToStrippedCol cols span.labelEnd = span.shownAt + span.label.length := by
    rw [← List.append_assoc] at hall
    rw [rawToStrippedCol_between hall, List.length_append, hcount, List.length_range']
    · intro r hr
      rcases List.mem_append.1 hr with hearlier | hlabel
      · have := hbefore r hearlier
        omega
      · have := (List.mem_range'_1.1 hlabel).2
        omega
    · intro r hr
      have := hafter r hr
      omega
  have hlabel : span.shownAt < span.shownAt + span.label.length ↔ span.label ≠ [] := by
    rw [← List.length_pos_iff]
    omega
  rw [renderedLink, hfrom, hto, lineLinks_target hspan, LinkSpan.entry]
  simp only [hlabel]

/-! ### Agreement -/

/-- The links that a line shows. -/
def shownLinks (line : List Char) : List RenderedMarkdownLink :=
  (lineLinks line).flatMap LinkSpan.entry

/-- Nothing is found in what shows nothing. -/
theorem linksLoop_hidden {raw : List Char} {cols : List Nat} (hcols : cols.dropLast = [])
    (fuel i : Nat) : linksLoop raw cols fuel i = [] := by
  have hzero : ∀ col, rawToStrippedCol cols col = 0 := by
    intro col
    rw [rawToStrippedCol, hcols]
    rfl
  induction fuel generalizing i with
  | zero => rfl
  | succ fuel ih =>
      rw [linksLoop]
      split
      · split
        · exact ih (i + 1)
        · split
          · rfl
          · split
            · exact ih _
            · split
              · rfl
              · rw [renderedLink, hzero, hzero, ih]
                simp
      · rfl

/-- A span without a label or a target is none to be found. -/
theorem renderedLink_none {line : List Char} (cols : List Nat) {span : LinkSpan}
    (hspan : span ∈ lineLinks line) (hentry : span.entry = []) :
    renderedLink line cols span.start span.labelEnd span.targetEnd = [] := by
  rw [LinkSpan.entry] at hentry
  rw [renderedLink, lineLinks_target hspan]
  split at hentry
  · cases hentry
  · next hnone =>
    rw [if_neg]
    intro hboth
    apply hnone
    refine ⟨?_, hboth.2⟩
    intro hlabel
    -- an empty label has an empty range
    have hsame : span.labelEnd = span.start + 1 := by simp [LinkSpan.labelEnd, hlabel]
    rw [hsame] at hboth
    exact Nat.lt_irrefl _ hboth.1

theorem renderedLinks_eq {line : List Char}
    (h : opensOrClosesFence line = true ∨
      Undisputed line ∧ (shownLinks line ≠ [] → Unmistaken [] (shownParts line))) :
    renderedMarkdownLinks line (shownText line) = shownLinks line := by
  rw [renderedMarkdownLinks, shownLinks]
  rcases h with hfence | ⟨hundisputed, hunmistaken⟩
  · have hparts : shownParts line = [] := by rw [shownParts, if_pos hfence]
    have hlinks : lineLinks line = [] := by rw [lineLinks, if_pos hfence]
    rw [hlinks, shownText, hparts]
    exact linksLoop_hidden rfl _ _
  · rw [linksLoop_spans _ (fun _ => hundisputed.found) (lineLinks_sorted line)
      hundisputed.others line.length 0 (by omega) (fun _ _ => .inl (Nat.zero_le _))]
    have hevery : ((lineLinks line).filter fun span => 0 ≤ span.start) = lineLinks line := by
      simp
    rw [hevery]
    apply List.flatMap_congr
    intro span hspan
    by_cases hlinks : shownLinks line = []
    · have hentry := List.flatMap_eq_nil_iff.1 hlinks span hspan
      rw [renderedLink_none _ hspan hentry, hentry]
    · exact renderedLink_entry hspan ((shown_columns line).1.2 (hunmistaken hlinks))

/-- Where no bracket is disputed and, if there are links to be shown, no hidden
text holds the character shown next, the program finds these links. -/
theorem links_of_shown (theme : Theme) (hl : Option Highlighter) (line : List Char)
    (fence : FenceState) (hfence : fence.inFence = false)
    (hline : opensOrClosesFence line = true ∨
      Undisputed line ∧ (shownLinks line ≠ [] → Unmistaken [] (shownParts line))) :
    ∃ segs next, highlightOneLine theme true hl line fence = some (segs, next) ∧
      renderedMarkdownLinks line (textOf segs) = shownLinks line := by
  obtain ⟨segs, next, hsegs, htext⟩ := highlightOneLine_shown theme hl line hfence
  refine ⟨segs, next, hsegs, ?_⟩
  rw [htext]
  exact renderedLinks_eq hline
def linkLine : List Char := ['[', 'a', ']', '(', 'b', ')']

/-- A line that is a link. -/
theorem links_of_shown_link : ∃ segs next,
    highlightOneLine plainTheme true none linkLine {} = some (segs, next) ∧
      renderedMarkdownLinks linkLine (textOf segs) = [⟨0, 1, ['b']⟩] := by
  have hspan : spanOf linkLine = some (.link ['a'] ['b'], []) := by decide
  have hinlines : inlines linkLine = [.link ['a'] ['b']] := by
    rw [inlines_span hspan, inlines_nil]
  have hspans : lineSpans linkLine = [.link ['a'] ['b']] := by
    have hplain : lineSpans linkLine = inlines linkLine := by rfl
    rw [hplain, hinlines]
  have hlinks : lineLinks linkLine = [⟨0, 0, ['a'], ['b']⟩] := by
    rw [lineLinks, hspans]
    decide
  have hshown : shownLinks linkLine = [⟨0, 1, ['b']⟩] := by
    rw [shownLinks, hlinks]
    decide
  have hparts : shownParts linkLine = [.verbatim [], .ofInline (.link ['a'] ['b'])] := by
    have hplain : shownParts linkLine = .verbatim [] :: (inlines linkLine).map .ofInline := by rfl
    rw [hplain, hinlines]
    rfl
  rw [← hshown]
  apply links_of_shown plainTheme none linkLine {} rfl
  right
  constructor
  · constructor
    · rw [hlinks]
      intro span hspan hescaped
      cases List.mem_singleton.1 hspan
      exact absurd hescaped.1 (by decide)
    · rw [hlinks]
      decide
    · rw [hlinks]
      decide
    · -- the only bracket is the one of the link
      intro i hi _ houtside
      rw [hlinks] at houtside
      have hfirst : ∀ i < linkLine.length, linkLine[i]? = some '[' → i = 0 := by decide
      have hzero := hfirst i (List.getElem?_eq_some_iff.1 hi).1 hi
      exact absurd ⟨Nat.zero_le i, by rw [hzero]; exact Nat.zero_le _⟩
        (houtside _ List.mem_cons_self)
  · intro _
    rw [hparts, unmistaken_verbatim]
    refine ⟨⟨?_, ?_⟩, trivial⟩
    · decide
    · intro hhead
      exact absurd hhead.1 (by decide)

/-- A heading shows its brackets, and they are taken for a link. -/
theorem heading_link : ¬ ∀ (theme : Theme) (hl : Option Highlighter) (line : List Char)
    (fence : FenceState), fence.inFence = false →
      ∃ segs next, highlightOneLine theme true hl line fence = some (segs, next) ∧
        renderedMarkdownLinks line (textOf segs) = shownLinks line := by
  intro hclaim
  obtain ⟨segs, next, hsegs, hlinks⟩ := hclaim plainTheme none ('#' :: ' ' :: linkLine) {} rfl
  have hshown : (highlightOneLine plainTheme true none ('#' :: ' ' :: linkLine) {}).map
      (fun found => textOf found.1) = some linkLine := by decide
  rw [hsegs] at hshown
  have htext : textOf segs = linkLine := Option.some.inj hshown
  rw [htext] at hlinks
  exact absurd hlinks (by decide)


end MdHighlight

end Yaldabaoth
