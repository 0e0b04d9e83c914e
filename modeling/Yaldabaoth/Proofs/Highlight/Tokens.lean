import Yaldabaoth.Proofs.Highlight.Inlines

/-!
# `Yaldabaoth.Proofs.Highlight.Tokens`: the tokenizer gives the spans

`tokenizeInline_eq`: the segments are the spans of the text, with the
characters between them in one segment each. So every cut is at the
boundary of a character, and in raw mode nothing is lost.
-/

set_option autoImplicit false

namespace Yaldabaoth

open Utf8Text

namespace MdHighlight

section tokens

variable (theme : Theme) (strip : Bool) (base : Style)

/-- A run of characters outside the spans, unless it is empty. -/
def runOf (acc : List Char) : List Segment := if acc = [] then [] else [(acc, base)]

/-- The segments of the spans; `acc` are the characters outside so far. -/
def segmentsOf (acc : List Char) : List Inline → List Segment
  | [] => runOf base acc
  | .plain c :: spans => segmentsOf (acc ++ [c]) spans
  | span :: spans =>
      runOf base acc ++ (if strip then span.shown else span.raw, span.style theme) ::
        segmentsOf [] spans

variable {theme strip base} {text : List Char}

theorem tokenizeLoop_skip {k : Nat} (fuel i plainStart : Nat)
    (hnone : ∀ j < k, i + j < lenUtf8 text ∧ hitAt theme (asBytes text) (i + j) = none) :
    tokenizeLoop theme strip base text (k + fuel) i plainStart =
      tokenizeLoop theme strip base text fuel (i + k) plainStart := by
  induction k generalizing i with
  | zero => rw [Nat.zero_add, Nat.add_zero]
  | succ k ih =>
      obtain ⟨hlt, hfirst⟩ := hnone 0 (Nat.zero_lt_succ k)
      rw [Nat.add_zero] at hlt hfirst
      rw [Nat.succ_add, tokenizeLoop, if_pos hlt, hfirst]
      dsimp only
      rw [ih (i + 1), Nat.add_assoc, Nat.add_comm 1 k]
      intro j hj
      have := hnone (j + 1) (by omega)
      rwa [show i + 1 + j = i + (j + 1) by omega]

/-- No span begins at a character, nor inside it. -/
theorem hitAt_char {front rest : List Char} {c : Char} (h : spanOf (c :: rest) = none) :
    ∀ j < c.utf8Size, lenUtf8 front + j < lenUtf8 (front ++ c :: rest) ∧
      hitAt theme (asBytes (front ++ c :: rest)) (lenUtf8 front + j) = none := by
  intro j hj
  refine ⟨by rw [lenUtf8_append, lenUtf8_cons]; omega, ?_⟩
  cases j with
  | zero =>
      rw [Nat.add_zero, hit_at, h]
      rfl
  | succ j =>
      obtain ⟨bs, hbytes, hhigh, hsize, -⟩ := encode_cons c
      have hj' : j < bs.length := by omega
      have hbyte : (asBytes (front ++ c :: rest))[lenUtf8 front + (j + 1)]? = some bs[j] := by
        rw [← List.getElem?_drop, asBytes_drop, asBytes_cons, hbytes, List.cons_append,
          List.getElem?_cons_succ, List.getElem?_append_left hj', List.getElem?_eq_getElem hj']
      exact hit_high theme hbyte (hhigh _ (List.getElem_mem hj'))

theorem flushPlain_eq (front acc rest : List Char) :
    flushPlain base (front ++ acc ++ rest) (lenUtf8 front) (lenUtf8 (front ++ acc)) =
      some (runOf base acc) := by
  rw [flushPlain, runOf, lenUtf8_append]
  cases acc with
  | nil => simp
  | cons c acc =>
      have hpos := c.utf8Size_pos
      rw [if_pos (by rw [lenUtf8_cons]; omega), sliceStr_lenUtf8, if_neg (List.cons_ne_nil _ _)]
      rfl

theorem segmentsOf_span {span : Inline} (h : span.parts.1 ≠ []) (acc : List Char)
    (spans : List Inline) : segmentsOf theme strip base acc (span :: spans) =
      runOf base acc ++ (if strip then span.shown else span.raw, span.style theme) ::
        segmentsOf theme strip base [] spans := by
  cases span with
  | plain c => exact absurd rfl h
  | code _ => rfl
  | bold _ => rfl
  | italic _ _ => rfl
  | strike _ => rfl
  | link _ _ => rfl

/-- The bytes of a span that was found are what it shows, or all of it. -/
theorem sliceStr_hit (theme : Theme) (strip : Bool) (front : List Char) (span : Inline)
    (after : List Char) :
    let hit := hitOf theme (lenUtf8 front) span
    let shown := if strip then hit.inner else hit.outer
    sliceStr (front ++ (span.raw ++ after)) shown.1 shown.2 =
      some (if strip then span.shown else span.raw) := by
  intro hit shown
  cases strip with
  | false =>
      have h := sliceStr_lenUtf8 front span.raw after
      rw [List.append_assoc] at h
      exact h
  | true =>
      have h := sliceStr_lenUtf8 (front ++ span.parts.1) span.shown (span.parts.2.2 ++ after)
      rw [lenUtf8_append] at h
      have htext : front ++ (span.raw ++ after) =
          front ++ span.parts.1 ++ span.shown ++ (span.parts.2.2 ++ after) := by
        simp [Inline.raw, Inline.shown]
      rw [htext]
      exact h

/-- At the end of the text the run so far is the last segment. -/
theorem tokenizeLoop_end (front acc : List Char) (fuel : Nat) :
    tokenizeLoop theme strip base (front ++ acc) fuel (lenUtf8 (front ++ acc)) (lenUtf8 front) =
      some (runOf base acc) := by
  have hrest : (if lenUtf8 front < lenUtf8 (front ++ acc) then
      (sliceFrom (front ++ acc) (lenUtf8 front)).map fun rest => [(rest, base)]
      else some []) = some (runOf base acc) := by
    rw [lenUtf8_append, runOf]
    cases acc with
    | nil => simp
    | cons c acc =>
        have hpos := c.utf8Size_pos
        rw [if_pos (by rw [lenUtf8_cons]; omega), sliceFrom_lenUtf8, if_neg (List.cons_ne_nil _ _)]
        rfl
  cases fuel with
  | zero => rw [tokenizeLoop, if_neg (Nat.lt_irrefl _), hrest]
  | succ fuel => rw [tokenizeLoop, if_neg (Nat.lt_irrefl _), hrest]

/-- The loop, where the characters before `acc` are done. -/
theorem tokenizeLoop_eq (rest front acc : List Char) (fuel : Nat) (hfuel : lenUtf8 rest ≤ fuel) :
    tokenizeLoop theme strip base (front ++ acc ++ rest) fuel (lenUtf8 (front ++ acc))
      (lenUtf8 front) = some (segmentsOf theme strip base acc (inlines rest)) := by
  induction rest using inlines_ind generalizing front acc fuel with
  | nil =>
      rw [List.append_nil, inlines_nil]
      exact tokenizeLoop_end front acc fuel
  | plain c rest h ih =>
      -- one turn for each byte of the character
      rw [lenUtf8_cons] at hfuel
      obtain ⟨more, rfl⟩ := Nat.exists_eq_add_of_le (show c.utf8Size ≤ fuel by omega)
      rw [tokenizeLoop_skip more _ _ (hitAt_char h), inlines_plain h]
      have hnext := ih front (acc ++ [c]) more (by omega)
      rw [← List.append_assoc front acc [c], List.append_assoc (front ++ acc) [c] rest,
        lenUtf8_append (front ++ acc) [c], lenUtf8_cons, lenUtf8_nil, Nat.add_zero] at hnext
      exact hnext
  | span text span after h ih =>
      obtain ⟨htext, hopen⟩ := spanOf_eq h
      have hpos : 0 < lenUtf8 span.raw := by
        cases hparts : span.parts.1 with
        | nil => exact absurd hparts hopen
        | cons c opens =>
            have := c.utf8Size_pos
            rw [Inline.raw, hparts, List.cons_append, List.cons_append, lenUtf8_cons]
            omega
      have hlen : lenUtf8 text = lenUtf8 span.raw + lenUtf8 after := by rw [htext, lenUtf8_append]
      obtain ⟨more, rfl⟩ := Nat.exists_eq_add_of_le (show 1 ≤ fuel by omega)
      have hlt : lenUtf8 (front ++ acc) < lenUtf8 (front ++ acc ++ text) := by
        rw [lenUtf8_append (front ++ acc)]
        omega
      have hshown := sliceStr_hit theme strip (front ++ acc) span after
      have hnext := ih (front ++ acc ++ span.raw) [] more (by omega)
      rw [List.append_nil, List.append_assoc (front ++ acc), ← htext,
        lenUtf8_append (front ++ acc)] at hnext
      rw [← htext] at hshown
      rw [Nat.add_comm 1 more, tokenizeLoop, if_pos hlt, hit_at, h]
      dsimp only [Option.map_some] at hshown ⊢
      rw [flushPlain_eq, hshown]
      dsimp only [Option.bind_eq_bind, Option.bind_some]
      rw [show (hitOf theme (lenUtf8 (front ++ acc)) span).outer.2 =
        lenUtf8 (front ++ acc) + lenUtf8 span.raw from rfl, hnext, inlines_span h,
        segmentsOf_span hopen]
      rfl

variable (theme strip base)

/-- The tokenizer gives the spans; no cut is inside a character. -/
theorem tokenizeInline_eq (text : List Char) : tokenizeInline theme strip base text =
    some (segmentsOf theme strip base [] (inlines text)) := by
  rw [tokenizeInline]
  split
  · next hempty =>
    rw [hempty, inlines_nil]
    rfl
  · exact tokenizeLoop_eq text [] [] (lenUtf8 text) (Nat.le_refl _)

end tokens

end MdHighlight

end Yaldabaoth
