import Yaldabaoth.Proofs.Highlight.Tokens

/-!
# `Yaldabaoth.Proofs.Highlight.Lines`: whole lines in parts

A line outside a fence is a list of parts (`lineParts`): the text of each
stands in the line, and what is shown of it is as long as its body. The
segments are these parts, raw or stripped (`highlightSourceLine_text`). So
raw segments are the line again, and stripped ones a subsequence of it but
for a bullet (`highlight_conserves`).
-/

set_option autoImplicit false

namespace Yaldabaoth

open Utf8Text

namespace MdHighlight

/-! ### Parts -/

/-- A part of a line: its body is shown without what opens and closes it. -/
structure Part where
  opens : List Char
  body : List Char
  closes : List Char
  shown : List Char
deriving Repr, DecidableEq

namespace Part

def raw (part : Part) : List Char := part.opens ++ part.body ++ part.closes

/-- A text that is shown as it is. -/
def verbatim (text : List Char) : Part := ⟨[], text, [], text⟩

/-- A text that is shown in raw mode only. -/
def hidden (text : List Char) : Part := ⟨text, [], [], []⟩

def ofInline (span : Inline) : Part := ⟨span.parts.1, span.shown, span.parts.2.2, span.shown⟩

theorem ofInline_raw (span : Inline) : (ofInline span).raw = span.raw := rfl

end Part

/-- The markers of a quote, and the text behind them. -/
def quoteSplit : List Char → List Char × List Char
  | [] => ([], [])
  | c :: rest =>
      if c = '>' then
        match rest with
        | [] => (['>'], [])
        | d :: after =>
            if d = ' ' then
              let cut := quoteSplit after
              ('>' :: ' ' :: cut.1, cut.2)
            else
              let cut := quoteSplit (d :: after)
              ('>' :: cut.1, cut.2)
      else ([], c :: rest)

theorem quotePrefixLen_other {b : UInt8} (h : b ≠ byte '>') (bs : List UInt8) :
    quotePrefixLen (b :: bs) = 0 := by
  cases bs <;> rw [quotePrefixLen, if_neg h]

theorem quoteSplit_other {c : Char} (h : c ≠ '>') (rest : List Char) :
    quoteSplit (c :: rest) = ([], c :: rest) := by
  cases rest <;> rw [quoteSplit, if_neg h]

/-- The bytes of the markers. -/
theorem quotePrefixLen_eq (text : List Char) :
    quotePrefixLen (asBytes text) = lenUtf8 (quoteSplit text).1 ∧
      (quoteSplit text).1 ++ (quoteSplit text).2 = text := by
  induction text using quoteSplit.induct with
  | case1 => exact ⟨rfl, rfl⟩
  | case2 => exact ⟨by decide, rfl⟩
  | case3 after ih =>
      rw [asBytes_ascii (by decide), asBytes_ascii (by decide)]
      simp only [quotePrefixLen, quoteSplit, firstByte_ascii (by decide : Char.toNat '>' < 128),
        firstByte_ascii (by decide : Char.toNat ' ' < 128), if_true, List.cons_append, ih.1, ih.2,
        lenUtf8_cons, utf8Size_ascii (by decide : Char.toNat '>' < 128),
        utf8Size_ascii (by decide : Char.toNat ' ' < 128), and_true]
      omega
  | case4 d after hd ih =>
      have hspace : firstByte d ≠ byte ' ' := fun h => hd ((firstByte_eq (by decide)).1 h)
      obtain ⟨bs, hbytes, -⟩ := encode_cons d
      rw [asBytes_ascii (by decide)]
      rw [asBytes_cons, hbytes, List.cons_append] at ih ⊢
      simp only [quotePrefixLen, quoteSplit, firstByte_ascii (by decide : Char.toNat '>' < 128),
        if_true, if_neg hspace, if_neg hd, List.cons_append, ih.1, ih.2, lenUtf8_cons,
        utf8Size_ascii (by decide : Char.toNat '>' < 128), and_true]
      omega
  | case5 c rest hc =>
      have hne : firstByte c ≠ byte '>' := fun h => hc ((firstByte_eq (by decide)).1 h)
      obtain ⟨bs, hbytes, -⟩ := encode_cons c
      rw [asBytes_cons, hbytes, List.cons_append]
      rw [quotePrefixLen_other hne, quoteSplit_other hc]
      exact ⟨rfl, rfl⟩

/-- The marker of an unordered item, and the text behind it. -/
def bulletSplit : List Char → Option (List Char × List Char)
  | c :: d :: item =>
      if (c = '-' ∨ c = '*' ∨ c = '+') ∧ d = ' ' then some ([c, d], item) else none
  | _ => none

def orderedSplit (text : List Char) : Option (List Char × List Char) :=
  let digits := text.takeWhile Char.isDigit
  if digits = [] then none
  else
    match text.dropWhile Char.isDigit with
    | sep :: space :: item =>
        if (sep = '.' ∨ sep = ')') ∧ space = ' ' then some (digits ++ [sep, space], item) else none
    | _ => none

theorem bulletMarker_eq (text : List Char) :
    (bulletMarker (asBytes text)).isSome = (bulletSplit text).isSome := by
  cases text with
  | nil => rfl
  | cons c text =>
      rcases Nat.lt_or_ge c.toNat 128 with hc | hc
      · rw [asBytes_ascii hc]
        cases text with
        | nil => rfl
        | cons d item =>
            obtain ⟨bs, hbytes, -⟩ := encode_cons d
            rw [asBytes_cons, hbytes, List.cons_append, bulletMarker, bulletSplit]
            simp only [firstByte_eq (by decide : Char.toNat '-' < 128),
              firstByte_eq (by decide : Char.toNat '*' < 128),
              firstByte_eq (by decide : Char.toNat '+' < 128),
              firstByte_eq (by decide : Char.toNat ' ' < 128)]
            split <;> rfl
      · -- no marker begins with a character that is not ASCII
        have hne : ∀ {t : Char}, t.toNat < 128 → firstByte c ≠ byte t := by
          intro t ht heq
          rw [(firstByte_eq ht).1 heq] at hc
          omega
        have hbullet : bulletSplit (c :: text) = none := by
          cases text with
          | nil => rfl
          | cons d item =>
              rw [bulletSplit, if_neg]
              rintro ⟨rfl | rfl | rfl, -⟩ <;> exact absurd hc (by decide)
        obtain ⟨bs, hbytes, -⟩ := encode_cons c
        rw [asBytes_cons, hbytes, List.cons_append, hbullet]
        cases bs ++ asBytes text with
        | nil => rfl
        | cons b bs =>
            have hno : ¬ ((firstByte c = byte '-' ∨ firstByte c = byte '*' ∨
                firstByte c = byte '+') ∧ b = byte ' ') := by
              rintro ⟨h | h | h, -⟩
              · exact hne (by decide) h
              · exact hne (by decide) h
              · exact hne (by decide) h
            rw [bulletMarker, if_neg hno]
            rfl

theorem isAsciiDigit_firstByte (c : Char) : isAsciiDigit (firstByte c) = c.isDigit := by
  rcases Nat.lt_or_ge c.toNat 128 with hc | hc
  · have hbyte : (firstByte c).toNat = c.toNat := by
      rw [firstByte_ascii hc, byte, UInt8.toNat_ofNat', Nat.mod_eq_of_lt (by omega)]
    rw [isAsciiDigit, Char.isDigit, Bool.eq_iff_iff]
    simp only [Bool.and_eq_true, decide_eq_true_eq, UInt8.le_iff_toNat_le, hbyte,
      UInt32.le_iff_toNat_le, ge_iff_le]
    rfl
  · have hhigh := firstByte_high hc
    have hno : ¬ firstByte c ≤ byte '9' := by
      rw [UInt8.le_iff_toNat_le, show (byte '9').toNat = 57 by decide]
      omega
    have hno' : ¬ c.val ≤ '9'.val := by
      rw [UInt32.le_iff_toNat_le]
      show ¬ c.toNat ≤ 57
      omega
    rw [isAsciiDigit, Char.isDigit, decide_eq_false hno, decide_eq_false hno', Bool.and_false,
      Bool.and_false]

theorem isDigit_ascii {c : Char} (h : c.isDigit = true) : c.toNat < 128 := by
  rw [← isAsciiDigit_firstByte, isAsciiDigit, Bool.and_eq_true, decide_eq_true_eq,
    decide_eq_true_eq] at h
  by_contra hwide
  have hhigh := firstByte_high (Nat.le_of_not_lt hwide)
  have hle := UInt8.le_iff_toNat_le.1 h.2
  rw [show (byte '9').toNat = 57 by decide] at hle
  omega

theorem orderedMarker_eq (text : List Char) :
    (orderedMarker (asBytes text)).map (fun marker => marker.1 + 2) =
      (orderedSplit text).map fun cut => lenUtf8 cut.1 := by
  have hdigits : ((asBytes text).takeWhile isAsciiDigit).length =
      lenUtf8 (text.takeWhile Char.isDigit) := by
    rw [takeWhile_asBytes isAsciiDigit_firstByte (fun _ => isDigit_ascii), length_asBytes]
  have htext : text.takeWhile Char.isDigit ++ text.dropWhile Char.isDigit = text :=
    List.takeWhile_append_dropWhile
  have hempty : lenUtf8 (text.takeWhile Char.isDigit) = 0 ↔ text.takeWhile Char.isDigit = [] := by
    rw [← length_asBytes, List.length_eq_zero_iff]
    cases text.takeWhile Char.isDigit with
    | nil => simp
    | cons c rest => simp [String.utf8EncodeChar_ne_nil]
  have hfirst := byte_at (text.takeWhile Char.isDigit) (text.dropWhile Char.isDigit)
  have hsecond : ∀ {sep rest}, text.dropWhile Char.isDigit = sep :: rest → sep.toNat < 128 →
      (asBytes text)[lenUtf8 (text.takeWhile Char.isDigit) + 1]? = rest.head?.map firstByte := by
    intro sep rest hrest hsep
    rw [← byte_behind (text.takeWhile Char.isDigit) (utf8Size_ascii hsep) rest, ← hrest, htext]
  rw [htext] at hfirst
  simp only [orderedMarker, orderedSplit, hdigits, hempty, hfirst]
  split
  · rfl
  · cases hrest : text.dropWhile Char.isDigit with
    | nil => rfl
    | cons sep rest =>
        by_cases hsep : sep = '.' ∨ sep = ')'
        · have hascii : sep.toNat < 128 := by
            rcases hsep with rfl | rfl <;> decide
          rw [hsecond hrest hascii]
          cases rest with
          | nil => rfl
          | cons space item =>
              simp only [List.head?_cons, Option.map_some, firstByte_eq (by decide : Char.toNat '.' < 128),
                firstByte_eq (by decide : Char.toNat ')' < 128),
                firstByte_eq (by decide : Char.toNat ' ' < 128)]
              split
              · next hspace =>
                have hone : space.utf8Size = 1 := by
                  rw [hspace.2]
                  rfl
                simp [utf8Size_ascii hascii, hone]
              · rfl
        · have hno : ¬ (firstByte sep = byte '.' ∨ firstByte sep = byte ')') := by
            rw [firstByte_eq (by decide : Char.toNat '.' < 128),
              firstByte_eq (by decide : Char.toNat ')' < 128)]
            exact hsep
          cases (asBytes text)[lenUtf8 (text.takeWhile Char.isDigit) + 1]? with
          | none => cases rest <;> simp [hsep]
          | some b => cases rest <;> simp [hsep, hno]

/-- A list marker, and the text behind it. -/
def markerSplit (text : List Char) : Option (List Char × List Char) :=
  bulletSplit text <|> orderedSplit text

theorem bulletSplit_eq {text marker item : List Char} (h : bulletSplit text = some (marker, item)) :
    text = marker ++ item ∧ ∃ c, (c = '-' ∨ c = '*' ∨ c = '+') ∧ marker = [c, ' '] := by
  rcases text with _ | ⟨c, _ | ⟨d, rest⟩⟩
  · cases h
  · cases h
  · rw [bulletSplit] at h
    split at h
    · next hc =>
      cases h
      exact ⟨rfl, c, hc.1, by rw [hc.2]⟩
    · cases h

theorem orderedSplit_eq {text marker item : List Char} (h : orderedSplit text = some (marker, item)) :
    text = marker ++ item ∧ ∃ d rest, d.isDigit = true ∧ marker = d :: rest := by
  have htext : text.takeWhile Char.isDigit ++ text.dropWhile Char.isDigit = text :=
    List.takeWhile_append_dropWhile
  rw [orderedSplit] at h
  split at h
  · cases h
  · next hdigits =>
    split at h
    · next sep space rest hrest =>
      split at h
      · cases h
        constructor
        · rw [List.append_assoc, List.cons_append, List.cons_append, List.nil_append, ← hrest, htext]
        · cases htake : text.takeWhile Char.isDigit with
          | nil => exact absurd htake hdigits
          | cons d more =>
              have hd : d ∈ text.takeWhile Char.isDigit := by
                rw [htake]
                exact List.mem_cons_self
              exact ⟨d, _, List.mem_takeWhile_imp hd, List.cons_append ..⟩
      · cases h
    · cases h

theorem markerSplit_eq {text marker item : List Char} (h : markerSplit text = some (marker, item)) :
    text = marker ++ item ∧
      ((∃ c, (c = '-' ∨ c = '*' ∨ c = '+') ∧ marker = [c, ' ']) ∨
        ∃ d rest, d.isDigit = true ∧ marker = d :: rest) := by
  rw [markerSplit] at h
  cases hbullet : bulletSplit text with
  | some cut =>
      rw [hbullet] at h
      cases h
      obtain ⟨htext, hmarker⟩ := bulletSplit_eq hbullet
      exact ⟨htext, .inl hmarker⟩
  | none =>
      rw [hbullet] at h
      obtain ⟨htext, hmarker⟩ := orderedSplit_eq h
      exact ⟨htext, .inr hmarker⟩

theorem listMarkerLen_eq (text : List Char) :
    listMarkerLen (asBytes text) = (markerSplit text).map fun cut => lenUtf8 cut.1 := by
  have hordered := orderedMarker_eq text
  rw [listMarkerLen, markerSplit, bulletMarker_eq]
  cases hbullet : bulletSplit text with
  | none => exact hordered
  | some cut =>
      obtain ⟨-, c, hc, hmarker⟩ := bulletSplit_eq (show bulletSplit text = some (cut.1, cut.2) from hbullet)
      have htwo : lenUtf8 cut.1 = 2 := by
        rw [hmarker]
        rcases hc with rfl | rfl | rfl <;> rfl
      rw [Option.isSome_some, if_pos rfl, ← htwo]
      rfl

/-! ### A line in parts -/

/-- What a heading hides, and what it shows. -/
def headingSplit (line : List Char) : Option (List Char × List Char) :=
  let hashes := (trimStart line).takeWhile (· = '#')
  let after := (trimStart line).dropWhile (· = '#')
  let lead := line.takeWhile isWhitespace ++ hashes
  if hashes = [] ∨ 6 < hashes.length then none
  else if after ≠ [] ∧ after.head? ≠ some ' ' then none
  else if after.head? = some ' ' then some (lead ++ [' '], after.tail)
  else some (lead, after)

/-- What is shown of a list marker. -/
def markerPart (marker : List Char) : Part :=
  ⟨[], marker, [], if marker.head?.any Char.isDigit then marker else ['\u2022', ' ']⟩

/-- A line outside a fence. -/
def lineParts (line : List Char) : List Part :=
  match headingSplit line with
  | some (lead, text) => [⟨lead, text, [], text⟩]
  | none =>
      if isHorizontalRule line then [.verbatim line]
      else
        let rest := trimStart line
        let ws := Part.verbatim (line.takeWhile isWhitespace)
        if (quoteSplit rest).1 ≠ [] then
          ws :: .hidden (quoteSplit rest).1 :: (inlines (quoteSplit rest).2).map .ofInline
        else
          match markerSplit rest with
          | some (marker, item) => ws :: markerPart marker :: (inlines item).map .ofInline
          | none => ws :: (inlines rest).map .ofInline

theorem inlines_parts (text : List Char) :
    ((inlines text).map Part.ofInline).flatMap Part.raw = text := by
  rw [List.flatMap_map]
  exact inlines_raw text

theorem takeWhile_trimStart (line : List Char) :
    line.takeWhile isWhitespace ++ trimStart line = line := List.takeWhile_append_dropWhile

theorem headingSplit_eq {line lead text : List Char} (h : headingSplit line = some (lead, text)) :
    lead ++ text = line := by
  have hline := takeWhile_trimStart line
  have htrim : (trimStart line).takeWhile (· = '#') ++ (trimStart line).dropWhile (· = '#') =
      trimStart line := List.takeWhile_append_dropWhile
  rw [headingSplit] at h
  split at h
  · cases h
  · split at h
    · cases h
    · split at h
      · next hspace =>
        cases h
        obtain ⟨rest, hrest⟩ := List.head?_eq_some_iff.1 hspace
        rw [hrest] at htrim ⊢
        rw [List.tail_cons, List.append_assoc, List.append_assoc, List.singleton_append, htrim, hline]
      · cases h
        rw [List.append_assoc, htrim, hline]

/-- The parts are the line. -/
theorem lineParts_raw (line : List Char) : (lineParts line).flatMap Part.raw = line := by
  have hline := takeWhile_trimStart line
  rw [lineParts]
  cases hheading : headingSplit line with
  | some cut =>
      have htext := headingSplit_eq (show headingSplit line = some (cut.1, cut.2) from hheading)
      simp [Part.raw, htext]
  | none =>
      dsimp only
      split
      · simp [Part.raw, Part.verbatim]
      · split
        · rw [List.flatMap_cons, List.flatMap_cons, inlines_parts]
          simp [Part.raw, Part.verbatim, Part.hidden, (quotePrefixLen_eq (trimStart line)).2, hline]
        · cases hmarker : markerSplit (trimStart line) with
          | some cut =>
              obtain ⟨htext, -⟩ :=
                markerSplit_eq (show markerSplit (trimStart line) = some (cut.1, cut.2) from hmarker)
              dsimp only
              rw [List.flatMap_cons, List.flatMap_cons, inlines_parts]
              simp [Part.raw, Part.verbatim, markerPart, ← htext, hline]
          | none =>
              dsimp only
              rw [List.flatMap_cons, inlines_parts]
              simp [Part.raw, Part.verbatim, hline]

/-! ### The segments are the parts -/

section segments

variable (theme : Theme) (strip : Bool)

/-- The text of segments. -/
def textOf (segs : List Segment) : List Char := segs.flatMap Prod.fst

theorem runOf_text (base : Style) (acc : List Char) : textOf (runOf base acc) = acc := by
  rw [runOf]
  split
  · next hempty =>
    rw [hempty]
    rfl
  · simp [textOf]

/-- What a part comes to in this mode. -/
def Part.inMode (part : Part) : List Char := if strip then part.shown else part.raw

theorem segmentsOf_text (base : Style) (acc : List Char) (spans : List Inline) :
    textOf (segmentsOf theme strip base acc spans) =
      acc ++ (spans.map Part.ofInline).flatMap (Part.inMode strip) := by
  induction spans generalizing acc with
  | nil =>
      rw [segmentsOf, runOf_text, List.map_nil, List.flatMap_nil, List.append_nil]
  | cons span spans ih =>
      rw [List.map_cons, List.flatMap_cons]
      by_cases hopen : span.parts.1 = []
      · cases span with
        | plain c =>
            rw [segmentsOf, ih]
            cases strip <;> simp [Part.inMode, Part.ofInline, Part.raw, Inline.parts, Inline.shown]
        | code _ => cases hopen
        | bold _ => cases hopen
        | italic _ _ => cases hopen
        | strike _ => cases hopen
        | link _ _ => cases hopen
      · rw [segmentsOf_span hopen, textOf, List.flatMap_append, List.flatMap_cons]
        have hrest := ih []
        rw [textOf] at hrest
        rw [hrest, ← textOf, runOf_text]
        cases strip <;> rfl

/-- The tokenizer's segments are the parts of the text. -/
theorem tokenizeInline_text (base : Style) (text : List Char) :
    ∃ segs, tokenizeInline theme strip base text = some segs ∧
      textOf segs = ((inlines text).map Part.ofInline).flatMap (Part.inMode strip) :=
  ⟨_, tokenizeInline_eq theme strip base text, segmentsOf_text theme strip base [] _⟩

theorem tryHeading_eq (line : List Char) :
    match headingSplit line with
    | some (_, text) => ∃ style,
        tryHeading theme strip line = some (some [(if strip then text else line, style)])
    | none => tryHeading theme strip line = some none := by
  have htrim : (trimStart line).takeWhile (· = '#') ++ (trimStart line).dropWhile (· = '#') =
      trimStart line := List.takeWhile_append_dropWhile
  have hascii : ∀ c ∈ (trimStart line).takeWhile (· = '#'), c.toNat < 128 := by
    intro c hc
    have heq : c = '#' := by simpa using List.mem_takeWhile_imp hc
    rw [heq]
    decide
  have hafter : sliceFrom (trimStart line) ((trimStart line).takeWhile (· = '#')).length =
      some ((trimStart line).dropWhile (· = '#')) := by
    have hcut := sliceFrom_lenUtf8 ((trimStart line).takeWhile (· = '#'))
      ((trimStart line).dropWhile (· = '#'))
    rwa [htrim, lenUtf8_of_ascii hascii] at hcut
  simp only [tryHeading, headingSplit, hafter, List.length_eq_zero_iff, Option.bind_eq_bind,
    Option.bind_some]
  by_cases hlevel : (trimStart line).takeWhile (· = '#') = [] ∨
      6 < ((trimStart line).takeWhile (· = '#')).length
  · rw [if_pos hlevel, if_pos hlevel]
  · rw [if_neg hlevel, if_neg hlevel]
    by_cases hspace : (trimStart line).dropWhile (· = '#') ≠ [] ∧
        ((trimStart line).dropWhile (· = '#')).head? ≠ some ' '
    · rw [if_pos hspace, if_pos hspace]
    · rw [if_neg hspace, if_neg hspace]
      -- between one and six markers: there is a style for them
      have hlt : ((trimStart line).takeWhile (· = '#')).length - 1 < 6 := by omega
      rw [Vector.getElem?_eq_getElem hlt]
      dsimp only [Option.bind_some]
      by_cases hlead : ((trimStart line).dropWhile (· = '#')).head? = some ' '
      · rw [if_pos hlead]
        cases strip with
        | false => exact ⟨_, rfl⟩
        | true =>
            rw [if_pos rfl, if_pos hlead]
            exact ⟨_, rfl⟩
      · rw [if_neg hlead]
        cases strip with
        | false => exact ⟨_, rfl⟩
        | true =>
            rw [if_pos rfl, if_neg hlead]
            exact ⟨_, rfl⟩

theorem leading_ws (line : List Char) :
    lenUtf8 line - lenUtf8 (trimStart line) = lenUtf8 (line.takeWhile isWhitespace) := by
  have hline := congrArg lenUtf8 (takeWhile_trimStart line)
  rw [lenUtf8_append] at hline
  omega

theorem lineParts_nil : lineParts [] = [.verbatim []] := by
  have hinlines := inlines_nil
  simp [lineParts, headingSplit, trimStart, isHorizontalRule, trimText, quoteSplit, markerSplit,
    bulletSplit, orderedSplit, hinlines]

theorem textOf_append (segs more : List Segment) : textOf (segs ++ more) = textOf segs ++ textOf more :=
  List.flatMap_append

/-- The white space before the rest of a line. -/
theorem leading_segment (line : List Char) : ∃ ws,
    leadingWs theme line (lenUtf8 line - lenUtf8 (trimStart line)) = some ws ∧
      textOf ws = line.takeWhile isWhitespace := by
  rw [leading_ws, leadingWs]
  have hcut := sliceStr_lenUtf8 [] (line.takeWhile isWhitespace) (trimStart line)
  rw [List.nil_append, takeWhile_trimStart, lenUtf8_nil, Nat.zero_add] at hcut
  rw [hcut]
  split
  · exact ⟨_, rfl, by simp [textOf]⟩
  · next hnone =>
    refine ⟨[], rfl, ?_⟩
    cases htake : line.takeWhile isWhitespace with
    | nil => rfl
    | cons c ws =>
        have hpos := c.utf8Size_pos
        rw [htake, lenUtf8_cons] at hnone
        omega

theorem leading_rest (line : List Char) :
    sliceFrom line (lenUtf8 line - lenUtf8 (trimStart line)) = some (trimStart line) := by
  have hcut := sliceFrom_lenUtf8 (line.takeWhile isWhitespace) (trimStart line)
  rwa [takeWhile_trimStart, ← leading_ws] at hcut

/-- The marker of an item, raw or as a bullet. -/
theorem shownMarker_eq {text marker item : List Char} (h : markerSplit text = some (marker, item)) :
    shownMarker strip marker = some ((markerPart marker).inMode strip) := by
  obtain ⟨-, hmarker⟩ := markerSplit_eq h
  cases strip with
  | false => simp [shownMarker, Part.inMode, Part.raw, markerPart]
  | true =>
      rcases hmarker with ⟨c, hc, rfl⟩ | ⟨d, rest, hd, rfl⟩
      · rcases hc with rfl | rfl | rfl <;> decide
      · have hdigit := isAsciiDigit_firstByte d
        obtain ⟨bs, hbytes, -⟩ := encode_cons d
        simp [shownMarker, Part.inMode, markerPart, hbytes, hdigit, hd]

/-- No cut of a line is inside a character, and the segments are the parts. -/
theorem highlightSourceLine_text (line : List Char) :
    ∃ segs, highlightSourceLine theme strip line = some segs ∧
      textOf segs = (lineParts line).flatMap (Part.inMode strip) := by
  rw [highlightSourceLine]
  split
  · next hempty =>
    rw [hempty, lineParts_nil]
    exact ⟨_, rfl, by cases strip <;> rfl⟩
  · have hheading := tryHeading_eq theme strip line
    rw [lineParts]
    cases hsplit : headingSplit line with
    | some cut =>
        rw [hsplit] at hheading
        obtain ⟨style, htry⟩ := hheading
        rw [htry]
        refine ⟨_, rfl, ?_⟩
        have htext := headingSplit_eq (show headingSplit line = some (cut.1, cut.2) from hsplit)
        cases strip with
        | false => simp [textOf, Part.inMode, Part.raw, htext]
        | true => simp [textOf, Part.inMode]
    | none =>
        rw [hsplit] at hheading
        rw [hheading]
        dsimp only [Option.bind_eq_bind, Option.bind_some]
        by_cases hrule : isHorizontalRule line = true
        · rw [if_pos hrule, if_pos hrule]
          refine ⟨_, rfl, ?_⟩
          cases strip <;> simp [textOf, Part.inMode, Part.verbatim, Part.raw]
        · rw [if_neg hrule, if_neg hrule]
          obtain ⟨ws, hws, hwsText⟩ := leading_segment theme line
          obtain ⟨hquoteLen, hquoteText⟩ := quotePrefixLen_eq (trimStart line)
          have hquote := splitAt_lenUtf8 (quoteSplit (trimStart line)).1 (quoteSplit (trimStart line)).2
          rw [hquoteText, ← hquoteLen] at hquote
          rw [hws, leading_rest]
          dsimp only [Option.bind_some]
          rw [hquote]
          dsimp only [Option.bind_some]
          have hwsMode : (Part.verbatim (line.takeWhile isWhitespace)).inMode strip = textOf ws := by
            rw [hwsText]
            cases strip <;> simp [Part.inMode, Part.verbatim, Part.raw]
          by_cases hbar : (quoteSplit (trimStart line)).1 ≠ []
          · -- a quote: the markers are hidden in stripped mode
            rw [if_pos hbar, if_pos hbar]
            obtain ⟨quoted, hquoted, htext⟩ :=
              tokenizeInline_text theme strip theme.blockquoteText (quoteSplit (trimStart line)).2
            rw [hquoted]
            refine ⟨_, rfl, ?_⟩
            rw [List.flatMap_cons, List.flatMap_cons, hwsMode, ← htext, textOf_append]
            cases strip <;>
              simp [textOf, List.flatMap_map, Part.inMode, Part.hidden, Part.raw]
          · rw [if_neg hbar, if_neg hbar, listMarkerLen_eq]
            cases hmarker : markerSplit (trimStart line) with
            | some cut =>
                obtain ⟨marker, item⟩ := cut
                obtain ⟨hcut, -⟩ := markerSplit_eq hmarker
                have hslice := sliceStr_lenUtf8 [] marker item
                have hfrom := sliceFrom_lenUtf8 marker item
                rw [List.nil_append, ← hcut, lenUtf8_nil, Nat.zero_add] at hslice
                rw [← hcut] at hfrom
                obtain ⟨segs, hsegs, htext⟩ := tokenizeInline_text theme strip theme.paragraph item
                dsimp only [Option.map_some]
                rw [hslice, hfrom]
                dsimp only [Option.bind_some]
                rw [shownMarker_eq strip hmarker, hsegs]
                refine ⟨_, rfl, ?_⟩
                rw [List.flatMap_cons, List.flatMap_cons, hwsMode, ← htext, textOf_append]
                rfl
            | none =>
                obtain ⟨segs, hsegs, htext⟩ :=
                  tokenizeInline_text theme strip theme.paragraph (trimStart line)
                dsimp only [Option.map_none]
                rw [hsegs]
                refine ⟨_, rfl, ?_⟩
                rw [List.flatMap_cons, hwsMode, ← htext, textOf_append]

end segments

/-! ### Fences -/

/-- The markers of an opening fence are one ASCII character. -/
theorem fenceLang_some {line : List Char} (h : opensOrClosesFence line = true) :
    ∃ lang, fenceLang line = some lang := by
  obtain ⟨c, rest, hc, htrim⟩ : ∃ c rest, c.toNat < 128 ∧ trimStart line = c :: rest := by
    rw [opensOrClosesFence, Bool.or_eq_true, List.isPrefixOf_iff_prefix, List.isPrefixOf_iff_prefix] at h
    rcases h with ⟨rest, hrest⟩ | ⟨rest, hrest⟩
    · exact ⟨_, _, by decide, hrest.symm⟩
    · exact ⟨_, _, by decide, hrest.symm⟩
  have hbytes : (asBytes (trimStart line)).takeWhile (· = firstByte c) =
      asBytes ((trimStart line).takeWhile (· = c)) := by
    refine takeWhile_asBytes (fun d => ?_) (fun d hd => ?_) _
    · rw [firstByte_ascii hc]
      exact decide_eq_decide.2 (firstByte_eq hc)
    · rw [of_decide_eq_true hd]
      exact hc
  have hcut := sliceFrom_lenUtf8 ((trimStart line).takeWhile (· = c))
    ((trimStart line).dropWhile (· = c))
  rw [List.takeWhile_append_dropWhile] at hcut
  rw [fenceLang, head?_asBytes, show (trimStart line).head? = some c by rw [htrim]; rfl]
  dsimp only [Option.map_some, Option.bind_eq_bind, Option.bind_some]
  rw [hbytes, length_asBytes, hcut]
  exact ⟨_, rfl⟩

/-- A line and the fence that it leaves; no cut is inside a character. -/
theorem highlightOneLine_some (theme : Theme) (strip : Bool) (hl : Option Highlighter)
    (line : List Char) (fence : FenceState) :
    ∃ segs next, highlightOneLine theme strip hl line fence = some (segs, next) := by
  rw [highlightOneLine]
  cases fence.inFence with
  | true => cases opensOrClosesFence line <;> exact ⟨_, _, rfl⟩
  | false =>
      cases hopens : opensOrClosesFence line with
      | true =>
          obtain ⟨lang, hlang⟩ := fenceLang_some hopens
          rw [hlang]
          exact ⟨_, _, rfl⟩
      | false =>
          obtain ⟨segs, hsegs, -⟩ := highlightSourceLine_text theme strip line
          rw [hsegs]
          exact ⟨_, _, rfl⟩

/-- The segments of a line outside a fence. -/
theorem highlightOneLine_text (theme : Theme) (strip : Bool) (hl : Option Highlighter)
    (line : List Char) {fence : FenceState} (hfence : fence.inFence = false) :
    ∃ segs next, highlightOneLine theme strip hl line fence = some (segs, next) ∧
      textOf segs = if opensOrClosesFence line then (if strip then [] else line)
        else (lineParts line).flatMap (Part.inMode strip) := by
  rw [highlightOneLine, hfence]
  cases hopens : opensOrClosesFence line with
  | true =>
      obtain ⟨lang, hlang⟩ := fenceLang_some hopens
      rw [hlang]
      refine ⟨_, _, rfl, ?_⟩
      simp [textOf]
  | false =>
      obtain ⟨segs, hsegs, htext⟩ := highlightSourceLine_text theme strip line
      rw [hsegs]
      exact ⟨_, _, rfl, htext⟩

/-- A theme without colours. -/
def plainTheme : Theme where
  heading := Vector.replicate 6 {}
  paragraph := {}
  bold := {}
  italic := {}
  strikethrough := {}
  codeInline := {}
  codeBlockBg := {}
  blockquoteBar := {}
  blockquoteText := {}
  link := {}
  horizontalRule := {}
  listMarker := {}

/-! ### Conservation -/

/-- A subsequence of the line, with a bullet for one unordered list marker
at most. -/
def ShownOf (line text : List Char) : Prop :=
  text.Sublist line ∨ ∃ before marker item shown,
    (marker = '-' ∨ marker = '*' ∨ marker = '+') ∧ line = before ++ [marker, ' '] ++ item ∧
      text = before ++ ['\u2022', ' '] ++ shown ∧ shown.Sublist item

theorem inlines_shown (text : List Char) :
    (((inlines text).map Part.ofInline).flatMap (Part.inMode true)).Sublist text := by
  have hparts : ∀ spans : List Inline,
      ((spans.map Part.ofInline).flatMap (Part.inMode true)).Sublist
        ((spans.map Part.ofInline).flatMap Part.raw) := by
    intro spans
    induction spans with
    | nil => exact List.Sublist.refl _
    | cons span spans ih =>
        rw [List.map_cons, List.flatMap_cons, List.flatMap_cons]
        refine List.Sublist.append ?_ ih
        rw [Part.raw]
        exact (List.sublist_append_right _ _).trans (List.sublist_append_left _ _)
  have h := hparts (inlines text)
  rwa [inlines_parts] at h

theorem lineParts_shown (line : List Char) :
    ShownOf line ((lineParts line).flatMap (Part.inMode true)) := by
  have hline := takeWhile_trimStart line
  rw [lineParts]
  cases hheading : headingSplit line with
  | some cut =>
      have htext := headingSplit_eq (show headingSplit line = some (cut.1, cut.2) from hheading)
      left
      rw [← htext]
      simp [Part.inMode]
  | none =>
      dsimp only
      split
      · left
        simp [Part.inMode, Part.verbatim]
      · split
        · left
          have hquote := (quotePrefixLen_eq (trimStart line)).2
          have hshown := (inlines_shown (quoteSplit (trimStart line)).2).trans
            (List.sublist_append_right (quoteSplit (trimStart line)).1 _)
          rw [hquote] at hshown
          have hall := (List.Sublist.refl (line.takeWhile isWhitespace)).append hshown
          rw [hline] at hall
          simpa [Part.inMode, Part.verbatim, Part.hidden] using hall
        · cases hmarker : markerSplit (trimStart line) with
          | some cut =>
              obtain ⟨marker, item⟩ := cut
              obtain ⟨htext, hkind⟩ := markerSplit_eq hmarker
              rcases hkind with ⟨c, hc, rfl⟩ | ⟨d, rest, hd, rfl⟩
              · right
                refine ⟨line.takeWhile isWhitespace, c, item, _, hc, ?_, ?_, inlines_shown item⟩
                · rw [List.append_assoc, ← htext, hline]
                · rcases hc with rfl | rfl | rfl <;>
                    simp [Part.inMode, Part.verbatim, markerPart]
              · left
                have hall := (List.Sublist.refl (line.takeWhile isWhitespace)).append
                  ((List.Sublist.refl (d :: rest)).append (inlines_shown item))
                rw [← htext, hline] at hall
                simpa [Part.inMode, Part.verbatim, markerPart, hd] using hall
          | none =>
              left
              have hall := (List.Sublist.refl (line.takeWhile isWhitespace)).append
                (inlines_shown (trimStart line))
              rw [hline] at hall
              simpa [Part.inMode, Part.verbatim] using hall

/-- Highlighting without a syntax highlighter: raw segments are the line,
stripped ones of a line outside fences show it, and no cut is inside a
character. -/
theorem highlight_conserves (theme : Theme) (line : List Char) (fence : FenceState) :
    (∃ segs next, highlightOneLine theme false none line fence = some (segs, next) ∧
      textOf segs = line) ∧
    ∃ segs next, highlightOneLine theme true none line fence = some (segs, next) ∧
      (fence.inFence = false → ShownOf line (textOf segs)) := by
  constructor
  · cases hfence : fence.inFence with
    | true =>
        rw [highlightOneLine, hfence]
        cases opensOrClosesFence line with
        | true => exact ⟨_, _, rfl, by simp [textOf]⟩
        | false => exact ⟨_, _, rfl, by simp [textOf]⟩
    | false =>
        obtain ⟨segs, next, hsegs, htext⟩ := highlightOneLine_text theme false none line hfence
        refine ⟨segs, next, hsegs, ?_⟩
        rw [htext]
        have hraw := lineParts_raw line
        cases opensOrClosesFence line with
        | true => rfl
        | false => exact hraw
  · cases hfence : fence.inFence with
    | true =>
        obtain ⟨segs, next, hsegs⟩ := highlightOneLine_some theme true none line fence
        exact ⟨segs, next, hsegs, fun h => by cases h⟩
    | false =>
        obtain ⟨segs, next, hsegs, htext⟩ := highlightOneLine_text theme true none line hfence
        refine ⟨segs, next, hsegs, fun _ => ?_⟩
        rw [htext]
        cases opensOrClosesFence line with
        | true => exact .inl (List.nil_sublist line)
        | false => exact lineParts_shown line

end MdHighlight

end Yaldabaoth
