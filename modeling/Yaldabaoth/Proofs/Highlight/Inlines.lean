import Yaldabaoth.Model.MdHighlight

/-!
# `Yaldabaoth.Proofs.Highlight.Inlines`: the spans of a line

The tokenizer searches bytes. Its spans are those that a search character
by character finds (`inlines`), because all delimiters are ASCII and the
bytes of no other character are (`scanIn_asBytes`, `hitAt_boundary`). So a
backslash may take the first byte of a longer character with it: the rest
of that character is passed over anyway.
-/

set_option autoImplicit false

namespace Yaldabaoth

open Utf8Text

namespace MdHighlight

/-! ### The searches -/

/-- The text before the character where the search stops, and the text from
it on. -/
def cutAt (turn : Char → Option Char → Turn) : List Char → Option (List Char × List Char)
  | [] => none
  | [c] =>
      match turn c none with
      | .stop => some ([], [c])
      | _ => none
  | c :: next :: rest =>
      match turn c (some next) with
      | .stop => some ([], c :: next :: rest)
      | .on => (cutAt turn (next :: rest)).map fun cut => (c :: cut.1, cut.2)
      | .past => (cutAt turn rest).map fun cut => (c :: next :: cut.1, cut.2)

/-- A search of bytes does at the first byte of a character what a search of
characters does at the character, and it stops at no other byte. -/
structure Agrees (byteTurn : UInt8 → Option UInt8 → Turn) (turn : Char → Option Char → Turn) :
    Prop where
  first : ∀ c next, byteTurn (firstByte c) (next.map firstByte) = turn c next
  high : ∀ b next, 128 ≤ b.toNat → byteTurn b next = .on
  escape : ∀ c next, turn c next = .past → c.toNat < 128

theorem scanIn_on {byteTurn : UInt8 → Option UInt8 → Turn} {b : UInt8} {bs : List UInt8}
    (i : Nat) (h : byteTurn b bs.head? = .on) :
    scanIn byteTurn (b :: bs) i = scanIn byteTurn bs (i + 1) := by
  cases bs with
  | nil =>
      rw [List.head?_nil] at h
      simp only [scanIn, h]
  | cons next rest =>
      rw [List.head?_cons] at h
      rw [scanIn, h]

/-- The bytes behind the first one of a character are passed over. -/
theorem scanIn_high {byteTurn : UInt8 → Option UInt8 → Turn}
    {turn : Char → Option Char → Turn} (h : Agrees byteTurn turn) {hs : List UInt8}
    (hhigh : ∀ b ∈ hs, 128 ≤ b.toNat) (bs : List UInt8) (i : Nat) :
    scanIn byteTurn (hs ++ bs) i = scanIn byteTurn bs (i + hs.length) := by
  induction hs generalizing i with
  | nil => rfl
  | cons b hs ih =>
      rw [List.cons_append, scanIn_on i (h.high b _ (hhigh b List.mem_cons_self)),
        ih (fun b hb => hhigh b (List.mem_cons_of_mem _ hb)), List.length_cons]
      congr 1
      omega

theorem Agrees.wide {byteTurn : UInt8 → Option UInt8 → Turn}
    {turn : Char → Option Char → Turn} (h : Agrees byteTurn turn) {c : Char}
    (hc : 128 ≤ c.toNat) (next : Option Char) : turn c next = .on := by
  rw [← h.first c next]
  exact h.high _ _ (firstByte_high hc)

/-- A character where both searches go on. -/
theorem scanIn_step {byteTurn : UInt8 → Option UInt8 → Turn}
    {turn : Char → Option Char → Turn} (h : Agrees byteTurn turn) {c : Char} {rest : List Char}
    (hon : turn c rest.head? = .on) (i : Nat) :
    scanIn byteTurn (asBytes (c :: rest)) i = scanIn byteTurn (asBytes rest) (i + c.utf8Size) := by
  rcases Nat.lt_or_ge c.toNat 128 with hc | hc
  · rw [asBytes_ascii hc, utf8Size_ascii hc]
    refine scanIn_on i ?_
    rw [← hon, ← h.first c rest.head?, ← head?_asBytes]
  · rw [asBytes_cons, scanIn_high h (high hc), String.length_utf8EncodeChar]

/-- The search of bytes stops where the search of characters does. -/
theorem scanIn_asBytes {byteTurn : UInt8 → Option UInt8 → Turn}
    {turn : Char → Option Char → Turn} (h : Agrees byteTurn turn) (text : List Char) (i : Nat) :
    scanIn byteTurn (asBytes text) i =
      (cutAt turn text).map fun cut => i + lenUtf8 cut.1 := by
  -- a character where a search does not go on is ASCII
  have hascii : ∀ {c next}, turn c next ≠ .on → c.toNat < 128 := by
    intro c next hturn
    by_contra hwide
    exact hturn (h.wide (Nat.le_of_not_lt hwide) next)
  induction text using cutAt.induct turn generalizing i with
  | case1 => rfl
  | case2 c hstop =>
      have hturn : byteTurn (firstByte c) none = .stop := by
        rw [← hstop]
        exact h.first c none
      rw [asBytes_ascii (hascii (by rw [hstop]; decide)), asBytes_nil]
      simp [scanIn, hturn, cutAt, hstop]
  | case3 c hmore =>
      cases hturn : turn c none with
      | stop => exact absurd hturn hmore
      | on =>
          rw [scanIn_step h hturn]
          simp [scanIn, cutAt, hturn]
      | past =>
          have hbyte : byteTurn (firstByte c) none = .past := by
            rw [← hturn]
            exact h.first c none
          rw [asBytes_ascii (h.escape c none hturn), asBytes_nil]
          simp [scanIn, cutAt, hturn, hbyte]
  | case4 c next rest hstop =>
      obtain ⟨bs, hbytes, -⟩ := encode_cons next
      have hturn : byteTurn (firstByte c) (some (firstByte next)) = .stop := by
        rw [← hstop]
        exact h.first c (some next)
      rw [asBytes_ascii (hascii (by rw [hstop]; decide)), asBytes_cons, hbytes, List.cons_append]
      simp [scanIn, hturn, cutAt, hstop]
  | case5 c next rest hon ih =>
      rw [scanIn_step h hon, ih, cutAt, hon]
      cases cutAt turn (next :: rest) with
      | none => rfl
      | some cut => simp [Nat.add_assoc]
  | case6 c next rest hover ih =>
      -- the first byte of the next character is taken along, and its others are passed over
      obtain ⟨bs, hbytes, hhigh, hsize, -⟩ := encode_cons next
      have hc := h.escape c (some next) hover
      have hone := utf8Size_ascii hc
      have hturn : byteTurn (firstByte c) (some (firstByte next)) = .past := by
        rw [← hover]
        exact h.first c (some next)
      rw [asBytes_ascii hc, asBytes_cons, hbytes, List.cons_append, scanIn, hturn]
      dsimp only
      rw [scanIn_high h hhigh, ih, cutAt, hover]
      cases cutAt turn rest with
      | none => rfl
      | some cut =>
          simp only [Option.map_some, lenUtf8_cons, hone, hsize]
          congr 1
          omega

theorem ne_byte {b : UInt8} {t : Char} (hb : 128 ≤ b.toNat) (ht : t.toNat < 128) :
    b ≠ byte t := by
  rintro rfl
  have := byte_low ht
  omega

theorem map_firstByte_eq {next : Option Char} {t : Char} (ht : t.toNat < 128) :
    next.map firstByte = some (byte t) ↔ next = some t := by
  cases next with
  | none => simp
  | some c => simp [firstByte_eq ht]

section agrees

variable {t : Char} (ht : t.toNat < 128)
include ht

theorem unescaped_agrees :
    Agrees (unescapedTurn (byte '\\') (byte t)) (unescapedTurn '\\' t) where
  first c next := by
    simp only [unescapedTurn, firstByte_eq ht, firstByte_eq (t := '\\') (by decide)]
  high b next hb := by
    rw [unescapedTurn, if_neg (ne_byte hb (by decide)), if_neg (ne_byte hb ht)]
  escape c next h := by
    rw [unescapedTurn] at h
    split at h
    · next hc =>
      rw [hc]
      decide
    · split at h <;> cases h

theorem double_agrees : Agrees (doubleTurn (byte '\\') (byte t)) (doubleTurn '\\' t) where
  first c next := by
    simp only [doubleTurn, firstByte_eq ht, firstByte_eq (t := '\\') (by decide),
      map_firstByte_eq ht]
  high b next hb := by
    rw [doubleTurn, if_neg (ne_byte hb (by decide)), if_neg fun h => ne_byte hb ht h.1]
  escape c next h := by
    rw [doubleTurn] at h
    split at h
    · next hc =>
      rw [hc]
      decide
    · split at h <;> cases h

theorem single_agrees : Agrees (singleTurn (byte '\\') (byte t)) (singleTurn '\\' t) where
  first c next := by
    simp only [singleTurn, firstByte_eq ht, firstByte_eq (t := '\\') (by decide),
      map_firstByte_eq ht]
  high b next hb := by
    rw [singleTurn, if_neg (ne_byte hb (by decide)), if_neg (ne_byte hb ht)]
  escape c next h := by
    rw [singleTurn] at h
    split at h
    · next hc =>
      rw [hc]
      decide
    · split at h
      · next hc =>
        rw [hc]
        exact ht
      · cases h

end agrees

/-- The text is what is before the cut and what is from it on. -/
theorem cutAt_eq {turn : Char → Option Char → Turn} {text front rest : List Char}
    (h : cutAt turn text = some (front, rest)) :
    text = front ++ rest ∧ ∃ c, rest.head? = some c ∧ turn c rest.tail.head? = .stop := by
  induction text using cutAt.induct turn generalizing front rest with
  | case1 => cases h
  | case2 c hstop =>
      simp only [cutAt, hstop] at h
      cases h
      exact ⟨rfl, c, rfl, hstop⟩
  | case3 c hmore =>
      rw [cutAt] at h
      split at h
      · next hstop => exact absurd hstop hmore
      · cases h
  | case4 c next rest' hstop =>
      simp only [cutAt, hstop] at h
      cases h
      exact ⟨rfl, c, rfl, hstop⟩
  | case5 c next rest' hon ih =>
      simp only [cutAt, hon] at h
      obtain ⟨cut, hcut, heq⟩ := Option.map_eq_some_iff.1 h
      cases heq
      obtain ⟨htext, hhead⟩ := ih hcut
      exact ⟨by rw [htext]; rfl, hhead⟩
  | case6 c next rest' hover ih =>
      simp only [cutAt, hover] at h
      obtain ⟨cut, hcut, heq⟩ := Option.map_eq_some_iff.1 h
      cases heq
      obtain ⟨htext, hhead⟩ := ih hcut
      exact ⟨by rw [htext]; rfl, hhead⟩

/-! ### The spans -/

/-- What a line is made of. -/
inductive Inline where
  | plain (c : Char)
  | code (inner : List Char)
  | bold (inner : List Char)
  | italic (marker : Char) (inner : List Char)
  | strike (inner : List Char)
  | link (label target : List Char)
deriving Repr, DecidableEq

namespace Inline

/-- What opens a span, what it shows, and what closes it. -/
def parts : Inline → List Char × List Char × List Char
  | plain c => ([], [c], [])
  | code inner => (['\x60'], inner, ['\x60'])
  | bold inner => (['*', '*'], inner, ['*', '*'])
  | italic marker inner => ([marker], inner, [marker])
  | strike inner => (['~', '~'], inner, ['~', '~'])
  | link label target => (['['], label, ']' :: '(' :: (target ++ [')']))

def shown (span : Inline) : List Char := span.parts.2.1

def raw (span : Inline) : List Char := span.parts.1 ++ span.parts.2.1 ++ span.parts.2.2

end Inline

def codeSpan (text : List Char) : Option (Inline × List Char) :=
  if text.head? = some '\x60' then
    (cutAt (unescapedTurn '\\' '\x60') text.tail).map fun cut => (.code cut.1, cut.2.drop 1)
  else none

def doubledSpan (marker : Char) (span : List Char → Inline) (text : List Char) :
    Option (Inline × List Char) :=
  if text.head? = some marker ∧ text.tail.head? = some marker then
    (cutAt (doubleTurn '\\' marker) text.tail.tail).map fun cut => (span cut.1, cut.2.drop 2)
  else none

def italicSpan (marker : Char) (text : List Char) : Option (Inline × List Char) :=
  if text.head? = some marker then
    (cutAt (singleTurn '\\' marker) text.tail).map fun cut =>
      (.italic marker cut.1, cut.2.drop 1)
  else none

def linkSpan (text : List Char) : Option (Inline × List Char) :=
  if text.head? = some '[' then
    (cutAt (unescapedTurn '\\' ']') text.tail).bind fun label =>
      if label.2.tail.head? = some '(' then
        (cutAt (unescapedTurn '\\' ')') label.2.tail.tail).map fun target =>
          (.link label.1 target.1, target.2.drop 1)
      else none
  else none

/-- The span that a text begins with, and the text behind it. -/
def spanOf (text : List Char) : Option (Inline × List Char) :=
  codeSpan text <|> doubledSpan '*' .bold text <|> italicSpan '*' text <|>
    italicSpan '_' text <|> doubledSpan '~' .strike text <|> linkSpan text

namespace Inline

/-- The style of a span; a character outside has the one around it. -/
def style (theme : Theme) : Inline → Style
  | plain _ => theme.paragraph
  | code _ => theme.codeInline
  | bold _ => theme.bold
  | italic _ _ => theme.italic
  | strike _ => theme.strikethrough
  | link _ _ => theme.link

end Inline

/-- The bytes of a span that was found at a byte offset. -/
def hitOf (theme : Theme) (i : Nat) (span : Inline) : Hit where
  inner := (i + lenUtf8 span.parts.1, i + lenUtf8 span.parts.1 + lenUtf8 span.shown)
  outer := (i, i + lenUtf8 span.raw)
  style := span.style theme

section boundary

variable (theme : Theme) (front : List Char)

theorem byte_at (rest : List Char) :
    (asBytes (front ++ rest))[lenUtf8 front]? = rest.head?.map firstByte := by
  rw [← List.head?_drop, asBytes_drop, head?_asBytes]

/-- Behind an ASCII character. -/
theorem byte_behind {c : Char} (hc : c.utf8Size = 1) (rest : List Char) :
    (asBytes (front ++ c :: rest))[lenUtf8 front + 1]? = rest.head?.map firstByte := by
  have h := byte_at (front ++ [c]) rest
  rw [List.append_assoc, lenUtf8_append, lenUtf8_cons, hc] at h
  exact h

theorem drop_behind {c : Char} (hc : c.utf8Size = 1) (rest : List Char) :
    (asBytes (front ++ c :: rest)).drop (lenUtf8 front + 1) = asBytes rest := by
  have h := asBytes_drop (front ++ [c]) rest
  rw [List.append_assoc, lenUtf8_append, lenUtf8_cons, hc] at h
  exact h

theorem code_at (rest : List Char) : codeAt theme (asBytes (front ++ rest)) (lenUtf8 front) =
    (codeSpan rest).map fun found => hitOf theme (lenUtf8 front) found.1 := by
  rw [codeAt, codeSpan, byte_at]
  simp only [map_firstByte_eq (t := '\x60') (by decide)]
  split
  · next hhead =>
    obtain ⟨rest, rfl⟩ := List.head?_eq_some_iff.1 hhead
    have hone : Char.utf8Size '\x60' = 1 := by decide
    rw [findUnescaped, drop_behind front hone, scanIn_asBytes (unescaped_agrees (by decide)),
      Option.map_map, Option.map_map, List.tail_cons]
    congr 1
    funext cut
    simp [hitOf, Inline.parts, Inline.raw, Inline.shown, Inline.style, hone, Nat.add_assoc,
      Nat.add_comm 1]
  · rfl

theorem doubled_at {marker : Char} (hmarker : marker.toNat < 128) (span : List Char → Inline)
    (hparts : ∀ inner, (span inner).parts = ([marker, marker], inner, [marker, marker]))
    (style : Style) (hstyle : ∀ inner, (span inner).style theme = style) (rest : List Char) :
    doubledAt (byte marker) style (asBytes (front ++ rest)) (lenUtf8 front) =
      (doubledSpan marker span rest).map fun found => hitOf theme (lenUtf8 front) found.1 := by
  have hone : marker.utf8Size = 1 := utf8Size_ascii hmarker
  rw [doubledAt, doubledSpan, byte_at]
  simp only [map_firstByte_eq hmarker]
  by_cases hhead : rest.head? = some marker
  · obtain ⟨rest, rfl⟩ := List.head?_eq_some_iff.1 hhead
    rw [byte_behind front hone]
    simp only [map_firstByte_eq hmarker, List.head?_cons, List.tail_cons, true_and]
    split
    · next hnext =>
      obtain ⟨rest, rfl⟩ := List.head?_eq_some_iff.1 hnext
      have hdrop := drop_behind (front ++ [marker]) hone rest
      rw [List.append_assoc, lenUtf8_append, lenUtf8_cons, hone] at hdrop
      rw [findDouble, show lenUtf8 front + 2 = lenUtf8 front + (1 + lenUtf8 []) + 1 by rfl]
      rw [List.singleton_append] at hdrop
      rw [hdrop, scanIn_asBytes (double_agrees hmarker), Option.map_map, Option.map_map,
        List.tail_cons]
      congr 1
      funext cut
      simp [hitOf, Inline.raw, Inline.shown, hparts, hstyle, hone]
      omega
    · rfl
  · rw [if_neg fun h => hhead h.1, if_neg fun h => hhead h.1]
    rfl

theorem italic_at {marker : Char} (hmarker : marker.toNat < 128) (rest : List Char) :
    italicAt theme (byte marker) (asBytes (front ++ rest)) (lenUtf8 front) =
      (italicSpan marker rest).map fun found => hitOf theme (lenUtf8 front) found.1 := by
  have hone : marker.utf8Size = 1 := utf8Size_ascii hmarker
  rw [italicAt, italicSpan, byte_at]
  simp only [map_firstByte_eq hmarker]
  split
  · next hhead =>
    obtain ⟨rest, rfl⟩ := List.head?_eq_some_iff.1 hhead
    rw [findSingleEmphasis, drop_behind front hone, scanIn_asBytes (single_agrees hmarker),
      Option.map_map, Option.map_map, List.tail_cons]
    congr 1
    funext cut
    simp [hitOf, Inline.parts, Inline.raw, Inline.shown, Inline.style, hone, Nat.add_assoc,
      Nat.add_comm 1]
  · rfl

theorem cutAt_unescaped {t : Char} {text front rest : List Char}
    (h : cutAt (unescapedTurn '\\' t) text = some (front, rest)) :
    text = front ++ t :: rest.tail ∧ rest = t :: rest.tail := by
  obtain ⟨htext, c, hhead, hstop⟩ := cutAt_eq h
  obtain ⟨rest, rfl⟩ := List.head?_eq_some_iff.1 hhead
  rw [unescapedTurn] at hstop
  split at hstop
  · cases hstop
  · split at hstop
    · next hc => exact ⟨by rw [htext, hc]; rfl, by rw [hc]; rfl⟩
    · cases hstop

theorem link_at (rest : List Char) : linkAt theme (asBytes (front ++ rest)) (lenUtf8 front) =
    (linkSpan rest).map fun found => hitOf theme (lenUtf8 front) found.1 := by
  rw [linkAt, linkSpan, byte_at]
  simp only [map_firstByte_eq (t := '[') (by decide)]
  split
  · next hhead =>
    obtain ⟨rest, rfl⟩ := List.head?_eq_some_iff.1 hhead
    have hone : ∀ {c : Char}, c.toNat < 128 → c.utf8Size = 1 := utf8Size_ascii
    rw [findUnescaped, drop_behind front (hone (by decide)),
      scanIn_asBytes (unescaped_agrees (by decide)), List.tail_cons]
    cases hlabel : cutAt (unescapedTurn '\\' ']') rest with
    | none => rfl
    | some label =>
        obtain ⟨label, behind⟩ := label
        obtain ⟨hrest, hbehind⟩ := cutAt_unescaped hlabel
        have htext : front ++ '[' :: rest = (front ++ '[' :: label) ++ ']' :: behind.tail := by
          rw [hrest, List.append_assoc]
          rfl
        have hlen : lenUtf8 (front ++ '[' :: label) = lenUtf8 front + 1 + lenUtf8 label := by
          rw [lenUtf8_append, lenUtf8_cons, hone (by decide), Nat.add_assoc]
        dsimp only [Option.map_some, Option.bind_some]
        have hparen := byte_behind (front ++ '[' :: label) (c := ']') (hone (by decide)) behind.tail
        rw [← htext, hlen] at hparen
        rw [hparen]
        simp only [map_firstByte_eq (t := '(') (by decide)]
        split
        · next hopen =>
          obtain ⟨target, htarget⟩ := List.head?_eq_some_iff.1 hopen
          have hfront : front ++ '[' :: rest = (front ++ '[' :: (label ++ [']'])) ++ '(' :: target := by
            rw [hrest, htarget]
            simp
          have hlen' : lenUtf8 (front ++ '[' :: (label ++ [']'])) + 1 =
              lenUtf8 front + 1 + lenUtf8 label + 2 := by
            simp [hone]
            omega
          have hdrop := drop_behind (front ++ '[' :: (label ++ [']'])) (c := '(') (hone (by decide)) target
          rw [← hfront, hlen'] at hdrop
          rw [findUnescaped, hdrop, scanIn_asBytes (unescaped_agrees (by decide)), Option.map_map,
            Option.map_map, htarget, List.tail_cons]
          congr 1
          funext cut
          simp [hitOf, Inline.parts, Inline.raw, Inline.shown, Inline.style, hone]
          omega
        · rfl
  · rfl

theorem hit_at (rest : List Char) : hitAt theme (asBytes (front ++ rest)) (lenUtf8 front) =
    (spanOf rest).map fun found => hitOf theme (lenUtf8 front) found.1 := by
  rw [hitAt, spanOf, code_at, doubled_at theme front (by decide) .bold (fun _ => rfl) _
    (fun _ => rfl), italic_at theme front (by decide), italic_at theme front (by decide),
    doubled_at theme front (by decide) .strike (fun _ => rfl) _ (fun _ => rfl), link_at]
  cases codeSpan rest <;> cases doubledSpan '*' .bold rest <;> cases italicSpan '*' rest <;>
    cases italicSpan '_' rest <;> cases doubledSpan '~' .strike rest <;> rfl

end boundary

/-- No span begins inside a character. -/
theorem hit_high (theme : Theme) {bs : List UInt8} {i : Nat} {b : UInt8} (hb : bs[i]? = some b)
    (hhigh : 128 ≤ b.toNat) : hitAt theme bs i = none := by
  have hne : ∀ {t : Char}, t.toNat < 128 → bs[i]? ≠ some (byte t) := by
    intro t ht heq
    rw [hb] at heq
    exact ne_byte hhigh ht (Option.some.inj heq)
  rw [hitAt, codeAt, doubledAt, italicAt, italicAt, doubledAt, linkAt, if_neg (hne (by decide)),
    if_neg fun h => hne (by decide) h.1, if_neg (hne (by decide)), if_neg (hne (by decide)),
    if_neg fun h => hne (by decide) h.1, if_neg (hne (by decide))]
  rfl

/-! ### The line as spans -/

theorem cutAt_double {t : Char} {text front rest : List Char}
    (h : cutAt (doubleTurn '\\' t) text = some (front, rest)) :
    text = front ++ t :: t :: rest.tail.tail := by
  obtain ⟨htext, c, hhead, hstop⟩ := cutAt_eq h
  obtain ⟨rest, rfl⟩ := List.head?_eq_some_iff.1 hhead
  rw [doubleTurn] at hstop
  split at hstop
  · cases hstop
  · split at hstop
    · next hboth =>
      obtain ⟨more, hmore⟩ := List.head?_eq_some_iff.1 hboth.2
      rw [List.tail_cons] at hmore
      rw [htext, hboth.1, List.tail_cons, hmore]
      rfl
    · cases hstop

theorem cutAt_single {t : Char} {text front rest : List Char}
    (h : cutAt (singleTurn '\\' t) text = some (front, rest)) :
    text = front ++ t :: rest.tail := by
  obtain ⟨htext, c, hhead, hstop⟩ := cutAt_eq h
  obtain ⟨rest, rfl⟩ := List.head?_eq_some_iff.1 hhead
  rw [singleTurn] at hstop
  split at hstop
  · cases hstop
  · split at hstop
    · next hc =>
      rw [htext, hc]
      rfl
    · cases hstop

theorem codeSpan_eq {text after : List Char} {span : Inline}
    (h : codeSpan text = some (span, after)) :
    text = span.raw ++ after ∧ ∃ inner, span = .code inner := by
  rw [codeSpan] at h
  split at h
  · next hhead =>
    obtain ⟨rest, rfl⟩ := List.head?_eq_some_iff.1 hhead
    obtain ⟨cut, hcut, heq⟩ := Option.map_eq_some_iff.1 h
    cases heq
    obtain ⟨hrest, -⟩ := cutAt_unescaped hcut
    rw [List.tail_cons] at hrest
    refine ⟨?_, _, rfl⟩
    rw [hrest]
    simp [Inline.raw, Inline.parts]
  · cases h

theorem doubledSpan_eq {marker : Char} {make : List Char → Inline}
    (hparts : ∀ inner, (make inner).parts = ([marker, marker], inner, [marker, marker]))
    {text after : List Char} {span : Inline} (h : doubledSpan marker make text = some (span, after)) :
    text = span.raw ++ after ∧ ∃ inner, span = make inner := by
  rw [doubledSpan] at h
  split at h
  · next hhead =>
    obtain ⟨rest, rfl⟩ := List.head?_eq_some_iff.1 hhead.1
    obtain ⟨rest, rfl⟩ := List.head?_eq_some_iff.1 hhead.2
    obtain ⟨cut, hcut, heq⟩ := Option.map_eq_some_iff.1 h
    cases heq
    have hrest := cutAt_double hcut
    have htail : cut.2.tail.tail = cut.2.drop 2 := by
      rw [← List.drop_one, ← List.drop_one, List.drop_drop]
    rw [List.tail_cons, List.tail_cons, htail] at hrest
    refine ⟨?_, _, rfl⟩
    rw [hrest]
    simp [Inline.raw, hparts]
  · cases h

theorem italicSpan_eq {marker : Char} {text after : List Char} {span : Inline}
    (h : italicSpan marker text = some (span, after)) :
    text = span.raw ++ after ∧ ∃ inner, span = .italic marker inner := by
  rw [italicSpan] at h
  split at h
  · next hhead =>
    obtain ⟨rest, rfl⟩ := List.head?_eq_some_iff.1 hhead
    obtain ⟨cut, hcut, heq⟩ := Option.map_eq_some_iff.1 h
    cases heq
    have hrest := cutAt_single hcut
    rw [List.tail_cons] at hrest
    refine ⟨?_, _, rfl⟩
    rw [hrest]
    simp [Inline.raw, Inline.parts]
  · cases h

theorem linkSpan_eq {text after : List Char} {span : Inline}
    (h : linkSpan text = some (span, after)) :
    text = span.raw ++ after ∧ ∃ label target, span = .link label target := by
  rw [linkSpan] at h
  split at h
  · next hhead =>
    obtain ⟨rest, rfl⟩ := List.head?_eq_some_iff.1 hhead
    obtain ⟨label, hlabel, hmore⟩ := Option.bind_eq_some_iff.1 h
    split at hmore
    · next hopen =>
      obtain ⟨cut, hcut, heq⟩ := Option.map_eq_some_iff.1 hmore
      cases heq
      obtain ⟨behind, hbehind⟩ := List.head?_eq_some_iff.1 hopen
      obtain ⟨hrest, -⟩ := cutAt_unescaped hlabel
      obtain ⟨htarget, -⟩ := cutAt_unescaped hcut
      rw [List.tail_cons] at hrest
      rw [hbehind, List.tail_cons] at htarget
      refine ⟨?_, _, _, rfl⟩
      rw [hrest, hbehind, htarget]
      simp [Inline.raw, Inline.parts]
    · cases hmore
  · cases h

/-- A span and what is behind it are the text. -/
theorem spanOf_eq {text after : List Char} {span : Inline} (h : spanOf text = some (span, after)) :
    text = span.raw ++ after ∧ span.parts.1 ≠ [] := by
  rw [spanOf] at h
  cases hcode : codeSpan text with
  | some found =>
      rw [hcode] at h
      cases h
      obtain ⟨htext, inner, rfl⟩ := codeSpan_eq hcode
      exact ⟨htext, List.cons_ne_nil _ _⟩
  | none =>
      cases hbold : doubledSpan '*' .bold text with
      | some found =>
          rw [hcode, hbold] at h
          cases h
          obtain ⟨htext, inner, rfl⟩ := doubledSpan_eq (fun _ => rfl) hbold
          exact ⟨htext, List.cons_ne_nil _ _⟩
      | none =>
          cases hstar : italicSpan '*' text with
          | some found =>
              rw [hcode, hbold, hstar] at h
              cases h
              obtain ⟨htext, inner, rfl⟩ := italicSpan_eq hstar
              exact ⟨htext, List.cons_ne_nil _ _⟩
          | none =>
              cases hline : italicSpan '_' text with
              | some found =>
                  rw [hcode, hbold, hstar, hline] at h
                  cases h
                  obtain ⟨htext, inner, rfl⟩ := italicSpan_eq hline
                  exact ⟨htext, List.cons_ne_nil _ _⟩
              | none =>
                  cases hstrike : doubledSpan '~' .strike text with
                  | some found =>
                      rw [hcode, hbold, hstar, hline, hstrike] at h
                      cases h
                      obtain ⟨htext, inner, rfl⟩ := doubledSpan_eq (fun _ => rfl) hstrike
                      exact ⟨htext, List.cons_ne_nil _ _⟩
                  | none =>
                      rw [hcode, hbold, hstar, hline, hstrike] at h
                      obtain ⟨htext, label, target, rfl⟩ := linkSpan_eq h
                      exact ⟨htext, List.cons_ne_nil _ _⟩

theorem spanOf_length {text after : List Char} {span : Inline}
    (h : spanOf text = some (span, after)) : after.length < text.length := by
  obtain ⟨htext, hopen⟩ := spanOf_eq h
  have := List.length_pos_of_ne_nil hopen
  rw [htext, Inline.raw, List.length_append, List.length_append, List.length_append]
  omega

/-- The spans of a text, and its characters outside them. -/
def inlines (text : List Char) : List Inline :=
  match _h : spanOf text with
  | some (span, after) => span :: inlines after
  | none =>
      match text with
      | [] => []
      | c :: rest => .plain c :: inlines rest
termination_by text.length
decreasing_by
  · exact spanOf_length _h
  · exact Nat.lt_succ_self _

theorem inlines_nil : inlines [] = [] := by
  rw [inlines]
  rfl

theorem inlines_span {text after : List Char} {span : Inline}
    (h : spanOf text = some (span, after)) : inlines text = span :: inlines after := by
  rw [inlines]
  split
  · next heq =>
    rw [h] at heq
    cases heq
    rfl
  · next heq =>
    rw [h] at heq
    cases heq

theorem inlines_plain {c : Char} {rest : List Char} (h : spanOf (c :: rest) = none) :
    inlines (c :: rest) = .plain c :: inlines rest := by
  rw [inlines]
  split
  · next heq =>
    rw [h] at heq
    cases heq
  · rfl

/-- The induction over the spans of a text. -/
theorem inlines_ind {motive : List Char → Prop} (nil : motive [])
    (span : ∀ text span after, spanOf text = some (span, after) → motive after → motive text)
    (plain : ∀ c rest, spanOf (c :: rest) = none → motive rest → motive (c :: rest))
    (text : List Char) : motive text := by
  induction hlen : text.length using Nat.strong_induction_on generalizing text with
  | _ len ih =>
    cases hspan : spanOf text with
    | some found =>
        obtain ⟨found, after⟩ := found
        exact span text found after hspan (ih _ (hlen ▸ spanOf_length hspan) after rfl)
    | none =>
        cases text with
        | nil => exact nil
        | cons c rest =>
            rw [List.length_cons] at hlen
            exact plain c rest hspan (ih rest.length (by omega) rest rfl)

/-- Nothing of the text is lost in its spans. -/
theorem inlines_raw (text : List Char) : (inlines text).flatMap Inline.raw = text := by
  induction text using inlines_ind with
  | nil => rw [inlines_nil, List.flatMap_nil]
  | span text span after h ih =>
      rw [inlines_span h, List.flatMap_cons, ih]
      exact (spanOf_eq h).1.symm
  | plain c rest h ih =>
      rw [inlines_plain h, List.flatMap_cons, ih]
      rfl

end MdHighlight

end Yaldabaoth
