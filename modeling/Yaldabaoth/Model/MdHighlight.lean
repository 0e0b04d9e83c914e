import Mathlib.Data.List.DropRight
import Yaldabaoth.Lib.Utf8Text
import Yaldabaoth.Model.AgentTranscript

/-!
# `Yaldabaoth.Model.MdHighlight`: markdown highlighted line by line

`md_highlight.rs`, with the markers of `md_line.rs` and the styles of
`style.rs`. Texts are cut at byte offsets as in the source; a cut inside a
character is `none`. Of a theme the styles that the highlighter reads are
kept. The syntax highlighter is a function.
-/

set_option autoImplicit false

namespace Yaldabaoth

open Utf8Text

/-! ### Styles -/

inductive Color where
  | reset
  | black
  | red
  | green
  | yellow
  | blue
  | magenta
  | cyan
  | gray
  | darkGray
  | lightRed
  | lightGreen
  | lightYellow
  | lightBlue
  | lightMagenta
  | lightCyan
  | white
  | indexed (n : UInt8)
  | rgb (r g b : UInt8)
deriving Repr, DecidableEq

structure Style where
  fg : Option Color := none
  bg : Option Color := none
  /-- The bits of `Modifier`. -/
  modifier : UInt16 := 0
deriving Repr, DecidableEq

namespace Style

def italicBits : UInt16 := 2

def addModifier (s : Style) (bits : UInt16) : Style := { s with modifier := s.modifier ||| bits }

/-- `other` on top of `s`. -/
def patch (s other : Style) : Style where
  fg := other.fg <|> s.fg
  bg := other.bg <|> s.bg
  modifier := s.modifier ||| other.modifier

end Style

structure Theme where
  heading : Vector Style 6
  paragraph : Style
  bold : Style
  italic : Style
  strikethrough : Style
  codeInline : Style
  codeBlockBg : Style
  blockquoteBar : Style
  blockquoteText : Style
  link : Style
  horizontalRule : Style
  listMarker : Style
deriving Repr, DecidableEq

abbrev Segment := List Char × Style

namespace MdHighlight

/-- `highlight_line_stateless`: language, line and background. -/
abbrev Highlighter := List Char → List Char → Style → Option (List Segment)

structure FenceState where
  inFence : Bool := false
  lang : Option (List Char) := none
deriving Repr, DecidableEq

/-! ### Texts -/

def trimStart (text : List Char) : List Char := text.dropWhile isWhitespace

def trimText (text : List Char) : List Char := (trimStart text).rdropWhile isWhitespace

/-! ### Fences -/

def opensOrClosesFence (line : List Char) : Bool :=
  ['\x60', '\x60', '\x60'].isPrefixOf (trimStart line) || ['~', '~', '~'].isPrefixOf (trimStart line)

/-- The language of an opening fence: the first word behind the markers. -/
def fenceLang (line : List Char) : Option (Option (List Char)) := do
  let trimmedStart := trimStart line
  let markerChar ← (asBytes trimmedStart).head?
  let markerEnd := ((asBytes trimmedStart).takeWhile (· = markerChar)).length
  let info := trimText (← sliceFrom trimmedStart markerEnd)
  let langToken := (trimStart info).takeWhile fun c => !isWhitespace c
  some (if langToken = [] then none else some langToken)

def advanceFence (line : List Char) (fence : FenceState) : Option FenceState :=
  if fence.inFence then
    if opensOrClosesFence line then some {}
    else some { inFence := true, lang := fence.lang }
  else if opensOrClosesFence line then do
    let lang ← fenceLang line
    some { inFence := true, lang }
  else some {}

/-! ### Line prefixes -/

/-- Length of the markers, each with one space at most. -/
def quotePrefixLen : List UInt8 → Nat
  | [] => 0
  | b :: rest =>
      if b = byte '>' then
        match rest with
        | [] => 1
        | next :: after =>
            if next = byte ' ' then quotePrefixLen after + 2 else quotePrefixLen (next :: after) + 1
      else 0

def bulletMarker (bs : List UInt8) : Option UInt8 :=
  match bs with
  | c :: space :: _ =>
      if (c = byte '-' ∨ c = byte '*' ∨ c = byte '+') ∧ space = byte ' ' then some c else none
  | _ => none

def isAsciiDigit (b : UInt8) : Bool := byte '0' ≤ b && b ≤ byte '9'

/-- The number of digits and the separator. -/
def orderedMarker (bs : List UInt8) : Option (Nat × UInt8) :=
  let digits := (bs.takeWhile isAsciiDigit).length
  if digits = 0 then none
  else
    match bs[digits]?, bs[digits + 1]? with
    | some sep, some space =>
        if (sep = byte '.' ∨ sep = byte ')') ∧ space = byte ' ' then some (digits, sep) else none
    | _, _ => none

def listMarkerLen (bs : List UInt8) : Option Nat :=
  if (bulletMarker bs).isSome then some 2
  else (orderedMarker bs).map fun marker => marker.1 + 2

/-! ### Inline spans -/

/-- What a search does at a unit: it stops there, goes on, or takes the next
unit with it. -/
inductive Turn where
  | stop
  | on
  | past
deriving Repr, DecidableEq

/-- A search in what is left from `i` on. -/
def scanIn (turn : UInt8 → Option UInt8 → Turn) : List UInt8 → Nat → Option Nat
  | [], _ => none
  | [b], i =>
      match turn b none with
      | .stop => some i
      | _ => none
  | b :: next :: rest, i =>
      match turn b (some next) with
      | .stop => some i
      | .on => scanIn turn (next :: rest) (i + 1)
      | .past => scanIn turn rest (i + 2)

section turns

variable {κ : Type} [DecidableEq κ] (escape target unit : κ)

def unescapedTurn (_next : Option κ) : Turn :=
  if unit = escape then .past else if unit = target then .stop else .on

def doubleTurn (next : Option κ) : Turn :=
  if unit = escape then .past else if unit = target ∧ next = some target then .stop else .on

/-- A doubled marker is passed over. -/
def singleTurn (next : Option κ) : Turn :=
  if unit = escape then .past
  else if unit = target then (if next = some target then .past else .stop)
  else .on

end turns

def findUnescaped (bs : List UInt8) (start : Nat) (target : UInt8) : Option Nat :=
  scanIn (unescapedTurn (byte '\\') target) (bs.drop start) start

def findDouble (bs : List UInt8) (start : Nat) (target : UInt8) : Option Nat :=
  scanIn (doubleTurn (byte '\\') target) (bs.drop start) start

def findSingleEmphasis (bs : List UInt8) (start : Nat) (marker : UInt8) : Option Nat :=
  scanIn (singleTurn (byte '\\') marker) (bs.drop start) start

/-- A span that was found at an offset: what it shows when the delimiters
are stripped, what it is with them, and its style. It goes on behind it. -/
structure Hit where
  inner : Nat × Nat
  outer : Nat × Nat
  style : Style
deriving Repr, DecidableEq

def codeAt (theme : Theme) (bs : List UInt8) (i : Nat) : Option Hit :=
  if bs[i]? = some (byte '\x60') then
    (findUnescaped bs (i + 1) (byte '\x60')).map fun stop =>
      ⟨(i + 1, stop), (i, stop + 1), theme.codeInline⟩
  else none

/-- `**bold**` and `~~strike~~`. -/
def doubledAt (marker : UInt8) (style : Style) (bs : List UInt8) (i : Nat) : Option Hit :=
  if bs[i]? = some marker ∧ bs[i + 1]? = some marker then
    (findDouble bs (i + 2) marker).map fun stop => ⟨(i + 2, stop), (i, stop + 2), style⟩
  else none

def italicAt (theme : Theme) (marker : UInt8) (bs : List UInt8) (i : Nat) : Option Hit :=
  if bs[i]? = some marker then
    (findSingleEmphasis bs (i + 1) marker).map fun stop =>
      ⟨(i + 1, stop), (i, stop + 1), theme.italic⟩
  else none

def linkAt (theme : Theme) (bs : List UInt8) (i : Nat) : Option Hit :=
  if bs[i]? = some (byte '[') then
    (findUnescaped bs (i + 1) (byte ']')).bind fun rb =>
      if bs[rb + 1]? = some (byte '(') then
        (findUnescaped bs (rb + 2) (byte ')')).map fun rp =>
          ⟨(i + 1, rb), (i, rp + 1), theme.link⟩
      else none
  else none

def hitAt (theme : Theme) (bs : List UInt8) (i : Nat) : Option Hit :=
  codeAt theme bs i <|> doubledAt (byte '*') theme.bold bs i <|>
    italicAt theme (byte '*') bs i <|> italicAt theme (byte '_') bs i <|>
    doubledAt (byte '~') theme.strikethrough bs i <|> linkAt theme bs i

section tokenize

variable (theme : Theme) (strip : Bool) (base : Style) (text : List Char)

/-- `flush_plain`. -/
def flushPlain (start stop : Nat) : Option (List Segment) :=
  if start < stop then (sliceStr text start stop).map fun plain => [(plain, base)] else some []

/-- The loop of `tokenize_inline`. Each turn goes on by a byte at least, so
as many turns as there are bytes are enough. -/
def tokenizeLoop : Nat → Nat → Nat → Option (List Segment)
  | 0, i, plainStart =>
      if i < lenUtf8 text then none
      else if plainStart < lenUtf8 text then (sliceFrom text plainStart).map fun rest => [(rest, base)]
      else some []
  | fuel + 1, i, plainStart =>
      if i < lenUtf8 text then
        match hitAt theme (asBytes text) i with
        | some hit => do
            let plain ← flushPlain base text plainStart i
            let shown := if strip then hit.inner else hit.outer
            let span ← sliceStr text shown.1 shown.2
            let rest ← tokenizeLoop fuel hit.outer.2 hit.outer.2
            some (plain ++ (span, hit.style) :: rest)
        | none => tokenizeLoop fuel (i + 1) plainStart
      else if plainStart < lenUtf8 text then (sliceFrom text plainStart).map fun rest => [(rest, base)]
      else some []

def tokenizeInline : Option (List Segment) :=
  if text = [] then some [] else tokenizeLoop theme strip base text (lenUtf8 text) 0 0

end tokenize

/-! ### Lines -/

section line

variable (theme : Theme) (strip : Bool)

/-- `none` outside for a panic, inside for no heading. -/
def tryHeading (line : List Char) : Option (Option (List Segment)) :=
  let trimmed := trimStart line
  let hashesEnd := (trimmed.takeWhile (· = '#')).length
  if hashesEnd = 0 ∨ 6 < hashesEnd then some none
  else do
    let after ← sliceFrom trimmed hashesEnd
    if after ≠ [] ∧ after.head? ≠ some ' ' then some none
    else do
      let style ← theme.heading[hashesEnd - 1]?
      if strip then
        let shown := if after.head? = some ' ' then after.tail else after
        some (some [(shown, style)])
      else some (some [(line, style)])

def isHorizontalRule (line : List Char) : Bool :=
  let t := trimText line
  if lenUtf8 t < 3 then false
  else
    match t with
    | [] => false
    | first :: _ =>
        (first = '-' || first = '*' || first = '_') && t.all fun c => c = first || c = ' '

/-- A bullet for the marker of an unordered list. -/
def shownMarker (marker : List Char) : Option (List Char) :=
  if strip then do
    let first ← (asBytes marker).head?
    some (if isAsciiDigit first then marker else ['\u2022', ' '])
  else some marker

/-- The white space that a line begins with. -/
def leadingWs (line : List Char) (leadingWsLen : Nat) : Option (List Segment) :=
  if 0 < leadingWsLen then
    (sliceStr line 0 leadingWsLen).map fun ws => [(ws, theme.paragraph)]
  else some []

def highlightSourceLine (line : List Char) : Option (List Segment) :=
  if line = [] then some [([], theme.paragraph)]
  else do
    match ← tryHeading theme strip line with
    | some segs => some segs
    | none =>
        if isHorizontalRule line then some [(line, theme.horizontalRule)]
        else do
          let leadingWsLen := lenUtf8 line - lenUtf8 (trimStart line)
          let ws ← leadingWs theme line leadingWsLen
          let rest ← sliceFrom line leadingWsLen
          let (quotePrefix, afterQuote) ← splitAt rest (quotePrefixLen (asBytes rest))
          if quotePrefix ≠ [] then do
            let bar := if strip then [] else [(quotePrefix, theme.blockquoteBar)]
            let quoted ← tokenizeInline theme strip theme.blockquoteText afterQuote
            some (ws ++ (bar ++ quoted).map fun seg =>
              (seg.1, seg.2.addModifier Style.italicBits))
          else
            match listMarkerLen (asBytes rest) with
            | some markerEnd => do
                let marker ← shownMarker strip (← sliceStr rest 0 markerEnd)
                let item ← tokenizeInline theme strip theme.paragraph (← sliceFrom rest markerEnd)
                some (ws ++ (marker, theme.listMarker) :: item)
            | none => do
                let plain ← tokenizeInline theme strip theme.paragraph rest
                some (ws ++ plain)

variable (hl : Option Highlighter)

def highlightOneLine (line : List Char) (fence : FenceState) :
    Option (List Segment × FenceState) :=
  let fenceLine : List Segment :=
    [(if strip then [] else line, theme.codeBlockBg.patch theme.codeInline)]
  if fence.inFence then
    if opensOrClosesFence line then some (fenceLine, {})
    else
      let highlighted := do
        let highlight ← hl
        let lang ← fence.lang
        highlight lang line theme.codeBlockBg
      some (highlighted.getD [(line, theme.codeBlockBg.patch theme.paragraph)],
        { inFence := true, lang := fence.lang })
  else if opensOrClosesFence line then do
    let lang ← fenceLang line
    some (fenceLine, { inFence := true, lang })
  else do
    let segs ← highlightSourceLine theme strip line
    some (segs, {})

end line

end MdHighlight

end Yaldabaoth
