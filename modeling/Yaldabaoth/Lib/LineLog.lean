import Mathlib.Data.List.DropRight
import Mathlib.Data.List.Infix
import Mathlib.Data.List.TakeWhile

/-!
# `LineLog`: append-only logs of text lines

A log file holds one record a line. The writer appends the text of a
record and a newline; a crash or a failed write leaves some prefix of
that line behind. The reader splits the file at newlines and decodes
line by line. Two rules decide what a damaged file means: a last line
without its newline may be dropped, and a line that has its newline
must decode.

The record format is a parameter. `Codec` packs the two directions,
and `Codec.Faithful` names what a reader may rely on for one record:
its text decodes to it with or without the newline, holds no newline
and is no blank line, and no proper prefix of it decodes.
`Codec.GlueFree` adds that text glued from several pieces never
decodes.

`Codec.read` is the reader of such a log. What the results below say:
a rendered log reads back as its records (`read_render_append`), a
torn last line adds nothing (`read_torn`), and a terminated line that
does not decode is reported with its number (`read_malformed`).
-/

set_option autoImplicit false

namespace LineLog

/-! ### Bytes and lines -/

/-- The contents of a file. -/
abbrev Bytes := List UInt8

/-- The bytes of a text of ASCII characters. -/
def ascii (s : String) : Bytes := s.toList.map fun ch => UInt8.ofNat ch.toNat

/-- The line terminator. -/
def newline : UInt8 := 10

/-- The bytes ASCII counts as white space: tab, newline, form feed,
carriage return and the space. -/
def isAsciiWhitespace (b : UInt8) : Bool :=
  b == 9 || b == 10 || b == 12 || b == 13 || b == 32

/-- A line of white space only. -/
def isBlank (l : Bytes) : Bool := l.all isAsciiWhitespace

/-- Whether a line still has its newline. -/
def isTerminated (l : Bytes) : Bool := l.getLast? == some newline

/-- Split after every newline. Each line keeps its newline; the last
one has none when the bytes end without it. -/
def lines : Bytes → List Bytes
  | []      => []
  | b :: bs =>
      if b = newline then [b] :: lines bs
      else match lines bs with
        | []      => [[b]]
        | l :: ls => (b :: l) :: ls

@[simp] theorem lines_nil : lines [] = [] := rfl

section
attribute [local simp] lines

/-- The first newline ends the first line. -/
theorem lines_append_newline {t : Bytes} (ht : newline ∉ t) (rest : Bytes) :
    lines (t ++ newline :: rest) = (t ++ [newline]) :: lines rest := by
  induction t with
  | nil => simp
  | cons b bs ih =>
      have hb : b ≠ newline := fun h => ht (h ▸ List.mem_cons_self)
      have hbs : newline ∉ bs := fun h => ht (List.mem_cons_of_mem _ h)
      simp only [List.cons_append, lines, if_neg hb, ih hbs]

end

/-- Bytes without a newline are one line. -/
theorem lines_of_newline_not_mem {t : Bytes} (ht : newline ∉ t) (hne : t ≠ []) :
    lines t = [t] := by
  induction t with
  | nil => exact absurd rfl hne
  | cons b bs ih =>
      have hb : b ≠ newline := fun h => ht (h ▸ List.mem_cons_self)
      have hbs : newline ∉ bs := fun h => ht (List.mem_cons_of_mem _ h)
      cases bs with
      | nil => simp [lines, hb]
      | cons b' bs' => rw [lines, if_neg hb, ih hbs (List.cons_ne_nil _ _)]

/-- A byte gives a line. -/
theorem lines_ne_nil {b : Bytes} (hb : b ≠ []) : lines b ≠ [] := by
  cases b with
  | nil => exact absurd rfl hb
  | cons x xs =>
      rw [lines]
      split
      · exact List.cons_ne_nil _ _
      · split <;> exact List.cons_ne_nil _ _

/-- No byte is lost between the lines. -/
theorem flatten_lines (b : Bytes) : (lines b).flatten = b := by
  induction b with
  | nil => rfl
  | cons x xs ih =>
      rw [lines]
      split
      · simp [ih]
      · cases hxs : lines xs with
        | nil => simpa [hxs] using ih
        | cons l ls => simpa [hxs] using ih

/-- What stands before the end of a longer text that ends a line: the
first byte is a newline, or something follows it. -/
theorem ended_of_cons {x : UInt8} {xs : Bytes} (h : isTerminated (x :: xs) = true) :
    (xs = [] ∧ x = newline) ∨ (xs ≠ [] ∧ isTerminated xs = true) := by
  cases xs with
  | nil => exact .inl ⟨rfl, by simpa [isTerminated] using h⟩
  | cons y ys => exact .inr ⟨List.cons_ne_nil _ _, by simpa [isTerminated] using h⟩

/-- Behind bytes that end a line, the lines start afresh. -/
theorem lines_append {b : Bytes} (hb : b = [] ∨ isTerminated b = true) (t : Bytes) :
    lines (b ++ t) = lines b ++ lines t := by
  induction b with
  | nil => rfl
  | cons x xs ih =>
      have hx := ended_of_cons (hb.resolve_left (List.cons_ne_nil _ _))
      by_cases hnl : x = newline
      · have hxs : xs = [] ∨ isTerminated xs = true := hx.imp And.left And.right
        simp only [List.cons_append, lines, if_pos hnl, ih hxs]
      · obtain ⟨hne, hxs⟩ := hx.resolve_left fun h => hnl h.2
        obtain ⟨l, ls, hls⟩ := List.exists_cons_of_ne_nil (lines_ne_nil hne)
        simp only [List.cons_append, lines, if_neg hnl, ih (.inr hxs), hls]

/-- Bytes that end a line consist of terminated lines. -/
theorem isTerminated_of_mem_lines {b : Bytes} (hb : b = [] ∨ isTerminated b = true) :
    ∀ l ∈ lines b, isTerminated l = true := by
  induction b with
  | nil => simp
  | cons x xs ih =>
      have hx := ended_of_cons (hb.resolve_left (List.cons_ne_nil _ _))
      by_cases hnl : x = newline
      · have hxs : xs = [] ∨ isTerminated xs = true := hx.imp And.left And.right
        intro l hl
        rw [lines, if_pos hnl] at hl
        rcases List.mem_cons.1 hl with rfl | hl
        · simp [isTerminated, hnl]
        · exact ih hxs l hl
      · obtain ⟨hne, hxs⟩ := hx.resolve_left fun h => hnl h.2
        obtain ⟨l, ls, hls⟩ := List.exists_cons_of_ne_nil (lines_ne_nil hne)
        have hall := ih (.inr hxs)
        rw [hls] at hall
        intro m hm
        simp only [lines, if_neg hnl, hls, List.mem_cons] at hm
        have hl := hall l List.mem_cons_self
        rcases hm with rfl | hm
        · have hlne : l ≠ [] := by rintro rfl; simp [isTerminated] at hl
          obtain ⟨y, ys, rfl⟩ := List.exists_cons_of_ne_nil hlne
          simpa [isTerminated] using hl
        · exact hall m (List.mem_cons_of_mem _ hm)

@[simp] theorem isTerminated_append_newline (t : Bytes) :
    isTerminated (t ++ [newline]) = true := by
  simp [isTerminated]

/-- A line without a newline is not terminated. -/
theorem isTerminated_of_newline_not_mem {t : Bytes} (ht : newline ∉ t) :
    isTerminated t = false := by
  cases h : t.getLast? with
  | none => simp [isTerminated, h]
  | some b =>
      have hb : b ≠ newline := fun he => ht (he ▸ List.mem_of_getLast? h)
      simp [isTerminated, h, hb]

/-- The newline is white space, so it never decides blankness. -/
theorem isBlank_append_newline (t : Bytes) : isBlank (t ++ [newline]) = isBlank t := by
  simp [isBlank, isAsciiWhitespace, newline]

/-! ### The unterminated tail -/

/-- The bytes after the last newline. -/
def tail (b : Bytes) : Bytes := (b.reverse.takeWhile (· != newline)).reverse

/-- The bytes through the last newline. -/
def body (b : Bytes) : Bytes := b.take (b.length - (tail b).length)

/-- Bytes without a newline are all tail. -/
theorem tail_of_newline_not_mem {t : Bytes} (ht : newline ∉ t) : tail t = t := by
  have hall : ∀ b ∈ t.reverse, (b != newline) = true := by
    intro b hb
    have hne : b ≠ newline := fun h => ht (h ▸ List.mem_reverse.1 hb)
    simp [hne]
  rw [tail, List.takeWhile_eq_self_iff.2 hall, List.reverse_reverse]

/-- What follows the last newline is the tail. -/
theorem tail_append_newline (b : Bytes) {t : Bytes} (ht : newline ∉ t) :
    tail (b ++ newline :: t) = t := by
  have hall : ∀ x ∈ t.reverse, (x != newline) = true := by
    intro x hx
    have hne : x ≠ newline := fun h => ht (h ▸ List.mem_reverse.1 hx)
    simp [hne]
  have hrev : (b ++ newline :: t).reverse = t.reverse ++ newline :: b.reverse := by simp
  rw [tail, hrev, List.takeWhile_append_of_pos hall]
  simp

/-- Nothing in the tail ends a line. -/
theorem newline_not_mem_tail (b : Bytes) : newline ∉ tail b := by
  intro h
  have hne := List.mem_takeWhile_imp (List.mem_reverse.1 h)
  simp at hne

/-- The body is what is left when the tail is dropped. -/
theorem body_eq_rdropWhile (b : Bytes) : body b = b.rdropWhile (· != newline) := by
  have hsplit : b.rdropWhile (· != newline) ++ tail b = b :=
    List.rdropWhile_append_rtakeWhile
  have hlen := congrArg List.length hsplit
  rw [List.length_append] at hlen
  have htake : (b.rdropWhile (· != newline) ++ tail b).take
      (b.rdropWhile (· != newline)).length = b.rdropWhile (· != newline) := List.take_left
  rw [hsplit] at htake
  rw [body, ← htake]
  congr 1
  omega

/-- A file is its body and its tail. -/
theorem body_append_tail (b : Bytes) : body b ++ tail b = b := by
  rw [body_eq_rdropWhile]
  exact List.rdropWhile_append_rtakeWhile

/-- The body ends a line, or is empty. -/
theorem body_ended (b : Bytes) : body b = [] ∨ isTerminated (body b) = true := by
  rw [body_eq_rdropWhile]
  by_cases hnil : b.rdropWhile (· != newline) = []
  · exact .inl hnil
  · have hlast := List.rdropWhile_last_not (· != newline) b hnil
    refine .inr ?_
    rw [isTerminated, List.getLast?_eq_some_getLast hnil]
    simpa using hlast

/-- Appending a tail to bytes that end a line, or to nothing, gives
that tail back. -/
theorem tail_append {b t : Bytes} (hb : b = [] ∨ isTerminated b = true) (ht : newline ∉ t) :
    tail (b ++ t) = t := by
  rcases hb with rfl | hb
  · simpa using tail_of_newline_not_mem ht
  · obtain ⟨b', rfl⟩ : ∃ b', b = b' ++ [newline] := by
      have hlast : b.getLast? = some newline := by simpa [isTerminated] using hb
      exact List.getLast?_eq_some_iff.1 hlast
    simpa using tail_append_newline b' ht

/-- And the body is what stood before the tail. -/
theorem body_append {b t : Bytes} (hb : b = [] ∨ isTerminated b = true) (ht : newline ∉ t) :
    body (b ++ t) = b := by
  have hlen : (b ++ t).length - t.length = b.length := by simp
  rw [body, tail_append hb ht, hlen, List.take_left]

/-! ### Codecs -/

/-- The two directions of a record format: the text of a record, and
the reading of a text, with the parser's message when it fails. -/
structure Codec (α : Type) where
  encode : α → Bytes
  decode : Bytes → Except String α

namespace Codec

variable {α : Type} (c : Codec α)

/-- The bytes decode to some record. -/
def Parses (b : Bytes) : Prop := ∃ a, c.decode b = .ok a

/-- The line of a record: its text and a newline. -/
def line (a : α) : Bytes := c.encode a ++ [newline]

/-- The file that holds the given records and nothing else. -/
def render (as : List α) : Bytes := (as.map c.line).flatten

@[simp] theorem render_nil : c.render [] = [] := rfl

@[simp] theorem render_cons (a : α) (as : List α) :
    c.render (a :: as) = c.line a ++ c.render as := by
  simp [render]

@[simp] theorem render_append (as bs : List α) :
    c.render (as ++ bs) = c.render as ++ c.render bs := by
  simp [render]

/-- A rendered file is empty or ends a line. -/
theorem render_terminated (as : List α) :
    c.render as = [] ∨ isTerminated (c.render as) = true := by
  rcases List.eq_nil_or_concat as with rfl | ⟨bs, a, rfl⟩
  · exact .inl rfl
  · refine .inr ?_
    rw [List.concat_eq_append, render_append, render_cons, render_nil, List.append_nil, line,
      ← List.append_assoc]
    exact isTerminated_append_newline _

@[simp] theorem length_line (a : α) : (c.line a).length = (c.encode a).length + 1 := by
  simp [line]

/-- What a reader may rely on for the record `a`. -/
structure Faithful (a : α) : Prop where
  decode_encode : c.decode (c.encode a) = .ok a
  decode_line : c.decode (c.line a) = .ok a
  oneLine : newline ∉ c.encode a
  notBlank : isBlank (c.encode a) = false
  noPrefix : ∀ p, p <+: c.encode a → p ≠ c.encode a → ¬ c.Parses p

/-- A newline behind a text that decodes is skipped. -/
def SkipsNewline : Prop :=
  ∀ t a, newline ∉ t → c.decode t = .ok a → c.decode (t ++ [newline]) = .ok a

/-- Text glued from two or more pieces of lines, each a nonempty
prefix of the text of some record of `P`, decodes neither with a
newline nor without. -/
def GlueFree (P : α → Prop) : Prop :=
  ∀ pieces : List Bytes, 2 ≤ pieces.length →
    (∀ p ∈ pieces, p ≠ [] ∧ ∃ a, P a ∧ p <+: c.encode a) →
    ¬ c.Parses pieces.flatten ∧ ¬ c.Parses (pieces.flatten ++ [newline])

variable {c} in
/-- Empty pieces do not matter to glue: a piece that holds something
and something behind it are enough. -/
theorem GlueFree.not_parses {P : α → Prop} (hc : c.GlueFree P) {p : Bytes} {rest : List Bytes}
    (hp : p ≠ []) (hrest : rest.flatten ≠ [])
    (hpieces : ∀ q ∈ p :: rest, ∃ a, P a ∧ q <+: c.encode a) :
    ¬ c.Parses (p ++ rest.flatten) ∧ ¬ c.Parses (p ++ rest.flatten ++ [newline]) := by
  have hflat : (p :: rest.filter (!·.isEmpty)).flatten = p ++ rest.flatten := by
    rw [List.flatten_cons, List.flatten_filter_not_isEmpty]
  have hne : rest.filter (!·.isEmpty) ≠ [] := by
    intro hnil
    have hflat' := @List.flatten_filter_not_isEmpty _ rest
    rw [hnil] at hflat'
    exact hrest hflat'.symm
  have hlen : 2 ≤ (p :: rest.filter (!·.isEmpty)).length := by
    have hpos := List.length_pos_iff.2 hne
    simp only [List.length_cons]
    omega
  rw [← hflat]
  refine hc _ hlen fun q hq => ?_
  rcases List.mem_cons.1 hq with rfl | hq
  · exact ⟨hp, hpieces q List.mem_cons_self⟩
  · obtain ⟨hmem, hne⟩ := List.mem_filter.1 hq
    exact ⟨by simpa using hne, hpieces q (List.mem_cons_of_mem _ hmem)⟩

variable {c} in
/-- Fewer records glue no better. -/
theorem GlueFree.mono {P Q : α → Prop} (hc : c.GlueFree Q) (hPQ : ∀ a, P a → Q a) :
    c.GlueFree P := by
  intro pieces hlen hpieces
  refine hc pieces hlen fun p hp => ?_
  obtain ⟨hne, a, ha, hpre⟩ := hpieces p hp
  exact ⟨hne, a, hPQ a ha, hpre⟩

variable {c} in
/-- Text behind pieces that hold something is glued. -/
theorem GlueFree.not_parses_append {P : α → Prop} (hc : c.GlueFree P) {pieces : List Bytes}
    {q : Bytes} (hflat : pieces.flatten ≠ []) (hq : q ≠ [])
    (hpieces : ∀ p ∈ pieces ++ [q], ∃ a, P a ∧ p <+: c.encode a) :
    ¬ c.Parses (pieces.flatten ++ q) := by
  induction pieces with
  | nil => exact absurd rfl hflat
  | cons p ps ih =>
      by_cases hp : p = []
      · rw [hp, List.flatten_cons, List.nil_append] at hflat ⊢
        exact ih hflat fun r hr => hpieces r (List.mem_cons_of_mem _ hr)
      · have hrest : (ps ++ [q]).flatten = ps.flatten ++ q := by simp
        have hne : (ps ++ [q]).flatten ≠ [] := by simp [hq]
        have hglued := (hc.not_parses hp hne hpieces).1
        rwa [hrest, ← List.append_assoc] at hglued

/-! ### What a cut write leaves -/

/-- Cutting a line within its text leaves a proper prefix of it. -/
theorem take_line_of_lt {a : α} {k : Nat} (hk : k < (c.encode a).length) :
    (c.line a).take k <+: c.encode a ∧ (c.line a).take k ≠ c.encode a := by
  have htake : (c.line a).take k = (c.encode a).take k := by
    rw [line, List.take_append_of_le_length (Nat.le_of_lt hk)]
  refine ⟨htake ▸ List.take_prefix _ _, fun h => ?_⟩
  have hlen := congrArg List.length h
  simp only [htake, List.length_take] at hlen
  omega

/-- Cutting a line at its newline leaves its whole text. -/
theorem take_line_length (a : α) : (c.line a).take (c.encode a).length = c.encode a := by
  rw [line, List.take_left]

/-- Any later cut leaves the whole line. -/
theorem take_line_of_gt {a : α} {k : Nat} (hk : (c.encode a).length < k) :
    (c.line a).take k = c.line a :=
  List.take_of_length_le (by rw [length_line]; omega)

variable {c}

/-- A cut that drops the newline leaves no newline. -/
theorem newline_not_mem_take_line {a : α} (ha : newline ∉ c.encode a) {k : Nat}
    (hk : k ≤ (c.encode a).length) : newline ∉ (c.line a).take k := by
  rw [line, List.take_append_of_le_length hk]
  exact fun h => ha (List.mem_of_mem_take h)

/-! ### Reading a log back -/

/-- How a reading ended: with the whole file read (up to a dropped
unterminated line), or at a terminated line that does not decode. -/
inductive Ending where
  | complete
  | malformed (line : Nat) (error : String)
deriving Repr, DecidableEq

variable (c) in
/-- Read the lines in order, `n` of them already read. Blank lines are
skipped, an unterminated line that does not decode ends the log, and a
terminated one is malformed. -/
def read : Nat → List Bytes → List α × Ending
  | _, []      => ([], .complete)
  | n, l :: ls =>
      if isBlank l then read (n + 1) ls
      else match c.decode l with
        | .ok a    => (a :: (read (n + 1) ls).1, (read (n + 1) ls).2)
        | .error e => if isTerminated l then ([], .malformed (n + 1) e) else ([], .complete)

variable (c) in
/-- The records a reader of the file is handed, and how it ended. -/
def readAll (contents : Bytes) : List α × Ending := c.read 0 (lines contents)

/-- The lines of rendered records read back as these records, whatever
stands behind them. -/
theorem read_render_append {as : List α} (has : ∀ a ∈ as, c.Faithful a) (n : Nat)
    (rest : Bytes) :
    c.read n (lines (c.render as ++ rest)) =
      (as ++ (c.read (n + as.length) (lines rest)).1,
        (c.read (n + as.length) (lines rest)).2) := by
  induction as generalizing n with
  | nil => simp
  | cons a as ih =>
      have ha := has a List.mem_cons_self
      have hlines : lines (c.render (a :: as) ++ rest) =
          c.line a :: lines (c.render as ++ rest) := by
        rw [render_cons, line, List.append_assoc, List.append_assoc]
        exact lines_append_newline ha.oneLine _
      have hblank : isBlank (c.line a) = false := by
        rw [line, isBlank_append_newline]; exact ha.notBlank
      have hcount : n + 1 + as.length = n + (a :: as).length := by
        simp only [List.length_cons]; omega
      rw [hlines, read, hblank, if_neg (by simp), ha.decode_line]
      simp only [ih (fun b hb => has b (List.mem_cons_of_mem _ hb)), hcount, List.cons_append]

/-- An unterminated tail that does not decode reads as nothing. -/
theorem read_torn {t : Bytes} (ht : newline ∉ t) (hp : ¬ c.Parses t) (n : Nat) :
    c.read n (lines t) = ([], .complete) := by
  cases t with
  | nil => rfl
  | cons b bs =>
      rw [lines_of_newline_not_mem ht (List.cons_ne_nil _ _), read]
      split
      · rfl
      · cases hd : c.decode (b :: bs) with
        | ok a => exact absurd ⟨a, hd⟩ hp
        | error e => simp [isTerminated_of_newline_not_mem ht]

/-- The whole text of a record reads as that record even without its
newline. -/
theorem read_encode {a : α} (ha : c.Faithful a) (n : Nat) :
    c.read n (lines (c.encode a)) = ([a], .complete) := by
  have hne : c.encode a ≠ [] := by
    intro h
    have hblank := ha.notBlank
    simp [h, isBlank] at hblank
  rw [lines_of_newline_not_mem ha.oneLine hne, read, ha.notBlank, if_neg (by simp),
    ha.decode_encode]
  rfl

/-- A terminated line that does not decode stops the reading. -/
theorem read_malformed {t rest : Bytes} (ht : newline ∉ t) (hblank : isBlank t = false)
    (hp : ¬ c.Parses (t ++ [newline])) (n : Nat) :
    ∃ e, c.read n (lines (t ++ newline :: rest)) = ([], .malformed (n + 1) e) := by
  rw [lines_append_newline ht, read, isBlank_append_newline, hblank, if_neg (by simp)]
  cases hd : c.decode (t ++ [newline]) with
  | ok a => exact absurd ⟨a, hd⟩ hp
  | error e => exact ⟨e, by simp⟩

/-! ### A codec given by a table

A format restricted to finitely many records whose texts are written
out. The laws then come down to checks on the table. -/

variable [DecidableEq α]

/-- The texts of the listed records, and nothing else. -/
def ofTable (rows : List (α × Bytes)) : Codec α where
  encode a := (rows.lookup a).getD []
  decode b :=
    match rows.find? fun row => decide (row.2 = b ∨ row.2 ++ [newline] = b) with
    | some row => .ok row.1
    | none     => .error "no such text"

/-- The checks on a table: no record twice, every text one line and
not blank, and no text a prefix of another. -/
structure TableOk (rows : List (α × Bytes)) : Prop where
  nodup : (rows.map Prod.fst).Nodup
  oneLine : ∀ row ∈ rows, newline ∉ row.2
  notBlank : ∀ row ∈ rows, isBlank row.2 = false
  prefixFree : ∀ row ∈ rows, ∀ row' ∈ rows, row.2 <+: row'.2 → row = row'

variable {rows : List (α × Bytes)}

/-- Looking up a listed record finds its text. -/
theorem lookup_of_mem {a : α} {t : Bytes} (hnodup : (rows.map Prod.fst).Nodup)
    (h : (a, t) ∈ rows) : rows.lookup a = some t := by
  induction rows with
  | nil => cases h
  | cons row rest ih =>
      obtain ⟨a', t'⟩ := row
      simp only [List.map_cons, List.nodup_cons] at hnodup
      rcases List.mem_cons.1 h with heq | hmem
      · cases heq; simp
      · have hne : a ≠ a' := by
          rintro rfl
          exact hnodup.1 (List.mem_map.2 ⟨(a, t), hmem, rfl⟩)
        have hbeq : (a == a') = false := by simpa using hne
        simp only [List.lookup_cons, hbeq]
        exact ih hnodup.2 hmem

/-- What decodes is a listed text, with its newline or without. -/
theorem mem_of_ofTable_decode {b : Bytes} {a : α} (h : (ofTable rows).decode b = .ok a) :
    ∃ t, (a, t) ∈ rows ∧ (t = b ∨ t ++ [newline] = b) := by
  simp only [ofTable] at h
  cases hf : rows.find? fun row => decide (row.2 = b ∨ row.2 ++ [newline] = b) with
  | none => rw [hf] at h; cases h
  | some row =>
      rw [hf] at h
      cases h
      exact ⟨row.2, List.mem_of_find?_eq_some hf, by simpa using List.find?_some hf⟩

/-- A listed text decodes to its record, with its newline or without. -/
theorem ofTable_decode_of_mem (hrows : TableOk rows) {a : α} {t b : Bytes} (h : (a, t) ∈ rows)
    (hb : t = b ∨ t ++ [newline] = b) : (ofTable rows).decode b = .ok a := by
  have hsome : (ofTable rows).Parses b := by
    simp only [Parses, ofTable]
    cases hf : rows.find? fun row => decide (row.2 = b ∨ row.2 ++ [newline] = b) with
    | none =>
        have hno := List.find?_eq_none.1 hf (a, t) h
        simp only [decide_eq_true_eq] at hno
        exact absurd hb hno
    | some row => exact ⟨row.1, rfl⟩
  obtain ⟨a', ha'⟩ := hsome
  obtain ⟨t', hmem', hb'⟩ := mem_of_ofTable_decode ha'
  -- Both texts are lines of `b`, so they are one text: the newline is in neither.
  have hnl := hrows.oneLine _ h
  have hnl' := hrows.oneLine _ hmem'
  have htt : t' = t := by
    rcases hb with rfl | rfl <;> rcases hb' with hb' | hb'
    · exact hb'
    · exact absurd (hb' ▸ by simp) hnl
    · exact absurd (hb' ▸ by simp) hnl'
    · exact List.append_cancel_right hb'
  have hrow := hrows.prefixFree _ hmem' _ h (by rw [htt])
  rw [ha', (Prod.mk.inj hrow).1]

theorem ofTable_skipsNewline (hrows : TableOk rows) : (ofTable rows).SkipsNewline := by
  intro t a ht hd
  obtain ⟨t', hmem, rfl | rfl⟩ := mem_of_ofTable_decode hd
  · exact ofTable_decode_of_mem hrows hmem (.inr rfl)
  · exact absurd (by simp) ht

/-- A table codec is faithful on every listed record. -/
theorem ofTable_faithful (hrows : TableOk rows) {a : α} {t : Bytes} (h : (a, t) ∈ rows) :
    (ofTable rows).Faithful a := by
  have henc : (ofTable rows).encode a = t := by
    simp [ofTable, lookup_of_mem hrows.nodup h]
  refine
    { decode_encode := ofTable_decode_of_mem hrows h (.inl henc.symm)
      decode_line := ofTable_decode_of_mem hrows h (.inr (by rw [line, henc]))
      oneLine := henc ▸ hrows.oneLine _ h
      notBlank := henc ▸ hrows.notBlank _ h
      noPrefix := ?_ }
  rintro p hp hne ⟨a', ha'⟩
  rw [henc] at hp hne
  obtain ⟨t', hmem', rfl | rfl⟩ := mem_of_ofTable_decode ha'
  · exact hne (Prod.mk.inj (hrows.prefixFree _ hmem' _ h hp)).2
  · exact hrows.oneLine _ h (hp.subset (by simp))

/-- When one byte opens every text and stands nowhere else in it, glued
text holds it twice and does not decode. -/
theorem ofTable_glueFree (hrows : TableOk rows) {first : UInt8} (hfirst : first ≠ newline)
    (hopen : ∀ row ∈ rows, row.2.head? = some first ∧ row.2.count first = 1) :
    (ofTable rows).GlueFree (· ∈ rows.map Prod.fst) := by
  intro pieces hlen hpieces
  have hcount : pieces.length ≤ pieces.flatten.count first := by
    clear hlen
    induction pieces with
    | nil => simp
    | cons p ps ih =>
        obtain ⟨hne, a, ha, hp⟩ := hpieces p List.mem_cons_self
        obtain ⟨⟨a', t⟩, hrow, rfl⟩ := List.mem_map.1 ha
        have henc : (ofTable rows).encode a' = t := by
          simp [ofTable, lookup_of_mem hrows.nodup hrow]
        have hmem : first ∈ p := by
          obtain ⟨b, p', rfl⟩ := List.exists_cons_of_ne_nil hne
          have hhead := (hopen _ hrow).1
          rw [henc] at hp
          obtain ⟨rest, rfl⟩ := hp
          simp only [List.cons_append, List.head?_cons, Option.some.injEq] at hhead
          exact hhead ▸ List.mem_cons_self
        have hpos := List.count_pos_iff.2 hmem
        have hrest := ih fun q hq => hpieces q (List.mem_cons_of_mem _ hq)
        simp only [List.flatten_cons, List.count_append, List.length_cons]
        omega
  have hno : ∀ b : Bytes, 2 ≤ b.count first → ¬ (ofTable rows).Parses b := by
    rintro b hb ⟨a, ha⟩
    obtain ⟨t, hrow, rfl | rfl⟩ := mem_of_ofTable_decode ha
    · have hone := (hopen _ hrow).2
      simp only at hone
      omega
    · have hone := (hopen _ hrow).2
      simp only [List.count_append, List.count_singleton, beq_iff_eq, Ne.symm hfirst,
        if_false] at hb hone
      omega
  refine ⟨hno _ (by omega), hno _ ?_⟩
  rw [List.count_append]
  omega

end Codec

end LineLog
