import Yaldabaoth.Model.Compose

/-!
# `Yaldabaoth.Proofs.Compose.Rows`: wrapped rows

A row is filled greedily and cut behind the last space inside it, else
where it is full: `Cut` says so without the loops, and `rowBreak_iff` that
the loops do so. From it, by the recursion over the rows, what every row
holds (`wrapFrom_rows`).
-/

set_option autoImplicit false

namespace Yaldabaoth

namespace Compose

open Rope

/-! ### Cells -/

section cells

variable (charCells : Char → Nat) (line : List Char)

def cellsIn (s e : Nat) : Nat := ((slice line s e).map charCells).sum

@[simp] theorem cellsIn_self (s : Nat) : cellsIn charCells line s s = 0 := by
  rw [cellsIn, slice, List.drop_eq_nil_of_le (List.length_take_le _ _)]
  rfl

/-- One character more. -/
theorem cellsIn_succ {s e : Nat} {c : Char} (hs : s ≤ e) (hc : (line)[e]? = some c) :
    cellsIn charCells line s (e + 1) = cellsIn charCells line s e + charCells c := by
  obtain ⟨he, rfl⟩ := List.getElem?_eq_some_iff.1 hc
  rw [cellsIn, slice, List.take_succ_eq_append_getElem he,
    List.drop_append_of_le_length (by rw [List.length_take]; omega), List.map_append,
    List.sum_append]
  simp [cellsIn, slice]

theorem cellsIn_mono {s e e' : Nat} (h : e ≤ e') :
    cellsIn charCells line s e ≤ cellsIn charCells line s e' := by
  obtain ⟨k, rfl⟩ := Nat.exists_eq_add_of_le h
  rw [cellsIn, cellsIn, slice, slice, List.take_add, List.drop_append, List.map_append,
    List.sum_append]
  exact Nat.le_add_right _ _

end cells

/-! ### One row -/

section row

variable (charCells : Char → Nat) (line : List Char) (width : Nat)

/-- The furthest end of a row that begins at `s`. -/
structure Furthest (s e : Nat) : Prop where
  ahead : s ≤ e
  inside : e ≤ line.length
  fits : cellsIn charCells line s e ≤ width
  full : e = line.length ∨ width < cellsIn charCells line s (e + 1)

/-- The row that begins at `s` is cut at `e`, behind its last space or
where it is full. A row that reaches the end of the line with a column to
spare is not cut. -/
def Cut (s e : Nat) : Prop :=
  ∃ h, Furthest charCells line width s h ∧
    ¬ (h = line.length ∧ cellsIn charCells line s h < width) ∧
      (s < e ∧ e ≤ h ∧ s + 1 < e ∧ (line)[e - 1]? = some ' ' ∧
          (∀ k, e ≤ k → k < h → (line)[k]? ≠ some ' ') ∨
        e = h ∧ ∀ k, s < k → k < h → (line)[k]? ≠ some ' ')

/-- Where a row begins: at the start of the line, and where the row before
is cut. -/
inductive RowStart : Nat → Prop where
  | first : RowStart 0
  | next {s e : Nat} (hs : RowStart s) (hcut : Cut charCells line width s e) : RowStart e

end row

variable {charCells : Char → Nat} {line : List Char} {width : Nat}

theorem fill_spec (charCells : Char → Nat) (line : List Char) (width : Nat) {s pos : Nat} (hs : s ≤ pos) (hpos : pos ≤ line.length)
    (hfits : cellsIn charCells line s pos ≤ width) :
    ∃ e, fill charCells width (line.drop pos) (cellsIn charCells line s pos) pos =
      (cellsIn charCells line s e, e) ∧ Furthest charCells line width s e := by
  induction hrest : line.drop pos generalizing pos with
  | nil =>
      have hend : pos = line.length := Nat.le_antisymm hpos (List.drop_eq_nil_iff.1 hrest)
      exact ⟨pos, by rw [fill], ⟨hs, hpos, hfits, .inl hend⟩⟩
  | cons c rest ih =>
      have hc : (line)[pos]? = some c := by
        rw [← List.head?_drop, hrest]
        rfl
      have hnext : line.drop (pos + 1) = rest := by
        rw [← List.drop_drop, hrest]
        rfl
      rw [fill, ← cellsIn_succ charCells line hs hc]
      split
      · next hover => exact ⟨pos, rfl, ⟨hs, hpos, hfits, .inr hover⟩⟩
      · next hunder =>
        have hinside := (List.getElem?_eq_some_iff.1 hc).1
        exact ih (by omega) (by omega) (Nat.le_of_not_lt hunder) hnext

theorem Furthest.unique {s e e' : Nat} (h : Furthest charCells line width s e)
    (h' : Furthest charCells line width s e') : e = e' := by
  have hno : ∀ {a b : Nat}, Furthest charCells line width s a →
      Furthest charCells line width s b → ¬ a < b := by
    intro a b ha hb hlt
    rcases ha.full with hend | hover
    · have := hb.inside
      omega
    · have hmore : cellsIn charCells line s (a + 1) ≤ cellsIn charCells line s b :=
        cellsIn_mono charCells line hlt
      have := hb.fits
      omega
  have := hno h h'
  have := hno h' h
  omega

theorem lastSpace_spec (line : List Char) (first hard : Nat) :
    match lastSpace line first hard with
    | some j => first ≤ j ∧ j < hard ∧ (line)[j]? = some ' ' ∧
        ∀ k, j < k → k < hard → (line)[k]? ≠ some ' '
    | none => ∀ k, first ≤ k → k < hard → (line)[k]? ≠ some ' ' := by
  induction hard with
  | zero =>
      intro k _ hk
      exact absurd hk (Nat.not_lt_zero k)
  | succ hard ih =>
      rw [lastSpace]
      by_cases hfirst : hard < first
      · rw [if_pos hfirst]
        intro k hk hlt
        omega
      · rw [if_neg hfirst]
        by_cases hspace : (line)[hard]? = some ' '
        · rw [if_pos hspace]
          refine ⟨by omega, by omega, hspace, fun k _ _ => by omega⟩
        · rw [if_neg hspace]
          cases hlast : lastSpace line first hard with
          | some j =>
              rw [hlast] at ih
              refine ⟨ih.1, by omega, ih.2.2.1, fun k hjk hk => ?_⟩
              rcases Nat.lt_or_ge k hard with hlt | hge
              · exact ih.2.2.2 k hjk hlt
              · rwa [show k = hard by omega]
          | none =>
              rw [hlast] at ih
              intro k hk hlt
              rcases Nat.lt_or_ge k hard with hin | hge
              · exact ih k hk hin
              · rwa [show k = hard by omega]

/-- The loops cut the row where `Cut` says. -/
theorem rowBreak_iff (hcells : ∀ c, charCells c ≤ 2) (hwidth : 2 ≤ width) {s : Nat}
    (hs : s ≤ line.length) (e : Nat) :
    rowBreak charCells line width s = some e ↔ Cut charCells line width s e := by
  obtain ⟨h, hfill, hfar⟩ := fill_spec charCells line width (Nat.le_refl s) hs
    (by rw [cellsIn_self]; exact Nat.zero_le _)
  rw [cellsIn_self] at hfill
  rw [rowBreak, hfill]
  dsimp only
  split
  · next hlast =>
    constructor
    · intro hnone
      cases hnone
    · rintro ⟨h', hfar', hmore, -⟩
      rw [← hfar.unique hfar'] at hmore
      exact absurd hlast hmore
  · next hmore =>
    -- two cells are enough for the first character
    have hprogress : s < h := by
      by_contra hstuck
      have hsame : h = s := Nat.le_antisymm (Nat.le_of_not_lt hstuck) hfar.ahead
      rw [hsame] at hfar hmore
      rcases hfar.full with hend | hover
      · exact hmore ⟨hend, by rw [cellsIn_self]; omega⟩
      · rcases hc : (line)[s]? with _ | c
        · have hend := List.getElem?_eq_none_iff.1 hc
          exact hmore ⟨Nat.le_antisymm hs hend, by rw [cellsIn_self]; omega⟩
        · rw [cellsIn_succ charCells line (Nat.le_refl s) hc, cellsIn_self] at hover
          have := hcells c
          omega
    rw [Nat.max_eq_left hprogress, Option.some_inj]
    have hspace := lastSpace_spec line (s + 1) h
    constructor
    · rintro rfl
      refine ⟨h, hfar, hmore, ?_⟩
      cases hlast : lastSpace line (s + 1) h with
      | some j =>
          rw [hlast] at hspace
          obtain ⟨hfirst, hj, hchar, hnone⟩ := hspace
          exact .inl ⟨by dsimp only; omega, hj, by dsimp only; omega, hchar, fun k hk => hnone k hk⟩
      | none =>
          rw [hlast] at hspace
          exact .inr ⟨rfl, hspace⟩
    · rintro ⟨h', hfar', -, hcut⟩
      obtain rfl := hfar.unique hfar'
      cases hlast : lastSpace line (s + 1) h with
      | some j =>
          rw [hlast] at hspace
          obtain ⟨hfirst, hj, hchar, hnone⟩ := hspace
          dsimp only
          rcases hcut with ⟨-, heh, hse, hcspace, hafter⟩ | ⟨-, hafter⟩
          · -- both are the last space
            rcases Nat.lt_trichotomy (j + 1) e with hlt | heq | hgt
            · exact absurd hcspace (hnone (e - 1) (by omega) (by omega))
            · exact heq
            · exact absurd hchar (hafter j (by omega) hj)
          · exact absurd hchar (hafter j (by omega) hj)
      | none =>
          rw [hlast] at hspace
          dsimp only
          rcases hcut with ⟨-, heh, hse, hcspace, -⟩ | ⟨rfl, -⟩
          · exact absurd hcspace (hspace (e - 1) (by omega) (by omega))
          · rfl

theorem Cut.unique (hcells : ∀ c, charCells c ≤ 2) (hwidth : 2 ≤ width) {s e e' : Nat}
    (hs : s ≤ line.length) (h : Cut charCells line width s e)
    (h' : Cut charCells line width s e') : e = e' := by
  have hbrk := (rowBreak_iff hcells hwidth hs e).2 h
  rw [(rowBreak_iff hcells hwidth hs e').2 h'] at hbrk
  exact (Option.some.inj hbrk).symm

theorem Cut.fits {s e : Nat} (h : Cut charCells line width s e) :
    cellsIn charCells line s e ≤ width := by
  obtain ⟨far, hfar, -, hcut⟩ := h
  rcases hcut with ⟨-, hle, -⟩ | ⟨rfl, -⟩
  · exact Nat.le_trans (cellsIn_mono charCells line hle) hfar.fits
  · exact hfar.fits

theorem Cut.inside (hcells : ∀ c, charCells c ≤ 2) (hwidth : 2 ≤ width) {s e : Nat}
    (hs : s ≤ line.length) (h : Cut charCells line width s e) : s < e ∧ e ≤ line.length := by
  have hbrk := rowBreak_some charCells (by omega) ((rowBreak_iff hcells hwidth hs e).2 h)
  exact ⟨hbrk.1, hbrk.2 hs⟩

/-! ### All rows -/

/-- The rows from `s` on: cut ones, and a last one with a column to spare. -/
inductive Rows (charCells : Char → Nat) (line : List Char) (width : Nat) :
    Nat → List (Nat × Nat) → Prop where
  | last {s : Nat} (hs : s ≤ line.length) (hspare : cellsIn charCells line s line.length < width) :
      Rows charCells line width s [(s, line.length)]
  | cut {s e : Nat} {rows : List (Nat × Nat)} (hs : s ≤ line.length)
      (hcut : Cut charCells line width s e) (hrest : Rows charCells line width e rows) :
      Rows charCells line width s ((s, e) :: rows)

theorem wrapFrom_rows (hcells : ∀ c, charCells c ≤ 2) (hwidth : 2 ≤ width) (hpos : 0 < width)
    {s : Nat} (hs : s ≤ line.length) :
    Rows charCells line width s (wrapFrom charCells line width hpos s hs) := by
  induction hleft : line.length - s using Nat.strong_induction_on generalizing s with
  | _ left ih =>
    rw [wrapFrom]
    split
    · next hnone =>
      refine .last hs ?_
      obtain ⟨h, hfill, hfar⟩ := fill_spec charCells line width (Nat.le_refl s) hs (by rw [cellsIn_self]; exact Nat.zero_le _)
      rw [cellsIn_self] at hfill
      rw [rowBreak, hfill] at hnone
      dsimp only at hnone
      split at hnone
      · next hlast =>
        rw [← hlast.1]
        exact hlast.2
      · cases hnone
    · next e hbrk =>
      have hmore := rowBreak_some charCells hpos hbrk
      have hend := hmore.2 hs
      exact .cut hs ((rowBreak_iff hcells hwidth hs e).1 hbrk) (ih _ (by omega) hend rfl)

theorem wrapLineCols_rows (hcells : ∀ c, charCells c ≤ 2) (hwidth : 2 ≤ width)
    (line : List Char) : Rows charCells line width 0 (wrapLineCols charCells line width) := by
  rw [wrapLineCols]
  split
  · next hempty =>
    rw [show [(0, 0)] = [(0, line.length)] by rw [hempty]]
    refine .last (Nat.zero_le _) ?_
    rw [hempty, cellsIn_self]
    omega
  · have hmax : max width 1 = width := Nat.max_eq_left (by omega)
    simp only [hmax]
    exact wrapFrom_rows hcells hwidth _ _

/-- Each row begins where the one before ends. -/
def Consecutive : Nat → List (Nat × Nat) → Nat → Prop
  | s, [], e => s = e
  | s, row :: rows, e => row.1 = s ∧ s ≤ row.2 ∧ Consecutive row.2 rows e

theorem Consecutive.covers {s e : Nat} {rows : List (Nat × Nat)} (h : Consecutive s rows e)
    {i : Nat} (hs : s ≤ i) (he : i < e) : ∃ row ∈ rows, row.1 ≤ i ∧ i < row.2 := by
  induction rows generalizing s with
  | nil =>
      have hsame : s = e := h
      omega
  | cons row rows ih =>
      obtain ⟨hfirst, -, hrest⟩ := h
      rcases Nat.lt_or_ge i row.2 with hin | hout
      · exact ⟨row, List.mem_cons_self, by omega, hin⟩
      · obtain ⟨later, hmem, hlater⟩ := ih hrest hout
        exact ⟨later, List.mem_cons_of_mem _ hmem, hlater⟩

/-- The caret's column has a cell to spare in its row. -/
def Visible (charCells : Char → Nat) (line : List Char) (width col : Nat)
    (rows : List (Nat × Nat)) : Prop :=
  ∃ row, rows[caretVisualRow rows col]? = some row ∧ row.1 ≤ col ∧
    cellsIn charCells line row.1 col < width

namespace Rows

variable {s : Nat} {rows : List (Nat × Nat)}

theorem ne_nil (h : Rows charCells line width s rows) : rows ≠ [] := by
  cases h <;> exact List.cons_ne_nil _ _

theorem start_le (h : Rows charCells line width s rows) : s ≤ line.length := by
  cases h <;> assumption

theorem consecutive (hcells : ∀ c, charCells c ≤ 2) (hwidth : 2 ≤ width)
    (h : Rows charCells line width s rows) : Consecutive s rows line.length := by
  induction h with
  | last hs hspare => exact ⟨rfl, hs, rfl⟩
  | cut hs hcut _ ih =>
      exact ⟨rfl, Nat.le_of_lt (hcut.inside hcells hwidth hs).1, ih⟩

theorem fits (h : Rows charCells line width s rows) :
    ∀ row ∈ rows, cellsIn charCells line row.1 row.2 ≤ width := by
  induction h with
  | last hs hspare =>
      intro row hrow
      rw [List.mem_singleton.1 hrow]
      exact Nat.le_of_lt hspare
  | cut hs hcut _ ih =>
      intro row hrow
      rcases List.mem_cons.1 hrow with rfl | hlater
      · exact hcut.fits
      · exact ih row hlater

theorem last_spare (h : Rows charCells line width s rows) {row : Nat × Nat}
    (hlast : rows.getLast? = some row) : cellsIn charCells line row.1 row.2 ≤ width - 1 := by
  induction h with
  | last hs hspare =>
      cases hlast
      exact Nat.le_sub_one_of_lt hspare
  | cut hs hcut hrest ih =>
      rw [List.getLast?_cons_of_ne_nil hrest.ne_nil] at hlast
      exact ih hlast

/-! ### The caret's row -/

theorem caretVisualRow_here {row : Nat × Nat} {rows : List (Nat × Nat)} {col : Nat}
    (hs : row.1 ≤ col) (he : col < row.2) : caretVisualRow (row :: rows) col = 0 := by
  rw [caretVisualRow, List.findIdx?_cons, if_pos (by simp [hs, he])]
  rfl

theorem caretVisualRow_later {row : Nat × Nat} {rows : List (Nat × Nat)} {col : Nat}
    (he : row.2 ≤ col) (hne : rows ≠ []) :
    caretVisualRow (row :: rows) col = caretVisualRow rows col + 1 := by
  have hlen := List.length_pos_of_ne_nil hne
  rw [caretVisualRow, caretVisualRow, List.findIdx?_cons,
    if_neg (by simp only [Bool.and_eq_true, decide_eq_true_eq]; omega)]
  cases rows.findIdx? fun row => row.1 ≤ col && col < row.2 with
  | some k => rfl
  | none =>
      rw [List.length_cons]
      dsimp only [Option.map_none, Option.getD_none]
      omega

/-- The caret's row: it is cut behind the caret, or is the last one. -/
theorem caret_row (h : Rows charCells line width s rows)
    (hstart : RowStart charCells line width s) {col : Nat} (hcol : s ≤ col) :
    ∃ row, rows[caretVisualRow rows col]? = some row ∧ row.1 ≤ col ∧
      (cellsIn charCells line row.1 line.length < width ∨
        RowStart charCells line width row.1 ∧ Cut charCells line width row.1 row.2 ∧
          col < row.2) := by
  induction h with
  | @last s hs hspare =>
      refine ⟨(s, line.length), ?_, hcol, .inl hspare⟩
      have hrow : caretVisualRow [(s, line.length)] col = 0 := by
        rw [caretVisualRow]
        cases hfind : [(s, line.length)].findIdx? fun row => row.1 ≤ col && col < row.2 with
        | some k =>
            have hk := (List.findIdx?_eq_some_iff_getElem.1 hfind).1
            rw [List.length_singleton] at hk
            exact Nat.lt_one_iff.1 hk
        | none => rfl
      rw [hrow]
      rfl
  | @cut s e rows hs hcut hrest ih =>
      rcases Nat.lt_or_ge col e with hhere | hlater
      · refine ⟨(s, e), ?_, hcol, .inr ⟨hstart, hcut, hhere⟩⟩
        rw [caretVisualRow_here hcol hhere]
        rfl
      · rw [caretVisualRow_later hlater hrest.ne_nil]
        exact ih (.next hstart hcut) hlater

/-- A row of the greedy fill is a row of the list, and the carets in it find
it. -/
theorem caretVisualRow_cut (hcells : ∀ c, charCells c ≤ 2) (hwidth : 2 ≤ width)
    (h : Rows charCells line width 0 rows) {b e : Nat} (hstart : RowStart charCells line width b)
    (hcut : Cut charCells line width b e) {col : Nat} (hcol : b ≤ col) (hlt : col < e) :
    rows[caretVisualRow rows col]? = some (b, e) := by
  have hfrom : ∀ b, RowStart charCells line width b → ∃ later, Rows charCells line width b later ∧
      ∀ col, b ≤ col → rows[caretVisualRow rows col]? = later[caretVisualRow later col]? := by
    intro b hstart
    induction hstart with
    | first => exact ⟨rows, h, fun _ _ => rfl⟩
    | @next s e _ hcut ih =>
        obtain ⟨later, hlater, hsame⟩ := ih
        cases hlater with
        | last hs hspare =>
            -- a cut row is not the last one
            obtain ⟨far, hfar, hmore, -⟩ := hcut
            have hend : Furthest charCells line width s line.length :=
              ⟨hs, Nat.le_refl _, Nat.le_of_lt hspare, .inl rfl⟩
            rw [hfar.unique hend] at hmore
            exact absurd ⟨rfl, hspare⟩ hmore
        | @cut _ e' rest hs hcut' hrest =>
            obtain rfl := hcut.unique hcells hwidth hs hcut'
            refine ⟨rest, hrest, fun col hcol => ?_⟩
            have hse := (hcut.inside hcells hwidth hs).1
            rw [hsame col (by omega), caretVisualRow_later hcol hrest.ne_nil]
            rfl
  obtain ⟨later, hlater, hsame⟩ := hfrom b hstart
  rw [hsame col hcol]
  cases hlater with
  | last hs hspare =>
      obtain ⟨far, hfar, hmore, -⟩ := hcut
      have hend : Furthest charCells line width b line.length :=
        ⟨hs, Nat.le_refl _, Nat.le_of_lt hspare, .inl rfl⟩
      rw [hfar.unique hend] at hmore
      exact absurd ⟨rfl, hspare⟩ hmore
  | cut hs hcut' hrest =>
      obtain rfl := hcut.unique hcells hwidth hs hcut'
      rw [caretVisualRow_here hcol hlt]
      rfl

/-- Every caret has its cell exactly if no cut row that is full ends with a
character of no cells. -/
theorem visible_iff (hcells : ∀ c, charCells c ≤ 2) (hwidth : 2 ≤ width)
    (h : Rows charCells line width 0 rows) :
    (∀ col ≤ line.length, Visible charCells line width col rows) ↔
      ∀ b e c, RowStart charCells line width b → Cut charCells line width b e →
        cellsIn charCells line b e = width → (line)[e - 1]? = some c → charCells c ≠ 0 := by
  constructor
  · intro hvisible b e c hstart hcut hfull hc hzero
    have hin := (List.getElem?_eq_some_iff.1 hc).1
    have hbe : b < e := by
      by_contra hempty
      have hnone : cellsIn charCells line b e = 0 := by
        rw [cellsIn, slice, List.drop_eq_nil_of_le]
        · rfl
        · rw [List.length_take]
          omega
      omega
    obtain ⟨row, hrow, -, hspare⟩ := hvisible (e - 1) (Nat.le_of_lt hin)
    rw [h.caretVisualRow_cut hcells hwidth hstart hcut (by omega) (by omega)] at hrow
    cases hrow
    -- the caret before that character has the whole row before it
    have hsucc := cellsIn_succ charCells line (by omega : b ≤ e - 1) hc
    rw [Nat.sub_add_cancel (by omega), hzero, Nat.add_zero, hfull] at hsucc
    dsimp only at hspare
    omega
  · intro hends col hcol
    obtain ⟨row, hrow, hle, hwhere⟩ := h.caret_row .first (Nat.zero_le _)
    refine ⟨row, hrow, hle, ?_⟩
    rcases hwhere with hspare | ⟨hstart, hcut, hlt⟩
    · exact Nat.lt_of_le_of_lt (cellsIn_mono charCells line hcol) hspare
    · by_contra hover
      have hlead : cellsIn charCells line row.1 col ≤ cellsIn charCells line row.1 (row.2 - 1) :=
        cellsIn_mono charCells line (by omega)
      have hfits := hcut.fits
      rcases hc : (line)[row.2 - 1]? with _ | c
      · have hend := List.getElem?_eq_none_iff.1 hc
        obtain ⟨far, hfar, -, hcase⟩ := hcut
        have := hfar.inside
        rcases hcase with ⟨-, hle, -⟩ | ⟨heq, -⟩ <;> omega
      · have hsucc := cellsIn_succ charCells line (by omega : row.1 ≤ row.2 - 1) hc
        rw [Nat.sub_add_cancel (by omega)] at hsucc
        exact hends row.1 row.2 c hstart hcut (by omega) hc (by omega)

end Rows

end Compose

end Yaldabaoth
