import Mathlib.Data.List.Basic

/-!
# `Yaldabaoth.Lib.RangeTable`: maps given by ranges

A map of numbers that moves ranges, each with a step, and leaves all other
numbers where they are (`image`). What the images keep off is seen from the
rows alone (`image_fixed`, `image_induction`).
-/

set_option autoImplicit false

namespace RangeTable

/-- The numbers from `first` to `last`, in steps, go to those from `base`
on. -/
structure Row where
  first : Nat
  last : Nat
  step : Nat
  base : Nat
deriving Repr, DecidableEq

namespace Row

def covers (row : Row) (n : Nat) : Bool :=
  row.first ≤ n && n ≤ row.last && (n - row.first) % row.step == 0

def image (row : Row) (n : Nat) : Nat := row.base + (n - row.first)

/-- The image of the last number. -/
def top (row : Row) : Nat := row.base + (row.last - row.first)

/-- No image of the row is covered by the other. -/
def apart (row other : Row) : Bool :=
  row.top < other.first || other.last < row.base ||
    (row.step == 2 && other.step == 2 && row.base % 2 != other.first % 2)

theorem image_between {row : Row} {n : Nat} (h : row.covers n = true) :
    row.base ≤ row.image n ∧ row.image n ≤ row.top := by
  simp only [covers, Bool.and_eq_true, decide_eq_true_eq] at h
  simp only [image, top]
  omega

theorem covers_apart {row other : Row} (h : row.apart other = true) {n : Nat}
    (hn : row.covers n = true) : other.covers (row.image n) = false := by
  obtain ⟨hbase, htop⟩ := image_between hn
  by_contra hcovers
  simp only [covers, apart, Bool.and_eq_true, Bool.or_eq_true, decide_eq_true_eq, beq_iff_eq,
    bne_iff_ne, Bool.not_eq_false] at h hn hcovers
  rcases h with (habove | hbelow) | ⟨⟨hstep, hother⟩, hparity⟩
  · omega
  · omega
  · -- both go in steps of two, on different sides
    rw [hstep] at hn
    rw [hother] at hcovers
    simp only [image] at hcovers
    omega

end Row

def image (rows : List Row) (n : Nat) : Nat :=
  match rows.find? fun row => row.covers n with
  | some row => row.image n
  | none => n

/-- A number stays or is the image under a row. -/
theorem image_cases (rows : List Row) (n : Nat) :
    image rows n = n ∨
      ∃ row ∈ rows, row.covers n = true ∧ image rows n = row.image n := by
  cases hfind : rows.find? fun row => row.covers n with
  | none =>
      left
      rw [image, hfind]
  | some row =>
      right
      have hcovers := List.find?_some hfind
      refine ⟨row, List.mem_of_find?_eq_some hfind, by simpa using hcovers, ?_⟩
      rw [image, hfind]

theorem image_uncovered {rows : List Row} {n : Nat}
    (h : ∀ row ∈ rows, row.covers n = false) : image rows n = n := by
  have hnone : (rows.find? fun row => row.covers n) = none := by
    rw [List.find?_eq_none]
    intro row hrow
    simp [h row hrow]
  rw [image, hnone]

/-- What holds of a number and of all images holds of its image. -/
theorem image_induction {rows : List Row} {P : Nat → Prop} {n : Nat} (hn : P n)
    (hrows : ∀ row ∈ rows, ∀ m, row.base ≤ m → m ≤ row.top → P m) : P (image rows n) := by
  rcases image_cases rows n with hsame | ⟨row, hrow, hcovers, himage⟩
  · rw [hsame]
    exact hn
  · rw [himage]
    have hbetween := Row.image_between hcovers
    exact hrows row hrow _ hbetween.1 hbetween.2

/-! ### A table in blocks

Most rows lead far away from most others, so a row is compared with the
hull of a block first.
-/

/-- The `i`-th block of `n` rows. -/
def block (n : Nat) (rows : List Row) (i : Nat) : List Row := (rows.drop (n * i)).take n

theorem mem_block {n : Nat} (hn : 0 < n) {rows : List Row} {row : Row} (h : row ∈ rows) :
    ∃ i < rows.length / n + 1, row ∈ block n rows i := by
  obtain ⟨j, hj, rfl⟩ := List.mem_iff_getElem.1 h
  refine ⟨j / n, Nat.lt_succ_of_le (Nat.div_le_div_right (Nat.le_of_lt hj)), ?_⟩
  rw [block, List.mem_iff_getElem?]
  refine ⟨j % n, ?_⟩
  rw [List.getElem?_take_of_lt (Nat.mod_lt _ hn), List.getElem?_drop, Nat.div_add_mod]
  exact List.getElem?_eq_getElem hj

/-- No row covers a smaller number. -/
def low (rows : List Row) : Nat := rows.foldr (fun row m => min row.first m) 0x110000

/-- No row covers a larger number. -/
def high (rows : List Row) : Nat := rows.foldr (fun row m => max row.last m) 0

theorem between_hull {rows : List Row} {row : Row} (h : row ∈ rows) :
    low rows ≤ row.first ∧ row.last ≤ high rows := by
  induction rows with
  | nil => cases h
  | cons head rest ih =>
      simp only [low, high, List.foldr_cons] at ih ⊢
      rcases List.mem_cons.1 h with rfl | h
      · omega
      · have hrest := ih h
        omega

/-- No image is covered, by blocks of `n` rows. -/
def apartInBlocks (n : Nat) (rows : List Row) : Bool :=
  (List.range (rows.length / n + 1)).all fun i => rows.all fun row =>
    row.top < low (block n rows i) || high (block n rows i) < row.base ||
      (block n rows i).all fun other => row.apart other

theorem apart_of_blocks {n : Nat} (hn : 0 < n) {rows : List Row}
    (h : apartInBlocks n rows = true) :
    (rows.all fun row => rows.all fun other => row.apart other) = true := by
  refine List.all_eq_true.2 fun row hrow => List.all_eq_true.2 fun other hother => ?_
  obtain ⟨i, hi, hmem⟩ := mem_block hn hother
  have hhull := between_hull hmem
  have hblock := List.all_eq_true.1 (List.all_eq_true.1 h i (List.mem_range.2 hi)) row hrow
  simp only [Bool.or_eq_true, decide_eq_true_eq] at hblock
  rcases hblock with (hbelow | habove) | hall
  · simp only [Row.apart, Bool.or_eq_true, decide_eq_true_eq]
    omega
  · simp only [Row.apart, Bool.or_eq_true, decide_eq_true_eq]
    omega
  · exact List.all_eq_true.1 hall other hmem

/-- If no image is covered, the map does nothing more to images. -/
theorem image_fixed {rows : List Row}
    (h : (rows.all fun row => rows.all fun other => row.apart other) = true)
    (n : Nat) : image rows (image rows n) = image rows n := by
  rcases image_cases rows n with hsame | ⟨row, hrow, hcovers, himage⟩
  · rw [hsame, hsame]
  · apply image_uncovered
    intro other hother
    rw [himage]
    exact Row.covers_apart (List.all_eq_true.1 (List.all_eq_true.1 h row hrow) other hother)
      hcovers

end RangeTable
