import Mathlib.Data.List.Flatten
import Mathlib.Data.List.Range
import Yaldabaoth.Proofs.Diff.Headers

/-!
# `Yaldabaoth.Proofs.Diff.Tiling`: the rows of a file tile its new side

Whatever is revealed, the rows of an unfolded file stand for every line of
its new side once and in order, an expander for the lines that are missing
where it stands (`rows_tile_file`). One gap is tiled by its shown lines and
its expander (`gapRows_newLines`); from there the proof runs down the
hunks, with `Reached` saying where the lines of both sides have got to.
-/

set_option autoImplicit false

namespace Yaldabaoth

namespace Diff

open Script

/-! ### What a row stands for -/

namespace RowRef

/-- The lines of the new side that a row stands for. -/
def newLines : RowRef → List Nat
  | line _ _ _ _ new => new.toList
  | ctx _ _ new => [new]
  | expander _ _ first hidden _ _ => List.range' first (hidden.getD 0)
  | _ => []

def newNumber (row : RowRef) : Option Nat := row.sideNumber .new

def hunkIndex : RowRef → Option Nat
  | hunk _ hi => some hi
  | _ => none

/-- The gap of an expander. -/
def gapIndex : RowRef → Option Nat
  | expander _ g _ _ _ _ => some g
  | _ => none

end RowRef

/-! ### One gap -/

/-- The gap is `len` lines that are the same on both sides, the first one
`o` on the old side and `n` on the new one. -/
structure Gap.Spans (gap : Gap) (o n len : Nat) : Prop where
  lo : gap.lo = n
  hi : gap.hi = some (n + len - 1)
  delta : gap.oldDelta = (o : Int) - n
  pos : 0 < n

namespace Gap.Spans

variable {gap : Gap} {o n len : Nat} (h : gap.Spans o n len)

include h

theorem length : gap.len = some len := by
  have hpos := h.pos
  rw [Gap.len, h.hi, h.lo, Option.map_some]
  congr 1
  omega

theorem effective (r : GapReveal) : gap.effective r =
    (min r.top len, min r.bottom (len - min r.top len),
      some (len - min r.top len - min r.bottom (len - min r.top len))) := by
  rw [Gap.effective, h.length]

/-- A shown line has the number of the same line on the old side. -/
theorem old (m : Nat) (hm : n ≤ m) : ((m : Int) + gap.oldDelta).toNat = o + (m - n) := by
  rw [h.delta]
  omega

variable (fi g : Nat) (r : GapReveal) (loading : Bool)

/-- The shown lines of both edges and the expander between them. -/
theorem rows : ∃ top bottom hidden, top + hidden + bottom = len ∧
    (gap.effective r).2.2 = some hidden ∧
    gapRows fi g gap r loading =
      (List.range' n top).map (fun m => RowRef.ctx fi (o + (m - n)) m) ++
        ((if hidden = 0 then [] else [.expander fi g (n + top) (some hidden) gap.kind loading]) ++
          (List.range' (n + top + hidden) bottom).map fun m => RowRef.ctx fi (o + (m - n)) m) := by
  have hpos := h.pos
  have hshown : ∀ first count : Nat, n ≤ first →
      (List.range' first count).map (fun m : Nat => RowRef.ctx fi ((m : Int) + gap.oldDelta).toNat m) =
        (List.range' first count).map fun m => RowRef.ctx fi (o + (m - n)) m := by
    intro first count hfirst
    refine List.map_congr_left fun m hm => ?_
    rw [h.old m (by rw [List.mem_range'_1] at hm; omega)]
  refine ⟨min r.top len, min r.bottom (len - min r.top len),
    len - min r.top len - min r.bottom (len - min r.top len), by omega, by rw [h.effective], ?_⟩
  have htop : n + min r.top len + (len - min r.top len - min r.bottom (len - min r.top len)) =
      n + len - 1 + 1 - min r.bottom (len - min r.top len) := by
    omega
  have hcount : n + len - 1 + 1 - (n + len - 1 + 1 - min r.bottom (len - min r.top len)) =
      min r.bottom (len - min r.top len) := by
    omega
  rw [htop, gapRows, h.effective, h.lo, h.hi]
  dsimp only
  rw [upTo, hcount, hshown n _ (Nat.le_refl n), hshown _ _ (by omega)]
  simp only [Option.some.injEq]

end Gap.Spans

section gap

variable {gap : Gap} {o n len : Nat} (h : gap.Spans o n len) (fi g : Nat) (r : GapReveal)
  (loading : Bool)

theorem ctx_newLines (first count o n : Nat) :
    ((List.range' first count).map fun m => RowRef.ctx fi (o + (m - n)) m).flatMap RowRef.newLines =
      List.range' first count := by
  rw [List.flatMap_map]
  exact List.flatMap_singleton' _

theorem ctx_lineNumbers (first count o n : Nat) :
    ((List.range' first count).map fun m => RowRef.ctx fi (o + (m - n)) m).filterMap
        RowRef.lineNumbers =
      (List.range' first count).map fun m => (some (o + (m - n)), some m) := by
  rw [List.filterMap_map]
  exact congrFun List.filterMap_eq_map (List.range' first count)

theorem numbersFrom_unchanged (o n len : Nat) : Hunk.numbersFrom o n (unchanged len) =
    (List.range' n len).map fun m => (some (o + (m - n)), some m) := by
  induction len generalizing o n with
  | zero => rfl
  | succ len ih =>
      have hrest : (List.range' (n + 1) len).map (fun m => (some (o + 1 + (m - (n + 1))), some m)) =
          (List.range' (n + 1) len).map fun m => (some (o + (m - n)), some m) := by
        refine List.map_congr_left fun m hm => ?_
        rw [List.mem_range'_1] at hm
        rw [show o + 1 + (m - (n + 1)) = o + (m - n) by omega]
      rw [unchanged, List.replicate_succ, Hunk.numbersFrom, List.range'_succ, List.map_cons,
        ← hrest, ← ih, Nat.sub_self]
      rfl

include h

/-- A gap is tiled by what it shows and what it hides. -/
theorem gapRows_newLines :
    (gapRows fi g gap r loading).flatMap RowRef.newLines = List.range' n len := by
  obtain ⟨top, bottom, hidden, hsum, -, hrows⟩ := h.rows fi g r loading
  have hexpander : (if hidden = 0 then []
      else [RowRef.expander fi g (n + top) (some hidden) gap.kind loading]).flatMap RowRef.newLines =
        List.range' (n + top) hidden := by
    split
    · next hzero => rw [hzero]; rfl
    · simp [RowRef.newLines]
  rw [hrows, List.flatMap_append, List.flatMap_append, ctx_newLines, ctx_newLines, hexpander,
    List.range'_append_1, List.range'_append_1, ← hsum]
  congr 1
  omega

/-- What is shown are lines of the gap, in order. -/
theorem gapRows_lineNumbers :
    ((gapRows fi g gap r loading).filterMap RowRef.lineNumbers).Sublist
      (Hunk.numbersFrom o n (unchanged len)) := by
  obtain ⟨top, bottom, hidden, hsum, -, hrows⟩ := h.rows fi g r loading
  have hexpander : (if hidden = 0 then []
      else [RowRef.expander fi g (n + top) (some hidden) gap.kind loading]).filterMap
        RowRef.lineNumbers = [] := by
    split <;> rfl
  have hcut : List.range' n len = List.range' n top ++
      (List.range' (n + top) hidden ++ List.range' (n + top + hidden) bottom) := by
    rw [List.range'_append_1, List.range'_append_1, ← hsum]
    congr 1
    omega
  rw [hrows, List.filterMap_append, List.filterMap_append, ctx_lineNumbers, ctx_lineNumbers,
    hexpander, numbersFrom_unchanged, hcut, List.map_append, List.map_append]
  exact (List.Sublist.refl _).append ((List.nil_sublist _).append (List.Sublist.refl _))

theorem gapRows_gapIndex : (gapRows fi g gap r loading).filterMap RowRef.gapIndex =
    if (gap.effective r).2.2 = some 0 then [] else [g] := by
  obtain ⟨top, bottom, hidden, -, hhidden, hrows⟩ := h.rows fi g r loading
  rw [hrows, hhidden, List.filterMap_append, List.filterMap_append, List.filterMap_map,
    List.filterMap_map]
  have hnone : ∀ first count : Nat, (List.range' first count).filterMap
      (RowRef.gapIndex ∘ fun m => RowRef.ctx fi (o + (m - n)) m) = [] := by
    intro first count
    rw [List.filterMap_eq_nil_iff]
    intro m _
    rfl
  rw [hnone, hnone, List.nil_append, List.append_nil]
  by_cases hzero : hidden = 0
  · simp [hzero]
  · simp [hzero, RowRef.gapIndex]

/-- An expander stands for some lines. -/
theorem gapRows_expander {row : RowRef} (hrow : row ∈ gapRows fi g gap r loading)
    (hgap : row.gapIndex ≠ none) : row.newLines ≠ [] := by
  obtain ⟨top, bottom, hidden, -, -, hrows⟩ := h.rows fi g r loading
  rw [hrows, List.mem_append, List.mem_append, List.mem_map, List.mem_map] at hrow
  rcases hrow with ⟨m, -, rfl⟩ | hexpander | ⟨m, -, rfl⟩
  · exact absurd rfl hgap
  · split at hexpander
    · cases hexpander
    · next hzero =>
      rw [List.mem_singleton.1 hexpander]
      simpa [RowRef.newLines] using hzero
  · exact absurd rfl hgap

theorem gapRows_hunkIndex :
    (gapRows fi g gap r loading).filterMap RowRef.hunkIndex = [] := by
  obtain ⟨top, bottom, hidden, -, -, hrows⟩ := h.rows fi g r loading
  rw [hrows, List.filterMap_eq_nil_iff]
  intro row hrow
  rw [List.mem_append, List.mem_append, List.mem_map, List.mem_map] at hrow
  rcases hrow with ⟨m, -, rfl⟩ | hexpander | ⟨m, -, rfl⟩
  · rfl
  · split at hexpander
    · cases hexpander
    · rw [List.mem_singleton.1 hexpander]
      rfl
  · rfl

end gap

/-! ### The lines of a hunk -/

theorem numbersFrom_new (o n : Nat) (lines : List DiffLine) :
    (Hunk.numbersFrom o n lines).flatMap (fun numbers => numbers.2.toList) =
      List.range' n (newCount lines) := by
  induction lines generalizing o n with
  | nil => rfl
  | cons line lines ih =>
      cases line with
      | context _ =>
          rw [Hunk.numbersFrom, List.flatMap_cons, ih, newCount_context, List.range'_succ]
          rfl
      | removed _ =>
          rw [Hunk.numbersFrom, List.flatMap_cons, ih, newCount_removed]
          rfl
      | added _ =>
          rw [Hunk.numbersFrom, List.flatMap_cons, ih, newCount_added, List.range'_succ]
          rfl

section lines

variable (fi hi : Nat) (h : Hunk)

theorem lineRows_newLines : (lineRows fi hi h).flatMap RowRef.newLines =
    h.lineNumbers.flatMap fun numbers => numbers.2.toList := by
  have hfst := List.flatMap_map Prod.fst
    (fun numbers : Option Nat × Option Nat => numbers.2.toList) h.lineNumbers.zipIdx
  rw [List.zipIdx_map_fst] at hfst
  rw [lineRows, List.flatMap_map, hfst]
  rfl

theorem lineRows_lineNumbers :
    (lineRows fi hi h).filterMap RowRef.lineNumbers = h.lineNumbers := by
  rw [lineRows, List.filterMap_map]
  show h.lineNumbers.zipIdx.filterMap (some ∘ Prod.fst) = _
  rw [List.filterMap_eq_map, List.zipIdx_map_fst]

theorem lineRows_index : (lineRows fi hi h).filterMap RowRef.hunkIndex = [] ∧
    (lineRows fi hi h).filterMap RowRef.gapIndex = [] := by
  constructor
  · rw [lineRows, List.filterMap_map, List.filterMap_eq_nil_iff]
    intro entry _
    rfl
  · rw [lineRows, List.filterMap_map, List.filterMap_eq_nil_iff]
    intro entry _
    rfl

end lines

/-! ### Down the hunks -/

/-- Above the blocks `rest` are the hunks `front`, and their first lines
are `o` and `n`. -/
structure Reached (f : FileDiff) (s : Script) (front : List Hunk) (o n : Nat) (rest : List Block) :
    Prop where
  hunks : f.hunks = front ++ hunksFrom o n rest
  start : front = [] ∧ o = 1 ∧ n = 1 ∨ ∃ h, front.getLast? = some h ∧ h.nextLines = (o, n)
  pos : 0 < o ∧ 0 < n
  old : o + oldCount (linesFrom s.below rest) = oldCount s.lines + 1
  new : n + newCount (linesFrom s.below rest) = newCount s.lines + 1

namespace Reached

variable {f : FileDiff} {s : Script} {front : List Hunk} {o n : Nat} {b : Block} {rest : List Block}

theorem top (hhunks : f.hunks = s.hunks) : Reached f s [] 1 1 s.blocks where
  hunks := hhunks
  start := .inl ⟨rfl, rfl, rfl⟩
  pos := ⟨Nat.one_pos, Nat.one_pos⟩
  old := Nat.add_comm ..
  new := Nat.add_comm ..

/-- The numbers in the next header are machine words. -/
theorem fits (h : Reached f s front o n (b :: rest)) (hfits : s.Fits) :
    startOf (o + b.before) (oldCount b.lines) ≤ u64Max ∧
      startOf (n + b.before) (newCount b.lines) ≤ u64Max ∧
      oldCount b.lines ≤ u64Max ∧ newCount b.lines ≤ u64Max := by
  have hpos := h.pos
  have hold := h.old
  have hnew := h.new
  obtain ⟨hmost, hmost'⟩ := hfits
  rw [linesFrom, oldCount_append, oldCount_append, oldCount_unchanged] at hold
  rw [linesFrom, newCount_append, newCount_append, newCount_unchanged] at hnew
  refine ⟨?_, ?_, by omega, by omega⟩
  · rw [startOf]
    split <;> omega
  · rw [startOf]
    split <;> omega

/-- Past the next hunk. -/
theorem next (h : Reached f s front o n (b :: rest)) (hfits : s.Fits) :
    Reached f s (front ++ [hunkAt (o + b.before) (n + b.before) b])
      (o + b.before + oldCount b.lines) (n + b.before + newCount b.lines) rest := by
  have hpos := h.pos
  have hold := h.old
  have hnew := h.new
  obtain ⟨hstart, hstart', holds, hnews⟩ := h.fits hfits
  rw [linesFrom, oldCount_append, oldCount_append, oldCount_unchanged] at hold
  rw [linesFrom, newCount_append, newCount_append, newCount_unchanged] at hnew
  refine ⟨?_, .inr ⟨_, List.getLast?_concat .., ?_⟩, by omega, by omega, by omega⟩
  · rw [h.hunks, List.append_assoc]
    rfl
  · exact nextLines_hunkAt hstart hstart' holds hnews (by omega) (by omega)

/-- A gap starts behind the hunk above, or at the first line. -/
theorem fileGap_start (h : Reached f s front o n rest) (hfits : s.Fits) (total : Option Nat)
    (hne : f.hunks ≠ []) :
    (fileGap f total front.length).lo = n ∧
      (fileGap f total front.length).oldDelta = (o : Int) - n := by
  have hhunks := h.hunks
  rcases h.start with ⟨rfl, rfl, rfl⟩ | ⟨last, hlast, hnext⟩
  · -- the first hunk starts as far down on both sides
    cases rest with
    | nil => exact absurd hhunks hne
    | cons b rest =>
        obtain ⟨hstart, hstart', holds, hnews⟩ := h.fits hfits
        have hfirst := firstLines_hunkAt hstart hstart' holds hnews (by omega) (by omega)
        rw [List.nil_append, hunksFrom] at hhunks
        rw [fileGap, hhunks]
        simp [hfirst]
  · obtain ⟨before, rfl⟩ := List.getLast?_eq_some_iff.1 hlast
    have habove : f.hunks[before.length]? = some last := by
      rw [hhunks, List.append_assoc, List.getElem?_append_right (Nat.le_refl _)]
      simp
    simp [fileGap, habove, hnext]

theorem spans_above (h : Reached f s front o n (b :: rest)) (hfits : s.Fits) (total : Option Nat) :
    (fileGap f total front.length).Spans o n b.before := by
  obtain ⟨hstart, hstart', holds, hnews⟩ := h.fits hfits
  have hpos := h.pos
  have hhunks := h.hunks
  rw [hunksFrom] at hhunks
  have hne : f.hunks ≠ [] := by
    rw [hhunks]
    simp
  obtain ⟨hlo, hdelta⟩ := h.fileGap_start hfits total hne
  have hfirst := firstLines_hunkAt hstart hstart' holds hnews (by omega) (by omega)
  have hlt : front.length < f.hunks.length := by
    rw [hhunks]
    simp
  have hat : f.hunks[front.length]? = some (hunkAt (o + b.before) (n + b.before) b) := by
    rw [hhunks, List.getElem?_append_right (Nat.le_refl _)]
    simp
  have hend : ((f.hunks[front.length]?.map Hunk.firstLines).getD (0, 0)).2 = n + b.before := by
    rw [hat, Option.map_some, hfirst]
    rfl
  refine ⟨hlo, ?_, hdelta, hpos.2⟩
  rw [← hend]
  exact if_pos hlt

theorem spans_below (h : Reached f s front o n []) (hfits : s.Fits) (hne : f.hunks ≠ []) :
    (fileGap f (some s.newTotal) front.length).Spans o n s.below := by
  obtain ⟨hlo, hdelta⟩ := h.fileGap_start hfits (some s.newTotal) hne
  have hnew := h.new
  have hhunks := h.hunks
  rw [linesFrom, newCount_unchanged] at hnew
  rw [hunksFrom, List.append_nil] at hhunks
  have hend : s.newTotal = n + s.below - 1 := by
    rw [Script.newTotal]
    omega
  refine ⟨hlo, ?_, hdelta, h.pos.2⟩
  rw [fileGap, hhunks, hend]
  simp

end Reached

/-! ### The body of a file -/

section body

variable {f : FileDiff} {s : Script} (hexp : expandable f = true) (hfits : s.Fits) (fi : Nat)
  (reveal : Nat → GapReveal) (loading : Bool)

/-- All gaps of the file, with its text loaded. -/
def gapsOf (f : FileDiff) (s : Script) : List Gap := fileGaps f (some s.newTotal)

include hexp

theorem gapsOf_get {g : Nat} (hg : g ≤ f.hunks.length) :
    (gapsOf f s)[g]? = some (fileGap f (some s.newTotal) g) := by
  rw [gapsOf, fileGaps, if_pos hexp, List.getElem?_map, List.getElem?_range (by omega)]
  rfl

theorem pushGap_gapsOf {g : Nat} (hg : g ≤ f.hunks.length) :
    pushGap fi (gapsOf f s) reveal loading g =
      (gapRows fi g (fileGap f (some s.newTotal) g) (reveal g) loading,
        (fileGap f (some s.newTotal) g).merges (reveal g)) := by
  rw [pushGap, gapsOf_get hexp hg]

theorem hunks_ne_nil : f.hunks ≠ [] := by
  intro hnil
  simp [expandable, hnil] at hexp

end body

/-- What is listed from a block on. -/
def rowsFrom (fi : Nat) (f : FileDiff) (s : Script) (reveal : Nat → GapReveal) (loading : Bool)
    (front : List Hunk) (o n : Nat) (rest : List Block) : List RowRef :=
  hunkRows fi (gapsOf f s) reveal loading front.length (hunksFrom o n rest)

namespace Reached

variable {f : FileDiff} {s : Script} {front : List Hunk} {o n : Nat} {b : Block} {rest : List Block}
  (hexp : expandable f = true) (hfits : s.Fits) (fi : Nat)
  (reveal : Nat → GapReveal) (loading : Bool)

include hexp

theorem rowsFrom_below (h : Reached f s front o n []) :
    rowsFrom fi f s reveal loading front o n [] =
      gapRows fi front.length (fileGap f (some s.newTotal) front.length) (reveal front.length)
        loading := by
  have hhunks := h.hunks
  rw [hunksFrom, List.append_nil] at hhunks
  rw [rowsFrom, hunksFrom, hunkRows, pushGap_gapsOf hexp fi reveal loading (by rw [hhunks])]

/-- The rows of the gap, the header if it stays, the lines of the hunk, and
what is below. -/
theorem rowsFrom_above (h : Reached f s front o n (b :: rest)) :
    rowsFrom fi f s reveal loading front o n (b :: rest) =
      gapRows fi front.length (fileGap f (some s.newTotal) front.length) (reveal front.length)
          loading ++
        ((if (fileGap f (some s.newTotal) front.length).merges (reveal front.length) = true then []
          else [.hunk fi front.length]) ++
          (lineRows fi front.length (hunkAt (o + b.before) (n + b.before) b) ++
            rowsFrom fi f s reveal loading (front ++ [hunkAt (o + b.before) (n + b.before) b])
              (o + b.before + oldCount b.lines) (n + b.before + newCount b.lines) rest)) := by
  have hhunks := h.hunks
  have hle : front.length ≤ f.hunks.length := by
    rw [hhunks, List.length_append]
    omega
  rw [rowsFrom, hunksFrom, hunkRows, pushGap_gapsOf hexp fi reveal loading hle, rowsFrom,
    List.length_append, List.length_singleton]

include hfits

/-- From any block on, the rows stand for the lines of the new side that
are still to come, once and in order. -/
theorem newLines (h : Reached f s front o n rest) :
    (rowsFrom fi f s reveal loading front o n rest).flatMap RowRef.newLines =
      List.range' n (newCount (linesFrom s.below rest)) := by
  induction rest generalizing front o n with
  | nil =>
      have hgap := h.spans_below hfits (hunks_ne_nil hexp)
      rw [h.rowsFrom_below hexp fi reveal loading, gapRows_newLines hgap, linesFrom,
        newCount_unchanged]
  | cons b rest ih =>
      obtain ⟨hstart, hstart', -, -⟩ := h.fits hfits
      have hgap := h.spans_above hfits (some s.newTotal)
      have hheader : (if (fileGap f (some s.newTotal) front.length).merges (reveal front.length) =
          true then [] else [RowRef.hunk fi front.length]).flatMap RowRef.newLines = [] := by
        split <;> rfl
      rw [h.rowsFrom_above hexp fi reveal loading, List.flatMap_append, List.flatMap_append,
        List.flatMap_append, gapRows_newLines hgap, hheader, lineRows_newLines,
        lineNumbers_hunkAt hstart hstart', numbersFrom_new, ih (h.next hfits), List.nil_append,
        List.range'_append_1, List.range'_append_1, linesFrom, newCount_append, newCount_append,
        newCount_unchanged]

/-- The rows of code are lines of the file with their numbers on both
sides, in order. -/
theorem lineNumbers (h : Reached f s front o n rest) :
    ((rowsFrom fi f s reveal loading front o n rest).filterMap RowRef.lineNumbers).Sublist
      (Hunk.numbersFrom o n (linesFrom s.below rest)) := by
  induction rest generalizing front o n with
  | nil =>
      have hgap := h.spans_below hfits (hunks_ne_nil hexp)
      rw [h.rowsFrom_below hexp fi reveal loading, linesFrom]
      exact gapRows_lineNumbers hgap ..
  | cons b rest ih =>
      obtain ⟨hstart, hstart', -, -⟩ := h.fits hfits
      have hgap := h.spans_above hfits (some s.newTotal)
      have hheader : (if (fileGap f (some s.newTotal) front.length).merges (reveal front.length) =
          true then [] else [RowRef.hunk fi front.length]).filterMap RowRef.lineNumbers = [] := by
        split <;> rfl
      rw [h.rowsFrom_above hexp fi reveal loading, List.filterMap_append, List.filterMap_append,
        List.filterMap_append, hheader, lineRows_lineNumbers, lineNumbers_hunkAt hstart hstart',
        List.nil_append, linesFrom, numbersFrom_append, numbersFrom_append, oldCount_unchanged,
        newCount_unchanged]
      exact (gapRows_lineNumbers hgap ..).append ((List.Sublist.refl _).append (ih (h.next hfits)))

/-- An expander stands for some lines. -/
theorem expander (h : Reached f s front o n rest) {row : RowRef}
    (hrow : row ∈ rowsFrom fi f s reveal loading front o n rest) (hgap : row.gapIndex ≠ none) :
    row.newLines ≠ [] := by
  induction rest generalizing front o n with
  | nil =>
      rw [h.rowsFrom_below hexp fi reveal loading] at hrow
      exact gapRows_expander (h.spans_below hfits (hunks_ne_nil hexp)) _ _ _ _ hrow hgap
  | cons b rest ih =>
      rw [h.rowsFrom_above hexp fi reveal loading, List.mem_append, List.mem_append,
        List.mem_append] at hrow
      rcases hrow with hinside | hheader | hline | hbelow
      · exact gapRows_expander (h.spans_above hfits _) _ _ _ _ hinside hgap
      · split at hheader
        · cases hheader
        · rw [List.mem_singleton.1 hheader] at hgap
          exact absurd rfl hgap
      · have hnone := (List.filterMap_eq_nil_iff.1 (lineRows_index fi front.length _).2) row hline
        exact absurd hnone hgap
      · exact ih (h.next hfits) hbelow

/-- The headers that are listed. -/
theorem hunkIndices (h : Reached f s front o n rest) :
    (rowsFrom fi f s reveal loading front o n rest).filterMap RowRef.hunkIndex =
      (List.range' front.length rest.length).filter fun k =>
        !(fileGap f (some s.newTotal) k).merges (reveal k) := by
  induction rest generalizing front o n with
  | nil =>
      rw [h.rowsFrom_below hexp fi reveal loading,
        gapRows_hunkIndex (h.spans_below hfits (hunks_ne_nil hexp))]
      rfl
  | cons b rest ih =>
      rw [h.rowsFrom_above hexp fi reveal loading, List.filterMap_append, List.filterMap_append,
        List.filterMap_append, gapRows_hunkIndex (h.spans_above hfits _),
        (lineRows_index fi front.length _).1, ih (h.next hfits), List.length_append,
        List.length_singleton, List.length_cons, List.range'_succ, List.filter_cons,
        List.nil_append, List.nil_append]
      cases (fileGap f (some s.newTotal) front.length).merges (reveal front.length) <;> rfl

/-- The gaps that have an expander. -/
theorem gapIndices (h : Reached f s front o n rest) :
    (rowsFrom fi f s reveal loading front o n rest).filterMap RowRef.gapIndex =
      (List.range' front.length (rest.length + 1)).filter fun k =>
        ((fileGap f (some s.newTotal) k).effective (reveal k)).2.2 ≠ some 0 := by
  induction rest generalizing front o n with
  | nil =>
      rw [h.rowsFrom_below hexp fi reveal loading,
        gapRows_gapIndex (h.spans_below hfits (hunks_ne_nil hexp))]
      simp [List.filter_cons]
  | cons b rest ih =>
      have hheader : (if (fileGap f (some s.newTotal) front.length).merges (reveal front.length) =
          true then [] else [RowRef.hunk fi front.length]).filterMap RowRef.gapIndex = [] := by
        split <;> rfl
      have hcons : List.range' front.length (rest.length + 1 + 1) =
          front.length :: List.range' (front.length + 1) (rest.length + 1) := List.range'_succ
      rw [h.rowsFrom_above hexp fi reveal loading, List.filterMap_append, List.filterMap_append,
        List.filterMap_append, gapRows_gapIndex (h.spans_above hfits _), hheader,
        (lineRows_index fi front.length _).2, ih (h.next hfits), List.length_append,
        List.length_singleton, List.length_cons, hcons, List.filter_cons,
        List.nil_append, List.nil_append]
      by_cases hzero : ((fileGap f (some s.newTotal) front.length).effective
          (reveal front.length)).2.2 = some 0
      · simp only [hzero, ne_eq, not_true_eq_false, decide_false, Bool.false_eq_true, if_false,
          if_true, List.nil_append]
      · simp only [hzero, ne_eq, not_false_eq_true, decide_true, if_false, if_true,
          List.singleton_append]

omit hexp in
theorem len_at (h : Reached f s front o n rest) {i : Nat} (hb : rest[i]? = some b) :
    (fileGap f (some s.newTotal) (front.length + i)).len = some b.before := by
  induction rest generalizing front o n i with
  | nil => cases hb
  | cons first rest ih =>
      cases i with
      | zero =>
          rw [List.getElem?_cons_zero, Option.some.injEq] at hb
          subst hb
          exact (h.spans_above hfits _).length
      | succ i =>
          rw [List.getElem?_cons_succ] at hb
          have hnext := ih (h.next hfits) hb
          rw [List.length_append, List.length_singleton, Nat.add_assoc, Nat.add_comm 1 i] at hnext
          exact hnext

/-- A header is missing where the gap above is not empty and has no
expander. -/
theorem header_missing (h : Reached f s front o n rest) {i : Nat} (hb : rest[i]? = some b) :
    front.length + i ∉ (rowsFrom fi f s reveal loading front o n rest).filterMap RowRef.hunkIndex ↔
      0 < b.before ∧ front.length + i ∉
        (rowsFrom fi f s reveal loading front o n rest).filterMap RowRef.gapIndex := by
  have hlt : i < rest.length := (List.getElem?_eq_some_iff.1 hb).1
  rw [h.hunkIndices hexp hfits fi reveal loading, h.gapIndices hexp hfits fi reveal loading,
    List.mem_filter, List.mem_filter, List.mem_range'_1, List.mem_range'_1, Gap.merges,
    h.len_at hfits hb]
  have hin : front.length ≤ front.length + i ∧ front.length + i < front.length + rest.length := by
    omega
  have hin' : front.length ≤ front.length + i ∧
      front.length + i < front.length + (rest.length + 1) := by
    omega
  simp [hin, hin', and_comm]

end Reached

/-! ### Rows of a whole file -/

/-- What is listed of a script in a file: every line of the new side at
most once, upwards, with the number of the same line on the old side; an
expander for exactly what is missing where it stands; a header unless the
gap above it is not empty and fully shown. -/
structure Tiled (rows : List RowRef) (s : Script) : Prop where
  increasing : (rows.filterMap RowRef.newNumber).Pairwise (· < ·)
  numbered : (rows.filterMap RowRef.lineNumbers).Sublist s.numbers
  standing : rows.flatMap RowRef.newLines = List.range' 1 s.newTotal
  expander : ∀ row ∈ rows, row.gapIndex ≠ none → row.newLines ≠ []
  header : ∀ k b, s.blocks[k]? = some b → (k ∉ rows.filterMap RowRef.hunkIndex ↔
    0 < b.before ∧ k ∉ rows.filterMap RowRef.gapIndex)
  complete : rows.filterMap RowRef.gapIndex = [] →
    rows.filterMap RowRef.newNumber = List.range' 1 s.newTotal

theorem newNumber_sublist (row : RowRef) : row.newNumber.toList.Sublist row.newLines := by
  cases row with
  | expander => exact List.nil_sublist _
  | line => exact List.Sublist.refl _
  | ctx => exact List.Sublist.refl _
  | file => exact List.Sublist.refl _
  | hunk => exact List.Sublist.refl _
  | comment => exact List.Sublist.refl _

theorem newLines_of_gapIndex {row : RowRef} (h : row.gapIndex = none) :
    row.newLines = row.newNumber.toList := by
  cases row with
  | expander => cases h
  | line => rfl
  | ctx => rfl
  | file => rfl
  | hunk => rfl
  | comment => rfl

/-- The numbers in the rows, from what the rows stand for. -/
theorem tiled_of_standing {rows : List RowRef} {s : Script}
    (hnumbered : (rows.filterMap RowRef.lineNumbers).Sublist s.numbers)
    (hstanding : rows.flatMap RowRef.newLines = List.range' 1 s.newTotal)
    (hexpander : ∀ row ∈ rows, row.gapIndex ≠ none → row.newLines ≠ [])
    (hheader : ∀ k b, s.blocks[k]? = some b → (k ∉ rows.filterMap RowRef.hunkIndex ↔
      0 < b.before ∧ k ∉ rows.filterMap RowRef.gapIndex)) : Tiled rows s := by
  refine ⟨?_, hnumbered, hstanding, hexpander, hheader, ?_⟩
  · have hsub := List.Sublist.flatMap_right rows fun row _ => newNumber_sublist row
    rw [hstanding, ← List.filterMap_eq_flatMap_toList] at hsub
    have hrange : (List.range' 1 s.newTotal).Pairwise (· < ·) := List.pairwise_lt_range'
    exact hrange.sublist hsub
  · intro hnone
    rw [← hstanding, List.filterMap_eq_flatMap_toList]
    refine (List.flatMap_congr fun row hrow => ?_).symm
    exact newLines_of_gapIndex (List.filterMap_eq_nil_iff.1 hnone row hrow)

theorem tiled_body {f : FileDiff} {s : Script} (hexp : expandable f = true) (hfits : s.Fits)
    (hhunks : f.hunks = s.hunks) (fi : Nat) (reveal : Nat → GapReveal) (loading : Bool) :
    Tiled (hunkRows fi (gapsOf f s) reveal loading 0 f.hunks) s := by
  have h := Reached.top hhunks
  have hrows : hunkRows fi (gapsOf f s) reveal loading 0 f.hunks =
      rowsFrom fi f s reveal loading [] 1 1 s.blocks := by
    rw [rowsFrom, hhunks]
    rfl
  rw [hrows]
  refine tiled_of_standing (h.lineNumbers hexp hfits fi reveal loading)
    (h.newLines hexp hfits fi reveal loading)
    (fun row => h.expander hexp hfits fi reveal loading) ?_
  intro k b hb
  have hheader := h.header_missing hexp hfits fi reveal loading hb
  rw [List.length_nil, Nat.zero_add] at hheader
  exact hheader

end Diff

end Yaldabaoth
