import Yaldabaoth.Lib.Assoc
import Yaldabaoth.Model.DesktopState

/-!
# `Yaldabaoth.Proofs.Frame.Plane`: tiles on the plane do not overlap

A placement is a list of slots in reading order and a sparse table of
spans. `rectOf` reads a tile's rectangle from both, and all that is said
of an operation is what it does to `rectOf`. `Tidy` is the invariant. It
survives a move into a free rectangle (`Tidy.moved`), and drops and
resizes are such moves. The exchanges and the reconcile are in
`Yaldabaoth.Proofs.Frame.Arrangements`.
-/

set_option autoImplicit false

namespace Yaldabaoth

/-! ### Rectangles -/

def Covers (r : Slot × Span) (cell : Slot) : Prop :=
  r.1.row ≤ cell.row ∧ cell.row < r.1.row + r.2.rows ∧
    r.1.col ≤ cell.col ∧ cell.col < r.1.col + r.2.cols

def Apart (r r' : Slot × Span) : Prop := ∀ cell, ¬ (Covers r cell ∧ Covers r' cell)

theorem Apart.symm {r r' : Slot × Span} (h : Apart r r') : Apart r' r :=
  fun cell hboth => h cell hboth.symm

theorem Apart.mono {r r' small : Slot × Span} (h : Apart r r')
    (hsmall : ∀ cell, Covers small cell → Covers r cell) : Apart small r' :=
  fun cell hboth => h cell ⟨hsmall cell hboth.1, hboth.2⟩

namespace Span

/-- Every axis is one slot at least. -/
def Solid (span : Span) : Prop := 1 ≤ span.rows ∧ 1 ≤ span.cols

theorem new_solid (rows cols : Nat) : (Span.new rows cols).Solid := by
  simp only [Solid, Span.new]
  omega

end Span

namespace DesktopState

/-! ### Reading a placement -/

theorem slotOf_eq (d : DesktopState) (id : WindowId) : d.slotOf id = Assoc.get d.slots id := rfl

theorem spanOf_eq (d : DesktopState) (id : WindowId) :
    d.spanOf id = (Assoc.get d.spans id).getD .one := rfl

theorem mem_ids {d : DesktopState} {id : WindowId} : id ∈ d.ids ↔ (d.slotOf id).isSome = true :=
  Assoc.get_isSome.symm

theorem rectOf_eq_some {d : DesktopState} {id : WindowId} {r : Slot × Span} :
    d.rectOf id = some r ↔ d.slotOf id = some r.1 ∧ d.spanOf id = r.2 := by
  rw [rectOf, Option.map_eq_some_iff]
  constructor
  · rintro ⟨slot, hslot, rfl⟩
    exact ⟨hslot, rfl⟩
  · rintro ⟨hslot, hspan⟩
    exact ⟨r.1, hslot, by rw [hspan]⟩

theorem rectOf_isSome {d : DesktopState} {id : WindowId} :
    (d.rectOf id).isSome = true ↔ id ∈ d.ids := by
  rw [rectOf, Option.isSome_map, mem_ids]

theorem spanOf_setSpanRaw (d : DesktopState) (id x : WindowId) (span : Span) :
    (d.setSpanRaw id span).spanOf x = if x = id then span else d.spanOf x := by
  have hothers : Assoc.get (d.spans.filter fun entry => entry.1 ≠ id) x =
      if x = id then none else Assoc.get d.spans x := by
    rw [Assoc.get_filter (fun k => decide (k ≠ id))]
    by_cases hx : x = id <;> simp [hx]
  rw [spanOf_eq, setSpanRaw]
  dsimp only
  by_cases hone : span = .one
  · rw [if_pos hone, hothers]
    by_cases hx : x = id
    · rw [if_pos hx, if_pos hx, hone]
      rfl
    · rw [if_neg hx, if_neg hx, spanOf_eq]
  · rw [if_neg hone, Assoc.get_append, hothers, Assoc.get_cons]
    by_cases hx : x = id
    · rw [if_pos hx, if_pos hx, if_pos hx.symm]
      rfl
    · rw [if_neg hx, if_neg hx, if_neg (Ne.symm hx), Assoc.get_nil, Option.or_none, spanOf_eq]

@[simp] theorem setSpan_slots (d : DesktopState) (id : WindowId) (span : Span) :
    (d.setSpan id span).slots = d.slots := by
  rw [setSpan]
  split <;> rfl

theorem spanOf_setSpan (d : DesktopState) (id x : WindowId) (span : Span) :
    (d.setSpan id span).spanOf x = if x = id then span else d.spanOf x := by
  rw [setSpan]
  split
  · exact spanOf_setSpanRaw _ id x span
  · exact spanOf_setSpanRaw _ id x span

/-! ### Reading order -/

/-- How the entries are sorted. -/
def InOrder (a b : WindowId × Slot) : Prop := a.2.key ≤ b.2.key

instance : DecidableRel InOrder := fun a b => inferInstanceAs (Decidable (a.2.key ≤ b.2.key))

instance : IsTrans (WindowId × Slot) InOrder := ⟨fun _ _ _ => le_trans⟩

instance : Std.Total InOrder := ⟨fun a b => le_total a.2.key b.2.key⟩

theorem sort_perm (d : DesktopState) : d.sort.slots.Perm d.slots := List.perm_insertionSort _ _

theorem sort_sorted (d : DesktopState) : d.sort.slots.Pairwise InOrder :=
  List.pairwise_insertionSort InOrder d.slots

theorem sort_of_sorted {d : DesktopState} (h : d.slots.Pairwise InOrder) : d.sort = d := by
  rw [sort]
  have hsame := List.Pairwise.insertionSort_eq h
  rw [show (d.slots.insertionSort fun a b => a.2.key ≤ b.2.key) = d.slots from hsame]

theorem sort_nodup {d : DesktopState} (h : d.ids.Nodup) : d.sort.ids.Nodup :=
  (d.sort_perm.map Prod.fst).nodup_iff.2 h

theorem slotOf_sort {d : DesktopState} (h : d.ids.Nodup) (id : WindowId) :
    d.sort.slotOf id = d.slotOf id :=
  Assoc.get_perm d.sort_perm (sort_nodup h) id

theorem rectOf_sort {d : DesktopState} (h : d.ids.Nodup) (id : WindowId) :
    d.sort.rectOf id = d.rectOf id := by
  rw [rectOf, slotOf_sort h]
  rfl

/-! ### The invariant -/

structure Tidy (d : DesktopState) : Prop where
  sorted : d.slots.Pairwise InOrder
  nodup : d.ids.Nodup
  solid : ∀ id, (d.spanOf id).Solid
  apart : ∀ a b r r', a ≠ b → d.rectOf a = some r → d.rectOf b = some r' → Apart r r'

theorem tidy_empty : Tidy {} where
  sorted := .nil
  nodup := .nil
  solid id := ⟨Nat.le_refl 1, Nat.le_refl 1⟩
  apart a b r r' _ ha := by
    rw [rectOf_eq_some] at ha
    cases ha.1

/-- Only the rectangles matter, and the list that says them. -/
theorem Tidy.of_rectOf {d d' : DesktopState} (h : Tidy d) (hsorted : d'.slots.Pairwise InOrder)
    (hnodup : d'.ids.Nodup) (hsolid : ∀ id, (d'.spanOf id).Solid)
    (hrect : ∀ id r, d'.rectOf id = some r → d.rectOf id = some r) : Tidy d' where
  sorted := hsorted
  nodup := hnodup
  solid := hsolid
  apart a b r r' hab ha hb := h.apart a b r r' hab (hrect a r ha) (hrect b r' hb)

/-- A tile moves to a rectangle that is clear of all others. -/
theorem Tidy.moved {d d' : DesktopState} (h : Tidy d) (id : WindowId) (rect : Slot × Span)
    (hsorted : d'.slots.Pairwise InOrder) (hnodup : d'.ids.Nodup)
    (hsolid : ∀ x, (d'.spanOf x).Solid)
    (hrect : ∀ x, d'.rectOf x = if x = id then some rect else d.rectOf x)
    (hclear : ∀ x r, x ≠ id → d.rectOf x = some r → Apart rect r) : Tidy d' where
  sorted := hsorted
  nodup := hnodup
  solid := hsolid
  apart a b r r' hab ha hb := by
    rw [hrect] at ha hb
    by_cases haid : a = id
    · have hbid : b ≠ id := fun heq => hab (haid.trans heq.symm)
      rw [if_pos haid] at ha
      rw [if_neg hbid] at hb
      rw [← Option.some.inj ha]
      exact hclear b r' hbid hb
    · rw [if_neg haid] at ha
      by_cases hbid : b = id
      · rw [if_pos hbid] at hb
        rw [← Option.some.inj hb]
        exact (hclear a r haid ha).symm
      · rw [if_neg hbid] at hb
        exact h.apart a b r r' hab ha hb

/-! ### Free rectangles -/

/-- The tile that is found on a cell covers it. -/
theorem occupant_eq_some {d : DesktopState} (h : d.ids.Nodup) {cell : Slot} {id : WindowId}
    (hoccupant : d.occupant cell = some id) : ∃ r, d.rectOf id = some r ∧ Covers r cell := by
  obtain ⟨entry, hentry, rfl⟩ := Option.map_eq_some_iff.1 hoccupant
  have hfound := List.find?_some hentry
  have hcovers := of_decide_eq_true hfound
  have hslot := (Assoc.get_eq_some h).2 (List.mem_of_find?_eq_some hentry)
  exact ⟨(entry.2, d.spanOf entry.1), rectOf_eq_some.2 ⟨hslot, rfl⟩, hcovers⟩

/-- A cell that a tile covers has an occupant. -/
theorem occupant_isSome {d : DesktopState} {cell : Slot} {id : WindowId} {r : Slot × Span}
    (hrect : d.rectOf id = some r) (hcovers : Covers r cell) : ∃ x, d.occupant cell = some x := by
  obtain ⟨hslot, hspan⟩ := rectOf_eq_some.1 hrect
  cases hfound : d.occupant cell with
  | some x => exact ⟨x, rfl⟩
  | none =>
      rw [occupant, Option.map_eq_none_iff, List.find?_eq_none] at hfound
      have hnot := hfound (id, r.1) (Assoc.mem_of_get hslot)
      have hdecide := (Bool.not_eq_true _).mp hnot
      have hnone := of_decide_eq_false hdecide
      rw [hspan] at hnone
      exact absurd hcovers hnone

theorem Tidy.apart_of_rectFree {d : DesktopState} (h : Tidy d) {anchor : Slot} {span : Span}
    {exclude : Option WindowId} (hfree : d.rectFree anchor span exclude = true) {x : WindowId}
    {r : Slot × Span} (hx : some x ≠ exclude) (hrect : d.rectOf x = some r) :
    Apart (anchor, span) r := by
  rintro cell ⟨⟨hrow, hrow', hcol, hcol'⟩, hcovers⟩
  dsimp only at hrow hrow' hcol hcol'
  obtain ⟨y, hy⟩ := occupant_isSome hrect hcovers
  rw [rectFree, List.all_eq_true] at hfree
  have hcols := hfree (cell.row - anchor.row).toNat (List.mem_range.2 (by omega))
  rw [List.all_eq_true] at hcols
  have hat := hcols (cell.col - anchor.col).toNat (List.mem_range.2 (by omega))
  have hcell : (⟨anchor.row + ((cell.row - anchor.row).toNat : Int),
      anchor.col + ((cell.col - anchor.col).toNat : Int)⟩ : Slot) = cell := by
    rw [Int.toNat_of_nonneg (by omega), Int.toNat_of_nonneg (by omega)]
    cases cell
    simp
  rw [hcell, hy] at hat
  -- the cell is covered by the tile that is looked past, and by no other
  have hyx : y ≠ x := by
    rintro rfl
    exact hx (of_decide_eq_true hat)
  obtain ⟨r', hrect', hcovers'⟩ := occupant_eq_some h.nodup hy
  exact h.apart y x r' r hyx hrect' hrect cell ⟨hcovers', hcovers⟩

/-! ### Moves -/

/-- What an operation leaves of the undo history: all of it, or nothing. -/
def Forgets (d d' : DesktopState) : Prop :=
  d'.arrangementHistory = d.arrangementHistory ∨ d'.arrangementHistory = []

theorem Forgets.trans {d d' d'' : DesktopState} (h : Forgets d d') (h' : Forgets d' d'') :
    Forgets d d'' := by
  rcases h' with hsame | hnone
  · rcases h with hsame' | hnone
    · exact .inl (hsame.trans hsame')
    · exact .inr (hsame.trans hnone)
  · exact .inr hnone

theorem setSpan_forgets (d : DesktopState) (id : WindowId) (span : Span) :
    Forgets d (d.setSpan id span) := by
  rw [setSpan]
  split
  · exact .inr rfl
  · exact .inl rfl

/-- What `set_anchor` does to a placed tile. -/
structure Anchored (d : DesktopState) (id : WindowId) (slot : Slot) (d' : DesktopState) : Prop where
  sorted : d'.slots.Pairwise InOrder
  nodup : d'.ids.Nodup
  span : ∀ x, d'.spanOf x = d.spanOf x
  slot : ∀ x, d'.slotOf x = if x = id then some slot else d.slotOf x
  forgets : Forgets d d'

theorem setAnchor_none {d : DesktopState} {id : WindowId} (slot : Slot) (h : d.slotOf id = none) :
    d.setAnchor id slot = d := by
  have hnone : d.slots.findIdx? (fun entry => entry.1 == id) = none := by
    rw [List.findIdx?_eq_none_iff]
    intro entry hentry
    rw [beq_eq_false_iff_ne]
    rintro rfl
    exact Assoc.get_eq_none.1 h (List.mem_map_of_mem hentry)
  rw [setAnchor, hnone]

theorem exists_index {d : DesktopState} {id : WindowId} (h : id ∈ d.ids) :
    ∃ i, d.slots.findIdx? (fun entry => entry.1 == id) = some i := by
  rw [← Option.isSome_iff_exists, List.findIdx?_isSome]
  obtain ⟨entry, hentry, rfl⟩ := List.mem_map.1 h
  exact List.any_eq_true.2 ⟨entry, hentry, beq_self_eq_true _⟩

theorem Tidy.setAnchor {d : DesktopState} (h : Tidy d) {id : WindowId} (hid : id ∈ d.ids)
    (slot : Slot) : Anchored d id slot (d.setAnchor id slot) := by
  obtain ⟨i, hi⟩ := exists_index hid
  have hset : ∃ d', Forgets d d' ∧ d'.slots = d.slots ∧ d'.spans = d.spans ∧
      d.setAnchor id slot = { d' with slots := d'.slots.set i (id, slot) }.sort := by
    rw [DesktopState.setAnchor, hi]
    by_cases hmoved : d.slotOf id ≠ some slot
    · exact ⟨d.invalidateArrangementHistory, .inr rfl, rfl, rfl, by simp [hmoved]⟩
    · exact ⟨d, .inl rfl, rfl, rfl, by simp [hmoved]⟩
  obtain ⟨d', hforgets, hslots, hspans, heq⟩ := hset
  have hkeys : (d'.slots.set i (id, slot)).map Prod.fst = d.ids := by
    rw [hslots]
    exact Assoc.keys_set hi slot
  have hnodup : ({ d' with slots := d'.slots.set i (id, slot) } : DesktopState).ids.Nodup := by
    show ((d'.slots.set i (id, slot)).map Prod.fst).Nodup
    rw [hkeys]
    exact h.nodup
  rw [heq]
  refine ⟨sort_sorted _, sort_nodup hnodup, fun x => ?_, fun x => ?_, hforgets⟩
  · show (Assoc.get d'.spans x).getD .one = _
    rw [hspans]
    rfl
  · rw [slotOf_sort hnodup]
    show Assoc.get (d'.slots.set i (id, slot)) x = _
    rw [hslots]
    exact Assoc.get_set hi slot x

/-- A drop is a move that keeps the span. -/
theorem Tidy.freeDrop {d : DesktopState} (h : Tidy d) (id : WindowId) (target : Slot) :
    Tidy (d.freeDrop id target).1 ∧ Forgets d (d.freeDrop id target).1 := by
  rw [DesktopState.freeDrop]
  cases hfree : d.rectFree target (d.spanOf id) (some id) with
  | false => exact ⟨h, .inl rfl⟩
  | true =>
      rw [if_pos rfl]
      cases hslot : d.slotOf id with
      | none =>
          rw [setAnchor_none target hslot]
          exact ⟨h, .inl rfl⟩
      | some slot =>
          have hanchored := h.setAnchor (mem_ids.2 (by rw [hslot]; rfl)) target
          refine ⟨h.moved id (target, d.spanOf id) hanchored.sorted
            hanchored.nodup ?_ ?_ ?_, hanchored.forgets⟩
          · intro x
            rw [hanchored.span]
            exact h.solid x
          · intro x
            rw [rectOf, hanchored.slot, hanchored.span]
            by_cases hx : x = id
            · rw [if_pos hx, if_pos hx, hx]
              rfl
            · rw [if_neg hx, if_neg hx]
              rfl
          · intro x r hx hrect
            exact h.apart_of_rectFree hfree (fun heq => hx (Option.some.inj heq)) hrect

theorem Tidy.restorePlacementIfFree {d : DesktopState} (h : Tidy d) (id : WindowId) (slot : Slot)
    {span : Span} (hsolid : span.Solid) :
    Tidy (d.restorePlacementIfFree id slot span).1 ∧
      Forgets d (d.restorePlacementIfFree id slot span).1 := by
  rw [DesktopState.restorePlacementIfFree]
  split
  · exact ⟨h, .inl rfl⟩
  · next hnot =>
    obtain ⟨hplaced, hfree⟩ := not_or.1 hnot
    have hid : id ∈ d.ids := mem_ids.2 (Option.isSome_iff_ne_none.2 hplaced)
    obtain ⟨i, hi⟩ := exists_index hid
    rw [hi]
    have hnodup : (({ d with slots := d.slots.set i (id, slot) } : DesktopState).setSpanRaw
        id span).ids.Nodup := by
      show ((d.slots.set i (id, slot)).map Prod.fst).Nodup
      rw [Assoc.keys_set hi slot]
      exact h.nodup
    refine ⟨h.moved id (slot, span) (sort_sorted _) (sort_nodup hnodup) ?_ ?_ ?_,
      .inl rfl⟩
    · intro x
      show ((({ d with slots := d.slots.set i (id, slot) } : DesktopState).setSpanRaw
        id span).spanOf x).Solid
      rw [spanOf_setSpanRaw]
      split
      · exact hsolid
      · exact h.solid x
    · intro x
      rw [rectOf_sort hnodup, rectOf, spanOf_setSpanRaw]
      show (Assoc.get (d.slots.set i (id, slot)) x).map _ = _
      rw [Assoc.get_set hi slot x]
      by_cases hx : x = id
      · rw [if_pos hx, if_pos hx, if_pos hx]
        rfl
      · rw [if_neg hx, if_neg hx, if_neg hx]
        rfl
    · intro x r hx hrect
      have hfree : d.rectFree slot span (some id) = true := by simpa using hfree
      exact h.apart_of_rectFree hfree (fun heq => hx (Option.some.inj heq)) hrect

/-! ### Resizes -/

/-- What the loop stops at was fitting, unless it did not start. -/
theorem growWhile_spec (fits : Nat → Bool) (rounds : Nat) : ∀ k : Nat,
    k ≤ growWhile fits rounds k ∧ growWhile fits rounds k ≤ k + rounds ∧
      (growWhile fits rounds k = k ∨ fits (growWhile fits rounds k) = true) := by
  induction rounds with
  | zero =>
      intro k
      exact ⟨Nat.le_refl k, Nat.le_refl k, .inl rfl⟩
  | succ rounds ih =>
      intro k
      rw [growWhile]
      split
      · next hfits =>
        obtain ⟨hle, hge, hstop⟩ := ih (k + 1)
        refine ⟨by omega, by omega, .inr ?_⟩
        rcases hstop with hsame | hmore
        · rw [hsame]
          exact hfits
        · exact hmore
      · exact ⟨Nat.le_refl k, by omega, .inl rfl⟩

/-- The extent along the axis of the edge. -/
def extent (edge : ResizeEdge) (span : Span) : Nat :=
  match edge with
  | .east => span.cols
  | .west => span.cols
  | .south => span.rows
  | .north => span.rows

/-- The other three edges of the rectangle are where they were. -/
def KeepsOthers (edge : ResizeEdge) (r r' : Slot × Span) : Prop :=
  match edge with
  | .east => r'.1 = r.1 ∧ r'.2.rows = r.2.rows
  | .south => r'.1 = r.1 ∧ r'.2.cols = r.2.cols
  | .west => r'.1.row = r.1.row ∧ r'.2.rows = r.2.rows ∧
      r'.1.col + r'.2.cols = r.1.col + r.2.cols
  | .north => r'.1.col = r.1.col ∧ r'.2.cols = r.2.cols ∧
      r'.1.row + r'.2.rows = r.1.row + r.2.rows

/-- The rectangle of a resize is part of the old one, or was free. -/
structure Clamped (d : DesktopState) (id : WindowId) (edge : ResizeEdge) (desired : Nat)
    (r r' : Slot × Span) : Prop where
  solid : r'.2.Solid
  others : KeepsOthers edge r r'
  within : extent edge r'.2 ≤ max desired 1
  fits : (∀ cell, Covers r' cell → Covers r cell) ∨ d.rectFree r'.1 r'.2 (some id) = true

theorem Tidy.clampResize {d : DesktopState} (h : Tidy d) {id : WindowId} {r : Slot × Span}
    (hrect : d.rectOf id = some r) (edge : ResizeEdge) (desired : Nat) :
    Clamped d id edge desired r (d.clampResize id edge desired) := by
  obtain ⟨⟨row, col⟩, ⟨rows, cols⟩⟩ := r
  obtain ⟨hslot, hspan⟩ := rectOf_eq_some.1 hrect
  have hsolid := h.solid id
  rw [hspan] at hsolid
  obtain ⟨hrows, hcols⟩ := hsolid
  dsimp only at hslot hspan hrows hcols
  rw [DesktopState.clampResize, hslot]
  dsimp only
  rw [hspan]
  cases edge with
  | east =>
      dsimp only
      obtain ⟨hle, hge, hstop⟩ := growWhile_spec
        (fun ext => d.rectFree ⟨row, col⟩ (.new rows ext) (some id)) (max desired 1 - 1) 1
      generalize growWhile _ _ 1 = ext at hle hge hstop
      refine ⟨Span.new_solid _ _, ⟨rfl, ?_⟩, ?_, ?_⟩
      · simp only [Span.new]
        omega
      · simp only [extent, Span.new]
        omega
      · rcases hstop with rfl | hfits
        · left
          intro cell hcovers
          simp only [Covers, Span.new] at hcovers ⊢
          omega
        · exact .inr hfits
  | south =>
      dsimp only
      obtain ⟨hle, hge, hstop⟩ := growWhile_spec
        (fun ext => d.rectFree ⟨row, col⟩ (.new ext cols) (some id)) (max desired 1 - 1) 1
      generalize growWhile _ _ 1 = ext at hle hge hstop
      refine ⟨Span.new_solid _ _, ⟨rfl, ?_⟩, ?_, ?_⟩
      · simp only [Span.new]
        omega
      · simp only [extent, Span.new]
        omega
      · rcases hstop with rfl | hfits
        · left
          intro cell hcovers
          simp only [Covers, Span.new] at hcovers ⊢
          omega
        · exact .inr hfits
  | west =>
      dsimp only
      split
      · -- narrower: the left edge comes nearer to the right one
        next hshrink =>
        refine ⟨Span.new_solid _ _, ⟨rfl, ?_, ?_⟩, ?_, .inl fun cell hcovers => ?_⟩
        · simp only [Span.new]
          omega
        · simp only [Span.new]
          omega
        · simp only [extent, Span.new]
          omega
        · simp only [Covers, Span.new] at hcovers ⊢
          omega
      · next hgrow =>
        obtain ⟨hle, hge, hstop⟩ := growWhile_spec
          (fun k => d.rectFree ⟨row, col - k⟩ (.new rows (col + cols - (col - k)).toNat) (some id))
          (col - (col + cols - (max desired 1 : Nat))).toNat 0
        generalize growWhile _ _ 0 = k at hle hge hstop
        refine ⟨Span.new_solid _ _, ⟨rfl, ?_, ?_⟩, ?_, ?_⟩
        · simp only [Span.new]
          omega
        · simp only [Span.new]
          omega
        · simp only [extent, Span.new]
          omega
        · rcases hstop with rfl | hfits
          · left
            intro cell hcovers
            simp only [Covers, Span.new] at hcovers ⊢
            omega
          · exact .inr hfits
  | north =>
      dsimp only
      split
      · next hshrink =>
        refine ⟨Span.new_solid _ _, ⟨rfl, ?_, ?_⟩, ?_, .inl fun cell hcovers => ?_⟩
        · simp only [Span.new]
          omega
        · simp only [Span.new]
          omega
        · simp only [extent, Span.new]
          omega
        · simp only [Covers, Span.new] at hcovers ⊢
          omega
      · next hgrow =>
        obtain ⟨hle, hge, hstop⟩ := growWhile_spec
          (fun k => d.rectFree ⟨row - k, col⟩ (.new (row + rows - (row - k)).toNat cols) (some id))
          (row - (row + rows - (max desired 1 : Nat))).toNat 0
        generalize growWhile _ _ 0 = k at hle hge hstop
        refine ⟨Span.new_solid _ _, ⟨rfl, ?_, ?_⟩, ?_, ?_⟩
        · simp only [Span.new]
          omega
        · simp only [Span.new]
          omega
        · simp only [extent, Span.new]
          omega
        · rcases hstop with rfl | hfits
          · left
            intro cell hcovers
            simp only [Covers, Span.new] at hcovers ⊢
            omega
          · exact .inr hfits

theorem Tidy.resizeTo {d : DesktopState} (h : Tidy d) (id : WindowId) (edge : ResizeEdge)
    (desired : Nat) :
    Tidy (d.resizeTo id edge desired) ∧ Forgets d (d.resizeTo id edge desired) := by
  have hresize : d.resizeTo id edge desired =
      (d.setAnchor id (d.clampResize id edge desired).1).setSpan id
        (d.clampResize id edge desired).2 := rfl
  rw [hresize]
  cases hslot : d.slotOf id with
  | none =>
      -- a tile that is not placed keeps the span it has
      have hclamp : d.clampResize id edge desired = (⟨0, 0⟩, d.spanOf id) := by
        rw [DesktopState.clampResize, hslot]
      rw [hclamp, setAnchor_none _ hslot]
      have hspan : ∀ x, (d.setSpan id (d.spanOf id)).spanOf x = d.spanOf x := by
        intro x
        rw [spanOf_setSpan]
        split
        · next hx => rw [hx]
        · rfl
      refine ⟨h.of_rectOf ?_ ?_ (fun x => ?_) (fun x r hrect => ?_), setSpan_forgets _ _ _⟩
      · rw [setSpan_slots]
        exact h.sorted
      · rw [ids, setSpan_slots]
        exact h.nodup
      · rw [hspan]
        exact h.solid x
      · rw [rectOf, slotOf_eq, setSpan_slots, hspan] at hrect
        exact hrect
  | some slot =>
      have hrect : d.rectOf id = some (slot, d.spanOf id) := rectOf_eq_some.2 ⟨hslot, rfl⟩
      have hclamped := h.clampResize hrect edge desired
      generalize d.clampResize id edge desired = rect at hclamped
      have hanchored := h.setAnchor (mem_ids.2 (by rw [hslot]; rfl)) rect.1
      refine ⟨h.moved id rect ?_ ?_ ?_ ?_ ?_,
        hanchored.forgets.trans (setSpan_forgets _ _ _)⟩
      · rw [setSpan_slots]
        exact hanchored.sorted
      · rw [ids, setSpan_slots]
        exact hanchored.nodup
      · intro x
        rw [spanOf_setSpan]
        split
        · exact hclamped.solid
        · rw [hanchored.span]
          exact h.solid x
      · intro x
        rw [rectOf, slotOf_eq, setSpan_slots, ← slotOf_eq, hanchored.slot, spanOf_setSpan,
          hanchored.span]
        by_cases hx : x = id
        · rw [if_pos hx, if_pos hx, if_pos hx]
          rfl
        · rw [if_neg hx, if_neg hx, if_neg hx]
          rfl
      · intro x r hx hother
        rcases hclamped.fits with hpart | hfree
        · exact (h.apart id x _ r (Ne.symm hx) hrect hother).mono hpart
        · exact h.apart_of_rectFree hfree (fun heq => hx (Option.some.inj heq)) hother

end DesktopState

end Yaldabaoth
