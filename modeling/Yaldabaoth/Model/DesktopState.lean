import Mathlib.Algebra.GroupWithZero.Nat
import Mathlib.Algebra.Order.BigOperators.Group.List
import Mathlib.Algebra.Order.Group.Nat
import Mathlib.Data.List.MinMax
import Mathlib.Data.List.Sort
import Mathlib.Data.Prod.Lex

/-!
# `Yaldabaoth.Model.DesktopState`: the placement of tiles on the plane

`workspace.rs`: the slots of a workspace's tiles, their spans, and the
reading order that focus moves along. The layout tree owns the tiles
(`Yaldabaoth.Model.Workspace`); what is here names them by id, and may
name a tile that is gone until `reconcile` runs.

Coordinates are integers without a width. `seedSpanNear` searches rings
around a center without a bound; here the bound is `ringsAround`, and
`seedSpanNear_free` says that the search ends within it.
-/

set_option autoImplicit false

namespace Yaldabaoth

/-- `type WindowId = u64`. -/
abbrev WindowId := UInt64

structure Slot where
  row : Int
  col : Int
deriving Repr, DecidableEq

/-- Reading order: rows first. -/
def Slot.key (s : Slot) : Int ×ₗ Int := toLex (s.row, s.col)

structure Span where
  rows : Nat
  cols : Nat
deriving Repr, DecidableEq

def Span.one : Span := ⟨1, 1⟩

def Span.new (rows cols : Nat) : Span := ⟨max rows 1, max cols 1⟩

/-- The edge that a resize pulls. -/
inductive ResizeEdge where
  | east
  | south
  | west
  | north
deriving Repr, DecidableEq

inductive SpatialDir where
  | left
  | right
  | up
  | down
deriving Repr, DecidableEq

structure PlacementSnapshot where
  slots : List (WindowId × Slot)
  spans : List (WindowId × Span)
deriving Repr, DecidableEq

def arrangementHistoryLimit : Nat := 32

/-- `slots` is kept in reading order; a tile without an entry in `spans`
covers one slot. -/
structure DesktopState where
  slots : List (WindowId × Slot) := []
  spans : List (WindowId × Span) := []
  lastReveal : Option WindowId := none
  arrangementHistory : List PlacementSnapshot := []
deriving Repr, DecidableEq

namespace DesktopState

def placementSnapshot (d : DesktopState) : PlacementSnapshot := ⟨d.slots, d.spans⟩

def pushArrangementUndo (d : DesktopState) (snapshot : PlacementSnapshot) : DesktopState :=
  let kept :=
    if d.arrangementHistory.length = arrangementHistoryLimit then d.arrangementHistory.tail
    else d.arrangementHistory
  { d with arrangementHistory := kept ++ [snapshot] }

def invalidateArrangementHistory (d : DesktopState) : DesktopState :=
  { d with arrangementHistory := [] }

/-- The tiles that have a slot, in reading order. -/
def ids (d : DesktopState) : List WindowId := d.slots.map Prod.fst

def slotOf (d : DesktopState) (id : WindowId) : Option Slot :=
  (d.slots.find? fun entry => entry.1 == id).map Prod.snd

def spanOf (d : DesktopState) (id : WindowId) : Span :=
  ((d.spans.find? fun entry => entry.1 == id).map Prod.snd).getD .one

def rectOf (d : DesktopState) (id : WindowId) : Option (Slot × Span) :=
  (d.slotOf id).map fun slot => (slot, d.spanOf id)

/-- The tile whose rectangle covers `slot`. -/
def occupant (d : DesktopState) (slot : Slot) : Option WindowId :=
  (d.slots.find? fun (id, anchor) =>
    let span := d.spanOf id
    decide (anchor.row ≤ slot.row ∧ slot.row < anchor.row + span.rows ∧
      anchor.col ≤ slot.col ∧ slot.col < anchor.col + span.cols)).map Prod.fst

/-- Every slot of the rectangle is free of tiles other than `exclude`. -/
def rectFree (d : DesktopState) (anchor : Slot) (span : Span) (exclude : Option WindowId) : Bool :=
  (List.range span.rows).all fun dr => (List.range span.cols).all fun dc =>
    match d.occupant ⟨anchor.row + dr, anchor.col + dc⟩ with
    | some id => decide (some id = exclude)
    | none => true

def setSpanRaw (d : DesktopState) (id : WindowId) (span : Span) : DesktopState :=
  let others := d.spans.filter fun entry => entry.1 ≠ id
  { d with spans := if span = .one then others else others ++ [(id, span)] }

def setSpan (d : DesktopState) (id : WindowId) (span : Span) : DesktopState :=
  let d' := if d.spanOf id ≠ span then d.invalidateArrangementHistory else d
  d'.setSpanRaw id span

def sort (d : DesktopState) : DesktopState :=
  { d with slots := d.slots.insertionSort fun a b => a.2.key ≤ b.2.key }

/-! ### Keyboard placement -/

def swapPlacements (d : DesktopState) (a b : WindowId) : DesktopState × Bool :=
  if a = b then (d, false)
  else match d.rectOf a, d.rectOf b with
  | some (aSlot, aSpan), some (bSlot, bSpan) =>
      let slots := d.slots.map fun (id, slot) =>
        if id = a then (id, bSlot) else if id = b then (id, aSlot) else (id, slot)
      let d' := (({ d with slots }.setSpanRaw a bSpan).setSpanRaw b aSpan).sort
      (d'.pushArrangementUndo d.placementSnapshot, true)
  | _, _ => (d, false)

def rotatePlacements (d : DesktopState) (forward : Bool) : DesktopState × Bool :=
  if d.slots.length < 2 then (d, false)
  else
    let footprints := d.ids.filterMap d.rectOf
    let n := d.ids.length
    if footprints.length ≠ n then (d, false)
    else
      let placed := d.ids.zipIdx.foldl (fun d' (id, idx) =>
        let target := if forward then (idx + 1) % n else (idx + n - 1) % n
        match footprints[target]? with
        | some (slot, span) => { d' with slots := d'.slots ++ [(id, slot)] }.setSpanRaw id span
        | none => d') { d with slots := [], spans := [] }
      (placed.sort.pushArrangementUndo d.placementSnapshot, true)

def undoArrangement (d : DesktopState) : DesktopState × Bool :=
  match d.arrangementHistory.getLast? with
  | none => (d, false)
  | some snapshot =>
      ({ d with
          slots := snapshot.slots
          spans := snapshot.spans
          arrangementHistory := d.arrangementHistory.dropLast }.sort, true)

/-- Give a tile back the footprint it had, when that is free. -/
def restorePlacementIfFree (d : DesktopState) (id : WindowId) (slot : Slot) (span : Span) :
    DesktopState × Bool :=
  if d.slotOf id = none ∨ d.rectFree slot span (some id) = false then (d, false)
  else
    let slots := match d.slots.findIdx? fun entry => entry.1 == id with
      | some i => d.slots.set i (id, slot)
      | none => d.slots
    ((({ d with slots }.setSpanRaw id span).sort), true)

/-! ### Drops and resizes -/

def setAnchor (d : DesktopState) (id : WindowId) (slot : Slot) : DesktopState :=
  match d.slots.findIdx? fun entry => entry.1 == id with
  | none => d
  | some i =>
      let d' := if d.slotOf id ≠ some slot then d.invalidateArrangementHistory else d
      { d' with slots := d'.slots.set i (id, slot) }.sort

def freeDrop (d : DesktopState) (id : WindowId) (target : Slot) : DesktopState × Bool :=
  if d.rectFree target (d.spanOf id) (some id) then (d.setAnchor id target, true) else (d, false)

/-- Counts on from `k` while the next is fitting, for so many rounds. -/
def growWhile (fits : Nat → Bool) : Nat → Nat → Nat
  | 0, k => k
  | rounds + 1, k => if fits (k + 1) then growWhile fits rounds (k + 1) else k

/-- The anchor and the span that a resize would commit. East and south
grow from the smallest extent, west and north from the one there is. -/
def clampResize (d : DesktopState) (id : WindowId) (edge : ResizeEdge) (desired : Nat) :
    Slot × Span :=
  let cur := d.spanOf id
  match d.slotOf id with
  | none => (⟨0, 0⟩, cur)
  | some anchor =>
      let desired := max desired 1
      match edge with
      | .east =>
          let ext := growWhile (fun ext => d.rectFree anchor (.new cur.rows ext) (some id))
            (desired - 1) 1
          (anchor, .new cur.rows ext)
      | .south =>
          let ext := growWhile (fun ext => d.rectFree anchor (.new ext cur.cols) (some id))
            (desired - 1) 1
          (anchor, .new ext cur.cols)
      | .west =>
          let right := anchor.col + cur.cols
          let targetLeft := right - desired
          let left :=
            if anchor.col ≤ targetLeft then targetLeft
            else anchor.col - growWhile (fun k =>
              d.rectFree ⟨anchor.row, anchor.col - k⟩
                (.new cur.rows (right - (anchor.col - k)).toNat) (some id))
              (anchor.col - targetLeft).toNat 0
          (⟨anchor.row, left⟩, .new cur.rows (right - left).toNat)
      | .north =>
          let bottom := anchor.row + cur.rows
          let targetTop := bottom - desired
          let top :=
            if anchor.row ≤ targetTop then targetTop
            else anchor.row - growWhile (fun k =>
              d.rectFree ⟨anchor.row - k, anchor.col⟩
                (.new (bottom - (anchor.row - k)).toNat cur.cols) (some id))
              (anchor.row - targetTop).toNat 0
          (⟨top, anchor.col⟩, .new (bottom - top).toNat cur.cols)

/-- What a resize commits. -/
def resizeTo (d : DesktopState) (id : WindowId) (edge : ResizeEdge) (desired : Nat) :
    DesktopState :=
  let (slot, span) := d.clampResize id edge desired
  (d.setAnchor id slot).setSpan id span

/-! ### Seeding -/

/-- `-r..=r`. -/
def offsets (r : Nat) : List Int := (List.range (2 * r + 1)).map fun (k : Nat) => (k : Int) - (r : Int)

/-- Nearest row first, below before above and right before left. -/
def preference (offset : Int × Int) : Nat ×ₗ Nat ×ₗ Nat ×ₗ Nat :=
  let sign (d : Int) : Nat := if 0 < d then 0 else 1
  toLex (offset.1.natAbs, toLex (sign offset.1, toLex (offset.2.natAbs, sign offset.2)))

/-- The offsets at the distance `r`, in order of preference. -/
def ring (r : Nat) : List (Int × Int) :=
  let square := (offsets r).flatMap fun dr => (offsets r).map fun dc => (dr, dc)
  (square.filter fun (dr, dc) => ¬(dr.natAbs < r ∧ dc.natAbs < r)).insertionSort
    fun a b => preference a ≤ preference b

/-- The search from the ring `r` on, over `rings` rings at most. -/
def seedFrom (d : DesktopState) (center : Slot) (span : Span) : Nat → Nat → Option Slot
  | 0, _ => none
  | rings + 1, r =>
      match (ring r).find? fun (dr, dc) =>
        d.rectFree ⟨center.row + dr, center.col + dc⟩ span none with
      | some (dr, dc) => some ⟨center.row + dr, center.col + dc⟩
      | none => d.seedFrom center span rings (r + 1)

/-- The ring behind which no tile reaches to the right. -/
def ringsAround (d : DesktopState) (center : Slot) : Nat :=
  (d.slots.map fun (id, anchor) => (anchor.col - center.col).natAbs + (d.spanOf id).cols).sum

/-- The first free rectangle around `center`. -/
def seedSpanNear (d : DesktopState) (center : Slot) (span : Span) : Slot :=
  (d.seedFrom center span (d.ringsAround center + 1) 0).getD center

/-- Give the tile a slot if it has none. -/
def seedLeaf (center : Slot) (newSpan : Span) (d : DesktopState) (leaf : WindowId) : DesktopState :=
  if (d.slotOf leaf).isSome then d
  else
    let slot := d.seedSpanNear center newSpan
    ({ d with slots := d.slots ++ [(leaf, slot)] }.setSpan leaf newSpan).sort

def reconcileNearWithSpan (d : DesktopState) (leaves : List WindowId) (near : Option WindowId)
    (newSpan : Span) : DesktopState × Bool :=
  let kept := { d with
    slots := d.slots.filter fun entry => leaves.contains entry.1
    spans := d.spans.filter fun entry => leaves.contains entry.1 }
  let center := ((near.bind kept.slotOf).or (kept.lastReveal.bind kept.slotOf)).getD ⟨0, 0⟩
  let placed := leaves.foldl (seedLeaf center newSpan) kept
  let changed := decide (kept.slots.length ≠ d.slots.length) ||
    decide (kept.spans.length ≠ d.spans.length) || leaves.any fun leaf => (kept.slotOf leaf).isNone
  (if changed then placed.invalidateArrangementHistory else placed, changed)

def reconcileNear (d : DesktopState) (leaves : List WindowId) (near : Option WindowId) :
    DesktopState × Bool :=
  d.reconcileNearWithSpan leaves near .one

def reconcile (d : DesktopState) (leaves : List WindowId) : DesktopState × Bool :=
  d.reconcileNear leaves none

/-! ### Neighbors -/

/-- How neighbors compare: aligned before not, then by distance, then in
reading order. -/
abbrev neighborOrder : LinearOrder (Nat ×ₗ Nat ×ₗ Int ×ₗ Int) :=
  @Prod.Lex.instLinearOrder Nat _ Nat.instLinearOrder
    (@Prod.Lex.instLinearOrder Nat _ Nat.instLinearOrder
      (@Prod.Lex.instLinearOrder Int Int Int.instLinearOrder Int.instLinearOrder))

def spatialNeighbor (d : DesktopState) (source : WindowId) (direction : SpatialDir) :
    Option WindowId := do
  let origin ← d.slotOf source
  let candidates := d.slots.filter fun (id, s) =>
    id ≠ source && match direction with
      | .left => decide (s.col < origin.col)
      | .right => decide (origin.col < s.col)
      | .up => decide (s.row < origin.row)
      | .down => decide (origin.row < s.row)
  let key (s : Slot) : Nat ×ₗ Nat ×ₗ Int ×ₗ Int :=
    let dr := (s.row - origin.row).natAbs
    let dc := (s.col - origin.col).natAbs
    let aligned := match direction with
      | .left | .right => dr == 0
      | .up | .down => dc == 0
    toLex (if aligned then 0 else 1, toLex (dr * dr + dc * dc, s.key))
  let order : LinearOrder (Nat ×ₗ Nat ×ₗ Int ×ₗ Int) := neighborOrder
  (@List.argmin _ _ order.toPreorder order.toDecidableLT (fun entry => key entry.2) candidates).map
    Prod.fst

def sequenceNeighbor (d : DesktopState) (source : WindowId) (forward : Bool) : Option WindowId := do
  let idx ← d.slots.findIdx? fun entry => entry.1 == source
  let n := d.slots.length
  if n < 2 then none
  else
    let next := if forward then (idx + 1) % n else (idx + n - 1) % n
    d.slots[next]?.map Prod.fst

def sequenceAdjacent (d : DesktopState) (source : WindowId) (forward : Bool) : Option WindowId := do
  let idx ← d.slots.findIdx? fun entry => entry.1 == source
  if forward then d.slots[idx + 1]?.map Prod.fst
  else if idx = 0 then none
  else d.slots[idx - 1]?.map Prod.fst

/-! ### The search for a free rectangle ends -/

/-- A slot to the right of every rectangle is free. -/
theorem occupant_eq_none {d : DesktopState} {slot : Slot}
    (h : ∀ entry ∈ d.slots, entry.2.col + (d.spanOf entry.1).cols ≤ slot.col) :
    d.occupant slot = none := by
  have hnone : d.slots.find? (fun (id, anchor) =>
      decide (anchor.row ≤ slot.row ∧ slot.row < anchor.row + (d.spanOf id).rows ∧
        anchor.col ≤ slot.col ∧ slot.col < anchor.col + (d.spanOf id).cols)) = none := by
    rw [List.find?_eq_none]
    intro entry hentry hcovers
    have hfar := h entry hentry
    have hinside := (of_decide_eq_true hcovers).2.2.2
    omega
  rw [occupant, hnone]
  rfl

/-- No tile reaches behind the last ring. -/
theorem reach_le_ringsAround {d : DesktopState} (center : Slot) {entry : WindowId × Slot}
    (h : entry ∈ d.slots) :
    entry.2.col + (d.spanOf entry.1).cols ≤ center.col + d.ringsAround center := by
  have hsum : (entry.2.col - center.col).natAbs + (d.spanOf entry.1).cols ≤
      d.ringsAround center :=
    List.le_sum_of_mem (List.mem_map_of_mem
      (f := fun (e : WindowId × Slot) => (e.2.col - center.col).natAbs + (d.spanOf e.1).cols) h)
  omega

/-- The slot to the right at the distance `r` is in the ring. -/
theorem right_mem_ring (r : Nat) : ((0 : Int), (r : Int)) ∈ ring r := by
  have hzero : (0 : Int) ∈ offsets r := by
    have hr : r ∈ List.range (2 * r + 1) := List.mem_range.2 (by omega)
    exact List.mem_map.2 ⟨r, hr, Int.sub_self _⟩
  have hright : (r : Int) ∈ offsets r := by
    have hlast : 2 * r ∈ List.range (2 * r + 1) := List.mem_range.2 (Nat.lt_succ_self _)
    refine List.mem_map.2 ⟨2 * r, hlast, ?_⟩
    push_cast
    omega
  rw [ring, List.mem_insertionSort, List.mem_filter]
  refine ⟨List.mem_flatMap.2 ⟨0, hzero, List.mem_map.2 ⟨r, hright, rfl⟩⟩, ?_⟩
  simp

/-- Behind the last ring the slot to the right is free. -/
theorem rectFree_right {d : DesktopState} {center : Slot} {span : Span} {r : Nat}
    (h : d.ringsAround center ≤ r) :
    d.rectFree ⟨center.row + (0 : Int), center.col + (r : Int)⟩ span none = true := by
  rw [rectFree, List.all_eq_true]
  intro dr _
  rw [List.all_eq_true]
  intro dc _
  have hfree : d.occupant ⟨center.row + 0 + dr, center.col + r + dc⟩ = none := by
    apply occupant_eq_none
    intro entry hentry
    have hreach := reach_le_ringsAround center hentry
    show entry.2.col + (d.spanOf entry.1).cols ≤ center.col + (r : Int) + dc
    omega
  rw [hfree]

/-- A search that may go on to the last ring finds a free rectangle. -/
theorem seedFrom_free {d : DesktopState} {center : Slot} {span : Span} {rings : Nat} :
    ∀ {r : Nat}, r ≤ d.ringsAround center → d.ringsAround center < r + rings →
      ∃ slot, d.seedFrom center span rings r = some slot ∧ d.rectFree slot span none = true := by
  induction rings with
  | zero =>
      intro r hle hlt
      omega
  | succ rings ih =>
      intro r hle hlt
      rw [seedFrom]
      split
      · next dr dc hfound =>
          have hfree := List.find?_some hfound
          exact ⟨_, rfl, hfree⟩
      · next hnone =>
          -- The slot to the right was taken, so this was not the last ring.
          have hmore : r ≠ d.ringsAround center := by
            intro hlast
            exact List.find?_eq_none.1 hnone _ (right_mem_ring r) (rectFree_right hlast.ge)
          exact ih (by omega) (by omega)

/-- New tiles are seeded where nothing overlaps them. -/
theorem seedSpanNear_free (d : DesktopState) (center : Slot) (span : Span) :
    d.rectFree (d.seedSpanNear center span) span none = true := by
  have hlast : d.ringsAround center < 0 + (d.ringsAround center + 1) := by omega
  obtain ⟨slot, hslot, hfree⟩ := seedFrom_free (Nat.zero_le _) hlast
  rw [seedSpanNear, hslot]
  exact hfree

end DesktopState

end Yaldabaoth
