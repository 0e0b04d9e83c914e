import Mathlib.Data.List.Rotate
import Mathlib.Logic.Equiv.Basic
import Yaldabaoth.Lib.Machine
import Yaldabaoth.Proofs.Frame.Plane

/-!
# `Yaldabaoth.Proofs.Frame.Arrangements`: exchanges, reconciles, and undo

A swap and a rotation give the rectangles there are to other tiles
(`Tidy.exchanged`); a reconcile seeds one tile after the other into a free
rectangle. The snapshots of the arrangement history are tidy as well, and
are the placements before the arrangements that were not undone: a list
beside the state records those, and every mutation between either keeps
the history or empties it (`Forgets`).
-/

set_option autoImplicit false

namespace Yaldabaoth

namespace DesktopState

/-! ### Exchanges -/

/-- The rectangles of `d'` are those of `d`, each with one tile. -/
theorem Tidy.exchanged {d d' : DesktopState} (h : Tidy d) (had : WindowId → WindowId → Prop)
    (hinj : ∀ a b y, had a y → had b y → a = b) (hsorted : d'.slots.Pairwise InOrder)
    (hnodup : d'.ids.Nodup) (hsolid : ∀ x, (d'.spanOf x).Solid)
    (hrect : ∀ x r, d'.rectOf x = some r → ∃ y, had x y ∧ d.rectOf y = some r) : Tidy d' where
  sorted := hsorted
  nodup := hnodup
  solid := hsolid
  apart a b r r' hab ha hb := by
    obtain ⟨y, hy, hya⟩ := hrect a r ha
    obtain ⟨z, hz, hzb⟩ := hrect b r' hb
    have hyz : y ≠ z := by
      rintro rfl
      exact hab (hinj a b y hy hz)
    exact h.apart y z r r' hyz hya hzb

theorem Tidy.push {d : DesktopState} (h : Tidy d) (snapshot : PlacementSnapshot) :
    Tidy (d.pushArrangementUndo snapshot) where
  sorted := h.sorted
  nodup := h.nodup
  solid := h.solid
  apart := h.apart

theorem Tidy.swapPlacements {d : DesktopState} (h : Tidy d) (a b : WindowId) :
    Tidy (d.swapPlacements a b).1 := by
  rw [DesktopState.swapPlacements]
  split
  · exact h
  · next hab =>
    split
    · next aSlot aSpan bSlot bSpan ha hb =>
      obtain ⟨haslot, haspan⟩ := rectOf_eq_some.1 ha
      obtain ⟨hbslot, hbspan⟩ := rectOf_eq_some.1 hb
      dsimp only at haslot haspan hbslot hbspan
      apply Tidy.push
      -- the list keeps its ids, and the slots of the two go over to each other
      have hslots : (d.slots.map fun (e : WindowId × Slot) =>
          if e.1 = a then (e.1, bSlot) else if e.1 = b then (e.1, aSlot) else (e.1, e.2)) =
          d.slots.map fun e => (e.1, if e.1 = a then bSlot else if e.1 = b then aSlot else e.2) := by
        apply List.map_congr_left
        intro e _
        split
        · rfl
        · split <;> rfl
      show Tidy ((({ d with slots := d.slots.map fun (e : WindowId × Slot) =>
        if e.1 = a then (e.1, bSlot) else if e.1 = b then (e.1, aSlot) else (e.1, e.2) }.setSpanRaw
          a bSpan).setSpanRaw b aSpan).sort)
      rw [hslots]
      generalize hd' : ((({ d with slots := d.slots.map fun (e : WindowId × Slot) =>
        (e.1, if e.1 = a then bSlot else if e.1 = b then aSlot else e.2) } :
          DesktopState).setSpanRaw a bSpan).setSpanRaw b aSpan) = d'
      have hids : d'.ids = d.ids := by
        rw [← hd']
        show (d.slots.map _).map Prod.fst = _
        rw [List.map_map]
        rfl
      have hspan : ∀ x, d'.spanOf x = if x = b then aSpan else if x = a then bSpan else d.spanOf x := by
        intro x
        rw [← hd', spanOf_setSpanRaw, spanOf_setSpanRaw]
        rfl
      have hslot : ∀ x, d'.slotOf x =
          (d.slotOf x).map fun slot => if x = a then bSlot else if x = b then aSlot else slot := by
        intro x
        rw [← hd']
        exact Assoc.get_map (fun k slot => if k = a then bSlot else if k = b then aSlot else slot)
          d.slots x
      have hnodup : d'.ids.Nodup := by
        rw [hids]
        exact h.nodup
      refine h.exchanged (fun x y => y = Equiv.swap a b x) ?_ (sort_sorted _) (sort_nodup hnodup)
        ?_ ?_
      · intro x x' y hx hx'
        exact (Equiv.swap a b).injective (hx.symm.trans hx')
      · intro x
        show (d'.spanOf x).Solid
        rw [hspan]
        split
        · rw [← haspan]
          exact h.solid a
        · split
          · rw [← hbspan]
            exact h.solid b
          · exact h.solid x
      · intro x r hx
        rw [rectOf_sort hnodup, rectOf_eq_some, hslot, hspan] at hx
        refine ⟨_, rfl, ?_⟩
        rw [rectOf_eq_some]
        by_cases hxa : x = a
        · subst hxa
          rw [haslot, if_neg hab, if_pos rfl] at hx
          simp only [Option.map_some, if_true, Option.some.injEq] at hx
          rw [Equiv.swap_apply_left, hbslot, hbspan, ← hx.1, ← hx.2]
          exact ⟨rfl, rfl⟩
        · by_cases hxb : x = b
          · subst hxb
            rw [hbslot, if_pos rfl] at hx
            simp only [Option.map_some, if_neg hxa, if_true, Option.some.injEq] at hx
            rw [Equiv.swap_apply_right, haslot, haspan, ← hx.1, ← hx.2]
            exact ⟨rfl, rfl⟩
          · rw [if_neg hxb, if_neg hxa] at hx
            simp only [if_neg hxa, if_neg hxb, Option.map_id'] at hx
            rw [Equiv.swap_apply_of_ne_of_ne hxa hxb]
            exact hx
    · exact h

/-! ### Placing tiles one by one -/

/-- Put a tile behind the others. -/
def place (d : DesktopState) (id : WindowId) (r : Slot × Span) : DesktopState :=
  { d with slots := d.slots ++ [(id, r.1)] }.setSpanRaw id r.2

@[simp] theorem ids_place (d : DesktopState) (id : WindowId) (r : Slot × Span) :
    (d.place id r).ids = d.ids ++ [id] := by
  show (d.slots ++ [(id, r.1)]).map Prod.fst = _
  rw [List.map_append]
  rfl

theorem spanOf_place (d : DesktopState) (id x : WindowId) (r : Slot × Span) :
    (d.place id r).spanOf x = if x = id then r.2 else d.spanOf x := by
  rw [place, spanOf_setSpanRaw]
  rfl

theorem rectOf_place {d : DesktopState} {id : WindowId} (h : id ∉ d.ids) (x : WindowId)
    (r : Slot × Span) : (d.place id r).rectOf x = if x = id then some r else d.rectOf x := by
  rw [rectOf, spanOf_place]
  show (Assoc.get (d.slots ++ [(id, r.1)]) x).map _ = _
  rw [Assoc.get_append, Assoc.get_cons, Assoc.get_nil]
  by_cases hx : x = id
  · rw [if_pos hx, if_pos hx, hx, Assoc.get_eq_none.2 h, if_pos rfl]
    rfl
  · rw [if_neg hx, if_neg hx, if_neg (Ne.symm hx), Option.or_none]
    rfl

/-- What placing a list of tiles with their rectangles gives. -/
theorem foldl_place (entries : List (WindowId × Slot × Span)) : ∀ d : DesktopState,
    (d.ids ++ entries.map Prod.fst).Nodup → (∀ x, (d.spanOf x).Solid) →
      (∀ e ∈ entries, e.2.2.Solid) →
      (entries.foldl (fun d' e => d'.place e.1 e.2) d).ids = d.ids ++ entries.map Prod.fst ∧
        (∀ x, ((entries.foldl (fun d' e => d'.place e.1 e.2) d).spanOf x).Solid) ∧
        ∀ x r, (entries.foldl (fun d' e => d'.place e.1 e.2) d).rectOf x = some r →
          d.rectOf x = some r ∨ (x, r) ∈ entries := by
  induction entries with
  | nil =>
      intro d _ hsolid _
      exact ⟨(List.append_nil _).symm, hsolid, fun x r hx => .inl hx⟩
  | cons e entries ih =>
      intro d hnodup hsolid hentries
      have hids : (d.place e.1 e.2).ids ++ entries.map Prod.fst =
          d.ids ++ (e :: entries).map Prod.fst := by
        rw [ids_place, List.append_assoc]
        rfl
      have hnew : e.1 ∉ d.ids := by
        intro hmem
        exact (List.nodup_append.1 hnodup).2.2 _ hmem _ (List.mem_cons_self ..) rfl
      have hsolid' : ∀ x, ((d.place e.1 e.2).spanOf x).Solid := by
        intro x
        rw [spanOf_place]
        split
        · exact hentries e (List.mem_cons_self ..)
        · exact hsolid x
      obtain ⟨hall, hspans, hrects⟩ := ih (d.place e.1 e.2) (by rw [hids]; exact hnodup) hsolid'
        fun e' he' => hentries e' (List.mem_cons_of_mem _ he')
      rw [List.foldl_cons]
      refine ⟨hall.trans hids, hspans, fun x r hx => ?_⟩
      rcases hrects x r hx with hbefore | hmem
      · rw [rectOf_place hnew] at hbefore
        by_cases hxe : x = e.1
        · rw [if_pos hxe] at hbefore
          right
          rw [hxe, ← Option.some.inj hbefore]
          exact List.mem_cons_self ..
        · rw [if_neg hxe] at hbefore
          exact .inl hbefore
      · exact .inr (List.mem_cons_of_mem _ hmem)

/-- The rectangle of a tile that is placed. -/
def footprint (d : DesktopState) (id : WindowId) : Slot × Span :=
  ((d.slotOf id).getD ⟨0, 0⟩, d.spanOf id)

theorem rectOf_footprint {d : DesktopState} {id : WindowId} (h : id ∈ d.ids) :
    d.rectOf id = some (d.footprint id) := by
  obtain ⟨slot, hslot⟩ := Option.isSome_iff_exists.1 (mem_ids.1 h)
  rw [rectOf, footprint, hslot]
  rfl

theorem footprints_eq (d : DesktopState) : d.ids.filterMap d.rectOf = d.ids.map d.footprint := by
  have hall : ∀ l : List WindowId, (∀ id ∈ l, id ∈ d.ids) →
      l.filterMap d.rectOf = l.map d.footprint := by
    intro l
    induction l with
    | nil =>
        intro _
        rfl
    | cons id l ih =>
        intro hl
        rw [List.filterMap_cons, rectOf_footprint (hl id (List.mem_cons_self ..)),
          ih fun x hx => hl x (List.mem_cons_of_mem _ hx)]
        rfl
  exact hall d.ids fun _ hid => hid

/-- The tiles and the rectangles are gone through side by side. -/
theorem foldl_zipIdx {β : Type} (g : DesktopState → WindowId → β → DesktopState) (l : List WindowId)
    (L : List β) : ∀ (k : Nat) (d : DesktopState), k + l.length ≤ L.length →
      (l.zipIdx k).foldl (fun d' e => match L[e.2]? with
        | some r => g d' e.1 r
        | none => d') d = (l.zip (L.drop k)).foldl (fun d' e => g d' e.1 e.2) d := by
  induction l with
  | nil =>
      intro k d _
      rfl
  | cons id l ih =>
      intro k d hlen
      rw [List.length_cons] at hlen
      have hk : k < L.length := by omega
      rw [List.zipIdx_cons, List.foldl_cons, List.drop_eq_getElem_cons hk, List.zip_cons_cons,
        List.foldl_cons, ← ih (k + 1) _ (by omega)]
      simp only [List.getElem?_eq_getElem hk]

/-- Every tile goes to the rectangle of the tile so far behind it. -/
def turned (d : DesktopState) (k : Nat) : List (WindowId × Slot × Span) :=
  d.ids.zip ((d.ids.rotate k).map d.footprint)

theorem keys_turned (d : DesktopState) (k : Nat) : (d.turned k).map Prod.fst = d.ids := by
  rw [turned, List.map_fst_zip]
  rw [List.length_map, List.length_rotate]

theorem rotate_fold (d : DesktopState) (forward : Bool) (hmany : 2 ≤ d.ids.length) :
    d.ids.zipIdx.foldl (fun (d' : DesktopState) (e : WindowId × Nat) =>
        match (d.ids.filterMap d.rectOf)[if forward then (e.2 + 1) % d.ids.length
          else (e.2 + d.ids.length - 1) % d.ids.length]? with
        | some (slot, span) =>
            { d' with slots := d'.slots ++ [(e.1, slot)] }.setSpanRaw e.1 span
        | none => d') { d with slots := [], spans := [] } =
      (d.turned (if forward then 1 else d.ids.length - 1)).foldl
        (fun d' e => d'.place e.1 e.2) { d with slots := [], spans := [] } := by
  have hlen : 0 + d.ids.length ≤
      ((d.ids.rotate (if forward then 1 else d.ids.length - 1)).map d.footprint).length := by
    rw [List.length_map, List.length_rotate]
    omega
  have hside := foldl_zipIdx place d.ids _ 0 { d with slots := [], spans := [] } hlen
  rw [List.drop_zero] at hside
  rw [turned, ← hside]
  apply List.foldl_ext
  intro d' e he
  have hlt : e.2 < d.ids.length := by
    have hrange := (List.mem_zipIdx he).2.1
    omega
  have htarget : (d.ids.filterMap d.rectOf)[if forward then (e.2 + 1) % d.ids.length
      else (e.2 + d.ids.length - 1) % d.ids.length]? =
      ((d.ids.rotate (if forward then 1 else d.ids.length - 1)).map d.footprint)[e.2]? := by
    rw [footprints_eq, List.getElem?_map, List.getElem?_map, List.getElem?_rotate hlt]
    cases forward with
    | true => rfl
    | false =>
        have hback : e.2 + d.ids.length - 1 = e.2 + (d.ids.length - 1) := by omega
        simp [hback]
  rw [htarget]
  cases ((d.ids.rotate (if forward then 1 else d.ids.length - 1)).map d.footprint)[e.2]? <;> rfl

/-- A rotation of less than two tiles is refused, and any other is done. -/
theorem rotatePlacements_eq (d : DesktopState) (forward : Bool) :
    d.rotatePlacements forward = if d.ids.length < 2 then (d, false) else
      ((((d.turned (if forward then 1 else d.ids.length - 1)).foldl
        (fun (d' : DesktopState) e => d'.place e.1 e.2)
          { d with slots := [], spans := [] }).sort).pushArrangementUndo d.placementSnapshot,
            true) := by
  have hlength : d.slots.length = d.ids.length := (List.length_map _).symm
  rw [rotatePlacements, hlength]
  split
  · rfl
  · next hmany =>
    have hall : (d.ids.filterMap d.rectOf).length = d.ids.length := by
      rw [footprints_eq, List.length_map]
    dsimp only
    rw [if_neg (not_not.2 hall)]
    exact congrArg (fun d' => (d'.sort.pushArrangementUndo d.placementSnapshot, true))
      (rotate_fold d forward (by omega))

theorem Tidy.rotatePlacements {d : DesktopState} (h : Tidy d) (forward : Bool) :
    Tidy (d.rotatePlacements forward).1 := by
  rw [rotatePlacements_eq]
  split
  · exact h
  · generalize (if forward then 1 else d.ids.length - 1) = k
    apply Tidy.push
    have hkeys := d.keys_turned k
    have hmem : ∀ e ∈ d.turned k, ∃ y, (e.1, y) ∈ d.ids.zip (d.ids.rotate k) ∧
        d.rectOf y = some e.2 := by
      intro e he
      rw [turned, List.zip_map_right, List.mem_map] at he
      obtain ⟨⟨x, y⟩, hxy, rfl⟩ := he
      exact ⟨y, hxy, rectOf_footprint (List.mem_rotate.1 (List.of_mem_zip hxy).2)⟩
    obtain ⟨hids, hsolid, hrects⟩ := foldl_place (d.turned k) { d with slots := [], spans := [] }
      (by rw [hkeys]; exact h.nodup) (fun x => ⟨Nat.le_refl 1, Nat.le_refl 1⟩) (fun e he => by
        obtain ⟨y, -, hy⟩ := hmem e he
        rw [← (rectOf_eq_some.1 hy).2]
        exact h.solid y)
    generalize (d.turned k).foldl (fun d' e => d'.place e.1 e.2) { d with slots := [], spans := [] }
      = d' at hids hsolid hrects
    have hnodup : d'.ids.Nodup := by
      rw [hids, hkeys]
      exact h.nodup
    refine h.exchanged (fun x y => (x, y) ∈ d.ids.zip (d.ids.rotate k)) ?_ (sort_sorted _)
      (sort_nodup hnodup) hsolid ?_
    · intro a b y ha hb
      -- every tile is once in the turned list
      have honce : (d.ids.rotate k).Nodup := List.nodup_rotate.2 h.nodup
      obtain ⟨i, hi, hia⟩ := List.mem_iff_getElem.1 ha
      obtain ⟨j, hj, hjb⟩ := List.mem_iff_getElem.1 hb
      rw [List.getElem_zip, Prod.mk.injEq] at hia hjb
      have hij : i = j := honce.getElem_inj_iff.1 (hia.2.trans hjb.2.symm)
      subst hij
      exact hia.1.symm.trans hjb.1
    · intro x r hx
      rw [rectOf_sort hnodup] at hx
      rcases hrects x r hx with hnone | hturned
      · rw [rectOf_eq_some] at hnone
        cases hnone.1
      · exact hmem _ hturned

/-! ### Reconciling -/

/-- What a seeded list of leaves changes. -/
structure Seeded (d : DesktopState) (leaves : List WindowId) (d' : DesktopState) : Prop where
  tidy : Tidy d'
  forgets : Forgets d d'
  ids : ∀ x, x ∈ d'.ids ↔ x ∈ d.ids ∨ x ∈ leaves
  stay : ∀ x ∈ d.ids, d'.rectOf x = d.rectOf x

theorem Tidy.seedLeaf {d : DesktopState} (h : Tidy d) (center : Slot) {newSpan : Span}
    (hsolid : newSpan.Solid) (leaf : WindowId) :
    Seeded d [leaf] (DesktopState.seedLeaf center newSpan d leaf) := by
  rw [DesktopState.seedLeaf]
  split
  · next hplaced =>
    have hmem := mem_ids.2 hplaced
    refine ⟨h, .inl rfl, fun x => ⟨.inl, ?_⟩, fun _ _ => rfl⟩
    rintro (hx | hx)
    · exact hx
    · rw [List.mem_singleton.1 hx]
      exact hmem
  · next hnot =>
    have hnew : leaf ∉ d.ids := fun hmem => hnot (mem_ids.1 hmem)
    have hfree := d.seedSpanNear_free center newSpan
    generalize d.seedSpanNear center newSpan = slot at hfree
    dsimp only
    -- the new tile is placed behind the others, and the list sorted again
    have hspan : ∀ x, (({ d with slots := d.slots ++ [(leaf, slot)] } : DesktopState).setSpan
        leaf newSpan).spanOf x = (d.place leaf (slot, newSpan)).spanOf x := by
      intro x
      rw [spanOf_setSpan, spanOf_place]
      rfl
    have hslots : (({ d with slots := d.slots ++ [(leaf, slot)] } : DesktopState).setSpan
        leaf newSpan).slots = (d.place leaf (slot, newSpan)).slots := setSpan_slots _ _ _
    have hforgets : Forgets d (({ d with slots := d.slots ++ [(leaf, slot)] } :
        DesktopState).setSpan leaf newSpan) :=
      setSpan_forgets { d with slots := d.slots ++ [(leaf, slot)] } leaf newSpan
    generalize (({ d with slots := d.slots ++ [(leaf, slot)] } : DesktopState).setSpan
      leaf newSpan) = d' at hspan hslots hforgets
    have hids : d'.ids = d.ids ++ [leaf] := by
      rw [DesktopState.ids, hslots]
      exact ids_place d leaf (slot, newSpan)
    have hrect : ∀ x, d'.rectOf x = if x = leaf then some (slot, newSpan) else d.rectOf x := by
      intro x
      rw [rectOf, slotOf_eq, hslots, hspan]
      exact rectOf_place hnew x (slot, newSpan)
    have hnodup : d'.ids.Nodup := by
      rw [hids]
      exact List.nodup_append.2 ⟨h.nodup, List.nodup_singleton leaf, by
        intro x hx y hy hxy
        rw [List.mem_singleton.1 hy] at hxy
        exact hnew (hxy ▸ hx)⟩
    constructor
    · refine h.moved leaf (slot, newSpan) (sort_sorted _) (sort_nodup hnodup) ?_ ?_ ?_
      · intro x
        show (d'.spanOf x).Solid
        rw [hspan, spanOf_place]
        split
        · exact hsolid
        · exact h.solid x
      · intro x
        rw [rectOf_sort hnodup]
        exact hrect x
      · intro x r hx hother
        exact h.apart_of_rectFree hfree (by simp) hother
    · exact hforgets
    · intro x
      have hperm : x ∈ d'.sort.ids ↔ x ∈ d'.ids := (d'.sort_perm.map Prod.fst).mem_iff
      rw [hperm, hids, List.mem_append]
    · intro x hx
      have hother : x ≠ leaf := by
        rintro rfl
        exact hnew hx
      rw [rectOf_sort hnodup, hrect, if_neg hother]

theorem Tidy.seedLeaves (center : Slot) {newSpan : Span} (hsolid : newSpan.Solid)
    (leaves : List WindowId) : ∀ {d : DesktopState}, Tidy d →
      Seeded d leaves (leaves.foldl (DesktopState.seedLeaf center newSpan) d) := by
  induction leaves with
  | nil =>
      intro d h
      exact ⟨h, .inl rfl, fun x => by simp, fun _ _ => rfl⟩
  | cons leaf leaves ih =>
      intro d h
      have hone := h.seedLeaf center hsolid leaf
      have hrest := ih hone.tidy
      rw [List.foldl_cons]
      refine ⟨hrest.tidy, hone.forgets.trans hrest.forgets, fun x => ?_, fun x hx => ?_⟩
      · rw [hrest.ids, hone.ids]
        simp [or_assoc]
      · rw [hrest.stay x ((hone.ids x).2 (.inl hx)), hone.stay x hx]

/-- What is left when the gone tiles are dropped. -/
theorem Tidy.dropped {d : DesktopState} (h : Tidy d) (leaves : List WindowId) :
    Tidy { d with
      slots := d.slots.filter fun entry => leaves.contains entry.1
      spans := d.spans.filter fun entry => leaves.contains entry.1 } ∧
    ∀ x, ({ d with
      slots := d.slots.filter fun entry => leaves.contains entry.1
      spans := d.spans.filter fun entry => leaves.contains entry.1 } : DesktopState).rectOf x =
        if x ∈ leaves then d.rectOf x else none := by
  generalize hkept : ({ d with
      slots := d.slots.filter fun entry => leaves.contains entry.1
      spans := d.spans.filter fun entry => leaves.contains entry.1 } : DesktopState) = kept
  have hslot : ∀ x, kept.slotOf x = if leaves.contains x then d.slotOf x else none := by
    intro x
    rw [← hkept]
    exact Assoc.get_filter leaves.contains d.slots x
  have hspan : ∀ x, kept.spanOf x = if leaves.contains x then d.spanOf x else .one := by
    intro x
    rw [← hkept, spanOf_eq]
    dsimp only
    rw [Assoc.get_filter leaves.contains d.spans x]
    split <;> rfl
  have hrect : ∀ x, kept.rectOf x = if x ∈ leaves then d.rectOf x else none := by
    intro x
    rw [rectOf, hslot, hspan]
    by_cases hx : x ∈ leaves
    · rw [if_pos hx, if_pos (List.contains_iff_mem.2 hx), if_pos (List.contains_iff_mem.2 hx)]
      rfl
    · rw [if_neg hx, if_neg (mt List.contains_iff_mem.1 hx), if_neg (mt List.contains_iff_mem.1 hx)]
      rfl
  have hsub : kept.slots.Sublist d.slots := by
    rw [← hkept]
    exact List.filter_sublist
  refine ⟨h.of_rectOf (h.sorted.sublist hsub) (h.nodup.sublist (hsub.map Prod.fst)) ?_ ?_, hrect⟩
  · intro x
    rw [hspan]
    split
    · exact h.solid x
    · exact ⟨Nat.le_refl 1, Nat.le_refl 1⟩
  · intro x r hx
    rw [hrect] at hx
    exact (Option.ite_none_right_eq_some.1 hx).2

/-- What a reconcile with the leaves of the tree gives. -/
structure Reconciled (d : DesktopState) (leaves : List WindowId) (d' : DesktopState) : Prop where
  tidy : Tidy d'
  forgets : Forgets d d'
  ids : ∀ x, x ∈ d'.ids ↔ x ∈ leaves
  stay : ∀ x ∈ leaves, x ∈ d.ids → d'.rectOf x = d.rectOf x

theorem Tidy.invalidated {d : DesktopState} (h : Tidy d) : Tidy d.invalidateArrangementHistory where
  sorted := h.sorted
  nodup := h.nodup
  solid := h.solid
  apart := h.apart

theorem Tidy.reconciled {d : DesktopState} (h : Tidy d) (leaves : List WindowId)
    (near : Option WindowId) {newSpan : Span} (hsolid : newSpan.Solid) :
    Reconciled d leaves (d.reconcileNearWithSpan leaves near newSpan).1 := by
  obtain ⟨htidy, hrect⟩ := h.dropped leaves
  have hforgets : Forgets d { d with
      slots := d.slots.filter fun entry => leaves.contains entry.1
      spans := d.spans.filter fun entry => leaves.contains entry.1 } := .inl rfl
  have hform : ∃ (center : Slot) (changed : Bool),
      (d.reconcileNearWithSpan leaves near newSpan).1 =
        let placed := leaves.foldl (DesktopState.seedLeaf center newSpan) { d with
          slots := d.slots.filter fun entry => leaves.contains entry.1
          spans := d.spans.filter fun entry => leaves.contains entry.1 }
        if changed then placed.invalidateArrangementHistory else placed := ⟨_, _, rfl⟩
  obtain ⟨center, changed, heq⟩ := hform
  rw [heq]
  dsimp only
  generalize ({ d with
      slots := d.slots.filter fun entry => leaves.contains entry.1
      spans := d.spans.filter fun entry => leaves.contains entry.1 } : DesktopState) = kept
    at htidy hrect hforgets
  have hseeded := Tidy.seedLeaves center hsolid leaves htidy
  generalize leaves.foldl (DesktopState.seedLeaf center newSpan) kept = placed at hseeded
  -- a kept tile is a leaf
  have hkept : ∀ x, x ∈ kept.ids ↔ x ∈ leaves ∧ x ∈ d.ids := by
    intro x
    rw [← rectOf_isSome, ← rectOf_isSome, hrect]
    split <;> simp [*]
  have hids : ∀ x, x ∈ placed.ids ↔ x ∈ leaves := by
    intro x
    rw [hseeded.ids, hkept]
    constructor
    · rintro (hx | hx)
      · exact hx.1
      · exact hx
    · exact .inr
  have hstay : ∀ x ∈ leaves, x ∈ d.ids → placed.rectOf x = d.rectOf x := by
    intro x hx hplaced
    rw [hseeded.stay x ((hkept x).2 ⟨hx, hplaced⟩), hrect, if_pos hx]
  split
  · exact ⟨hseeded.tidy.invalidated, .inr rfl, hids, hstay⟩
  · exact ⟨hseeded.tidy, hforgets.trans hseeded.forgets, hids, hstay⟩

/-! ### The history -/

/-- The placement of a snapshot. -/
def ofSnapshot (snapshot : PlacementSnapshot) : DesktopState :=
  { slots := snapshot.slots, spans := snapshot.spans }

theorem Tidy.snapshot {d : DesktopState} (h : Tidy d) : Tidy (ofSnapshot d.placementSnapshot) where
  sorted := h.sorted
  nodup := h.nodup
  solid := h.solid
  apart := h.apart

/-- An exchange is refused, or records the placement before it. -/
def Records (d : DesktopState) (result : DesktopState × Bool) : Prop :=
  result = (d, false) ∨ ∃ d' : DesktopState,
    result = (d'.pushArrangementUndo d.placementSnapshot, true) ∧
      d'.arrangementHistory = d.arrangementHistory

theorem swapPlacements_records (d : DesktopState) (a b : WindowId) :
    Records d (d.swapPlacements a b) := by
  rw [swapPlacements]
  split
  · exact .inl rfl
  · split
    · exact .inr ⟨_, rfl, rfl⟩
    · exact .inl rfl

theorem foldl_place_history (entries : List (WindowId × Slot × Span)) : ∀ d : DesktopState,
    (entries.foldl (fun d' e => d'.place e.1 e.2) d).arrangementHistory =
      d.arrangementHistory := by
  induction entries with
  | nil => exact fun _ => rfl
  | cons e entries ih => exact fun d => ih (d.place e.1 e.2)

theorem rotatePlacements_records (d : DesktopState) (forward : Bool) :
    Records d (d.rotatePlacements forward) := by
  rw [rotatePlacements_eq]
  split
  · exact .inl rfl
  · exact .inr ⟨_, rfl, foldl_place_history _ _⟩

/-- The oldest snapshot is given up for the newest. -/
theorem push_suffix {d d' : DesktopState} {made : List PlacementSnapshot}
    (hsame : d'.arrangementHistory = d.arrangementHistory) (h : d.arrangementHistory <:+ made)
    (snapshot : PlacementSnapshot) :
    (d'.pushArrangementUndo snapshot).arrangementHistory <:+ made ++ [snapshot] := by
  have hkept : (if d'.arrangementHistory.length = arrangementHistoryLimit
      then d'.arrangementHistory.tail else d'.arrangementHistory) <:+ made := by
    rw [hsame]
    split
    · exact (List.tail_suffix _).trans h
    · exact h
  obtain ⟨front, hfront⟩ := hkept
  refine ⟨front, ?_⟩
  rw [← hfront, List.append_assoc]
  rfl

theorem mem_push {d d' : DesktopState} (hsame : d'.arrangementHistory = d.arrangementHistory)
    {snapshot entry : PlacementSnapshot}
    (h : entry ∈ (d'.pushArrangementUndo snapshot).arrangementHistory) :
    entry ∈ d.arrangementHistory ∨ entry = snapshot := by
  rw [pushArrangementUndo, ← hsame] at *
  dsimp only at h
  rw [List.mem_append, List.mem_singleton] at h
  rcases h with hmem | hlast
  · left
    split at hmem
    · exact List.mem_of_mem_tail hmem
    · exact hmem
  · exact .inr hlast

/-! ### Runs -/

/-- What mutates the placement. A resize commits what `clamp_resize` says. -/
inductive PlaneAction where
  | reconcile (leaves : List WindowId) (near : Option WindowId) (rows cols : Nat)
  | freeDrop (id : WindowId) (target : Slot)
  | resize (id : WindowId) (edge : ResizeEdge) (desired : Nat)
  | swap (a b : WindowId)
  | rotate (forward : Bool)
  | restore (id : WindowId) (slot : Slot) (rows cols : Nat)
  | undo

def perform (d : DesktopState) : PlaneAction → DesktopState
  | .reconcile leaves near rows cols => (d.reconcileNearWithSpan leaves near (.new rows cols)).1
  | .freeDrop id target => (d.freeDrop id target).1
  | .resize id edge desired => d.resizeTo id edge desired
  | .swap a b => (d.swapPlacements a b).1
  | .rotate forward => (d.rotatePlacements forward).1
  | .restore id slot rows cols => (d.restorePlacementIfFree id slot (.new rows cols)).1
  | .undo => d.undoArrangement.1

def plane : Machine DesktopState PlaneAction where
  start d := d = {}
  step d action := some (d.perform action)

/-- The placements before the exchanges that were done and not undone,
oldest first. -/
def recordExchange (d : DesktopState) (made : List PlacementSnapshot) :
    PlaneAction → List PlacementSnapshot
  | .swap a b => if (d.swapPlacements a b).2 then made ++ [d.placementSnapshot] else made
  | .rotate forward => if (d.rotatePlacements forward).2 then made ++ [d.placementSnapshot] else made
  | .undo => if d.undoArrangement.2 then made.dropLast else made
  | _ => made

/-- The history is the end of what was made. -/
structure Arranged (s : DesktopState × List PlacementSnapshot) : Prop where
  tidy : Tidy s.1
  history : s.1.arrangementHistory <:+ s.2
  snapshots : ∀ snapshot ∈ s.1.arrangementHistory, Tidy (ofSnapshot snapshot)

theorem Arranged.kept {d : DesktopState} {made : List PlacementSnapshot} (h : Arranged (d, made))
    {d' : DesktopState} (htidy : Tidy d') (hforgets : Forgets d d') : Arranged (d', made) := by
  rcases hforgets with hsame | hnone
  · refine ⟨htidy, ?_, ?_⟩
    · show d'.arrangementHistory <:+ made
      rw [hsame]
      exact h.history
    · show ∀ snapshot ∈ d'.arrangementHistory, _
      rw [hsame]
      exact h.snapshots
  · refine ⟨htidy, ?_, ?_⟩
    · show d'.arrangementHistory <:+ made
      rw [hnone]
      exact List.nil_suffix
    · show ∀ snapshot ∈ d'.arrangementHistory, _
      rw [hnone]
      intro snapshot hmem
      cases hmem

theorem Arranged.exchanged {d : DesktopState} {made : List PlacementSnapshot}
    (h : Arranged (d, made)) {result : DesktopState × Bool} (htidy : Tidy result.1)
    (hrecords : Records d result) :
    Arranged (result.1, if result.2 then made ++ [d.placementSnapshot] else made) := by
  rcases hrecords with rfl | ⟨d', rfl, hsame⟩
  · exact h
  · refine ⟨htidy, push_suffix hsame h.history _, fun snapshot hmem => ?_⟩
    rcases mem_push hsame hmem with hold | rfl
    · exact h.snapshots snapshot hold
    · exact h.tidy.snapshot

/-- An undo takes back the last exchange that was not undone. -/
theorem Arranged.undo {d : DesktopState} {made : List PlacementSnapshot} (h : Arranged (d, made)) :
    d.undoArrangement = (d, false) ∨ ∃ snapshot front, made = front ++ [snapshot] ∧
      d.undoArrangement.2 = true ∧ d.undoArrangement.1.placementSnapshot = snapshot ∧
      Arranged (d.undoArrangement.1, front) := by
  rw [undoArrangement]
  cases hlast : d.arrangementHistory.getLast? with
  | none => exact .inl rfl
  | some snapshot =>
      right
      obtain ⟨older, hhistory⟩ := List.getLast?_eq_some_iff.1 hlast
      have hsuffix := h.history
      have hsnapshots := h.snapshots
      dsimp only at hsuffix hsnapshots ⊢
      rw [hhistory] at hsuffix hsnapshots
      obtain ⟨front, hmade⟩ := hsuffix
      have htidy := hsnapshots snapshot (by simp)
      have hsort := sort_of_sorted (d := { d with
        slots := snapshot.slots
        spans := snapshot.spans
        arrangementHistory := d.arrangementHistory.dropLast }) htidy.sorted
      rw [hsort, hhistory, List.dropLast_concat]
      refine ⟨snapshot, front ++ older, by rw [← hmade, List.append_assoc], rfl, rfl, ?_⟩
      refine ⟨⟨htidy.sorted, htidy.nodup, htidy.solid, htidy.apart⟩, List.suffix_append _ _, ?_⟩
      intro entry hmem
      exact hsnapshots entry (List.mem_append_left _ hmem)

theorem Arranged.step {d : DesktopState} {made : List PlacementSnapshot} (h : Arranged (d, made))
    (action : PlaneAction) : Arranged (d.perform action, d.recordExchange made action) := by
  cases action with
  | reconcile leaves near rows cols =>
      have hreconciled := h.tidy.reconciled leaves near (Span.new_solid rows cols)
      exact h.kept hreconciled.tidy hreconciled.forgets
  | freeDrop id target =>
      obtain ⟨htidy, hforgets⟩ := h.tidy.freeDrop id target
      exact h.kept htidy hforgets
  | resize id edge desired =>
      obtain ⟨htidy, hforgets⟩ := h.tidy.resizeTo id edge desired
      exact h.kept htidy hforgets
  | swap a b => exact h.exchanged (h.tidy.swapPlacements a b) (d.swapPlacements_records a b)
  | rotate forward =>
      exact h.exchanged (h.tidy.rotatePlacements forward) (d.rotatePlacements_records forward)
  | restore id slot rows cols =>
      obtain ⟨htidy, hforgets⟩ := h.tidy.restorePlacementIfFree id slot (Span.new_solid rows cols)
      exact h.kept htidy hforgets
  | undo =>
      rcases h.undo with hnone | ⟨snapshot, front, rfl, hdone, -, harranged⟩
      · simp only [perform, recordExchange, hnone]
        exact h
      · simp only [perform, recordExchange, hdone, if_true, List.dropLast_concat]
        exact harranged

/-- What holds of a placement at any time, and of the next reconcile,
resize and undo. -/
structure Kept (d : DesktopState) (made : List PlacementSnapshot) : Prop where
  tidy : Tidy d
  reconciled : ∀ leaves near rows cols,
    Reconciled d leaves (d.reconcileNearWithSpan leaves near (.new rows cols)).1
  resized : ∀ id edge desired r, d.rectOf id = some r →
    KeepsOthers edge r (d.clampResize id edge desired) ∧
      extent edge (d.clampResize id edge desired).2 ≤ max desired 1
  undone : d.undoArrangement.2 = true →
    made.getLast? = some d.undoArrangement.1.placementSnapshot

end DesktopState

end Yaldabaoth
