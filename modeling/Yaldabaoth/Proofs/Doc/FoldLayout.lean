import Mathlib.Data.List.TakeWhile
import Mathlib.Data.Nat.Find
import Yaldabaoth.Model.DocFolds

/-!
# `Yaldabaoth.Proofs.Doc.FoldLayout`: what a fold hides

`FoldLayout.compute` goes through the blocks once and remembers the
outermost fold that is open. `InSection` is the nested reading of the
same: a block is in the section of every heading above it that no
heading in between closes. `Scanned` relates the two, and is carried
along the scan block by block.
-/

set_option autoImplicit false

namespace Yaldabaoth

/-! ### Sections -/

/-- The block is below the heading, and every heading from there to the
block, itself included, is deeper. -/
def InSection (blocks : List RenderedBlock) (j i : Nat) : Prop :=
  j < i ∧ ∃ level, levelAt blocks j = some level ∧
    ∀ m, j < m → m ≤ i → ∀ deeper, levelAt blocks m = some deeper → level < deeper

theorem levelAt_append_left {front back : List RenderedBlock} {i : Nat} (h : i < front.length) :
    levelAt (front ++ back) i = levelAt front i := by
  rw [levelAt, List.getElem?_append_left h, levelAt]

theorem levelAt_end (front : List RenderedBlock) (b : RenderedBlock) :
    levelAt (front ++ [b]) front.length = b.headingLevel := by
  rw [levelAt, List.getElem?_append_right (Nat.le_refl _), Nat.sub_self]
  rfl

theorem lt_length_of_levelAt {blocks : List RenderedBlock} {i level : Nat}
    (h : levelAt blocks i = some level) : i < blocks.length := by
  by_contra hnot
  rw [levelAt, List.getElem?_eq_none (by omega)] at h
  cases h

/-- Later blocks are not asked. -/
theorem inSection_append {front back : List RenderedBlock} {j i : Nat} (hi : i < front.length) :
    InSection (front ++ back) j i ↔ InSection front j i := by
  constructor
  · rintro ⟨hji, level, hlevel, hdeeper⟩
    rw [levelAt_append_left (by omega)] at hlevel
    refine ⟨hji, level, hlevel, fun m hjm hmi deeper hm => hdeeper m hjm hmi deeper ?_⟩
    rw [levelAt_append_left (by omega)]
    exact hm
  · rintro ⟨hji, level, hlevel, hdeeper⟩
    refine ⟨hji, level, ?_, fun m hjm hmi deeper hm => hdeeper m hjm hmi deeper ?_⟩
    · rw [levelAt_append_left (by omega)]
      exact hlevel
    · rw [levelAt_append_left (by omega)] at hm
      exact hm

/-- A section ends with the section that it is in. -/
theorem InSection.trans {blocks : List RenderedBlock} {k j i : Nat} (hkj : InSection blocks k j)
    (hji : InSection blocks j i) : InSection blocks k i := by
  obtain ⟨hlt, level, hlevel, hdeeper⟩ := hkj
  obtain ⟨hlt', level', hlevel', hdeeper'⟩ := hji
  refine ⟨by omega, level, hlevel, fun m hkm hmi deeper hm => ?_⟩
  rcases Nat.lt_or_ge j m with hjm | hmj
  · have hfirst := hdeeper j hlt (Nat.le_refl j) level' hlevel'
    have hsecond := hdeeper' m hjm hmi deeper hm
    omega
  · exact hdeeper m hkm hmj deeper hm

theorem InSection.mono {blocks : List RenderedBlock} {j i k : Nat} (h : InSection blocks j i)
    (hjk : j < k) (hki : k ≤ i) : InSection blocks j k := by
  obtain ⟨-, level, hlevel, hdeeper⟩ := h
  exact ⟨hjk, level, hlevel, fun m hjm hmk => hdeeper m hjm (by omega)⟩

namespace FoldLayout

variable {key : Nat → Nat} {folds : DocFolds}

/-! ### The scan -/

/-- The heading is folded, and its section is still open behind the
blocks. -/
def Live (key : Nat → Nat) (folds : DocFolds) (front : List RenderedBlock) (j level : Nat) : Prop :=
  levelAt front j = some level ∧ folds.contains (key j) = true ∧
    ∀ m, j < m → ∀ deeper, levelAt front m = some deeper → level < deeper

/-- The hidden blocks that follow a block. -/
def hiddenRun (layout : FoldLayout) (j : Nat) : List Bool :=
  (layout.hidden.drop (j + 1)).takeWhile id

structure Scanned (key : Nat → Nat) (folds : DocFolds) (front : List RenderedBlock) (s : Scan) :
    Prop where
  length : s.layout.hidden.length = front.length
  hidden : ∀ i < front.length, s.layout.isHidden i = true ↔
    ∃ j, folds.contains (key j) = true ∧ InSection front j i
  outermost : ∀ o level, s.opened = some (o, level) →
    Live key folds front o level ∧ ∀ j level', Live key folds front j level' → o ≤ j
  closed : s.opened = none → ∀ j level, ¬ Live key folds front j level
  owners : ∀ j n, s.layout.folded.lookup j = some n → j < front.length
  counted : ∀ j < front.length, s.layout.isHidden j = false →
    (s.layout.hiddenCount j).getD 0 = (s.layout.hiddenRun j).length

theorem live_append {front : List RenderedBlock} {b : RenderedBlock} {j level : Nat}
    (hj : j < front.length) :
    Live key folds (front ++ [b]) j level ↔
      Live key folds front j level ∧ ∀ deeper, b.headingLevel = some deeper → level < deeper := by
  constructor
  · rintro ⟨hlevel, hfolded, hdeeper⟩
    rw [levelAt_append_left hj] at hlevel
    refine ⟨⟨hlevel, hfolded, fun m hjm deeper hm => hdeeper m hjm deeper ?_⟩, fun deeper hb => ?_⟩
    · rw [levelAt_append_left (lt_length_of_levelAt hm)]
      exact hm
    · refine hdeeper front.length hj deeper ?_
      rw [levelAt_end]
      exact hb
  · rintro ⟨⟨hlevel, hfolded, hdeeper⟩, hb⟩
    refine ⟨by rw [levelAt_append_left hj]; exact hlevel, hfolded, fun m hjm deeper hm => ?_⟩
    have hlt := lt_length_of_levelAt hm
    rw [List.length_append, List.length_singleton] at hlt
    rcases Nat.lt_or_ge m front.length with hmf | hmf
    · rw [levelAt_append_left hmf] at hm
      exact hdeeper m hjm deeper hm
    · obtain rfl : m = front.length := by omega
      rw [levelAt_end] at hm
      exact hb deeper hm

theorem live_last {front : List RenderedBlock} {b : RenderedBlock} {level : Nat} :
    Live key folds (front ++ [b]) front.length level ↔
      b.headingLevel = some level ∧ folds.contains (key front.length) = true := by
  constructor
  · rintro ⟨hlevel, hfolded, -⟩
    rw [levelAt_end] at hlevel
    exact ⟨hlevel, hfolded⟩
  · rintro ⟨hlevel, hfolded⟩
    refine ⟨by rw [levelAt_end]; exact hlevel, hfolded, fun m hm deeper hdeeper => ?_⟩
    have hlt := lt_length_of_levelAt hdeeper
    rw [List.length_append, List.length_singleton] at hlt
    omega

/-- What is live is folded, and its section reaches to the last block. -/
theorem Live.inSection {front : List RenderedBlock} {j level i : Nat}
    (h : Live key folds front j level) (hji : j < i) : InSection front j i := by
  obtain ⟨hlevel, -, hdeeper⟩ := h
  exact ⟨hji, level, hlevel, fun m hjm _ => hdeeper m hjm⟩

/-- The outermost fold is painted. -/
theorem Scanned.owner_painted {front : List RenderedBlock} {s : Scan}
    (h : Scanned key folds front s) {o level : Nat} (hopen : s.opened = some (o, level)) :
    s.layout.isHidden o = false := by
  obtain ⟨⟨hlevel, -, hdeeper⟩, hleast⟩ := h.outermost o level hopen
  by_contra hhidden
  obtain ⟨j, hfolded, hjo, level', hlevel', hdeeper'⟩ :=
    (h.hidden o (lt_length_of_levelAt hlevel)).1 (by simpa using hhidden)
  -- a fold that hides it would be live, and further out
  have hlive : Live key folds front j level' := by
    refine ⟨hlevel', hfolded, fun m hjm deeper hm => ?_⟩
    rcases Nat.lt_or_ge o m with hom | hmo
    · have hfirst := hdeeper' o hjo (Nat.le_refl o) level hlevel
      have hsecond := hdeeper m hom deeper hm
      omega
    · exact hdeeper' m hjm hmo deeper hm
  have := hleast j level' hlive
  omega

/-! ### One block -/

theorem isHidden_append {layout : FoldLayout} {x : Bool} {folded : Map Nat Nat} {i : Nat} :
    isHidden ⟨layout.hidden ++ [x], folded⟩ i =
      if i < layout.hidden.length then layout.isHidden i
      else if i = layout.hidden.length then x else false := by
  simp only [isHidden]
  by_cases hlt : i < layout.hidden.length
  · rw [if_pos hlt, List.getElem?_append_left hlt]
  · rw [if_neg hlt, List.getElem?_append_right (by omega)]
    by_cases heq : i = layout.hidden.length
    · subst heq
      simp
    · rw [if_neg heq, List.getElem?_eq_none (by simp; omega)]
      rfl

/-- A block that is not hidden ends no run, and has none yet. -/
theorem hiddenRun_append_false (layout : FoldLayout) (folded : Map Nat Nat) (j : Nat) :
    hiddenRun ⟨layout.hidden ++ [false], folded⟩ j = layout.hiddenRun j := by
  simp only [hiddenRun]
  rcases Nat.lt_or_ge layout.hidden.length (j + 1) with hbeyond | hwithin
  · rw [List.drop_eq_nil_of_le (by simp; omega), List.drop_eq_nil_of_le (by omega)]
  · rw [List.drop_append_of_le_length hwithin, List.takeWhile_append]
    split
    · next hall =>
      rw [(List.takeWhile_prefix id).eq_of_length hall]
      exact List.append_nil _
    · rfl

/-- All behind a block is hidden when its run is as long as what is there. -/
theorem hiddenRun_full {layout : FoldLayout} {j : Nat} :
    (layout.hiddenRun j).length = (layout.hidden.drop (j + 1)).length ↔
      ∀ i, j < i → i < layout.hidden.length → layout.isHidden i = true := by
  have hself : (layout.hiddenRun j).length = (layout.hidden.drop (j + 1)).length ↔
      layout.hiddenRun j = layout.hidden.drop (j + 1) :=
    ⟨fun h => (List.takeWhile_prefix id).eq_of_length h, fun h => congrArg List.length h⟩
  rw [hself, hiddenRun, List.takeWhile_eq_self_iff]
  constructor
  · intro hall i hji hi
    have hmem : layout.hidden[i] ∈ layout.hidden.drop (j + 1) := by
      rw [List.mem_drop_iff_getElem]
      exact ⟨i - (j + 1), by omega, by congr 1; omega⟩
    rw [isHidden, List.getElem?_eq_getElem hi]
    exact hall _ hmem
  · intro hall x hx
    obtain ⟨n, hn, rfl⟩ := List.mem_drop_iff_getElem.1 hx
    have hhidden := hall (j + 1 + n) (by omega) (by omega)
    rw [isHidden, List.getElem?_eq_getElem (by omega)] at hhidden
    exact hhidden

theorem Scanned.visit_painted {front : List RenderedBlock} {s : Scan} {b : RenderedBlock}
    (h : Scanned key folds front s)
    (hnone : ∀ j level, Live key folds front j level →
      ∃ deeper, b.headingLevel = some deeper ∧ deeper ≤ level) :
    Scanned key folds (front ++ [b])
      { layout := { s.layout with hidden := s.layout.hidden ++ [false] }
        opened :=
          if folds.contains (key s.layout.hidden.length) then
            b.headingLevel.map fun level => (s.layout.hidden.length, level)
          else none } := by
  have hdead : ∀ j level, j < front.length → ¬ Live key folds (front ++ [b]) j level := by
    intro j level hj hlive
    obtain ⟨hlive, hdeeper⟩ := (live_append hj).1 hlive
    obtain ⟨deeper, hb, hle⟩ := hnone j level hlive
    have := hdeeper deeper hb
    omega
  rw [h.length]
  constructor
  case length => simp [h.length]
  case hidden =>
    intro i hi
    rw [List.length_append, List.length_singleton] at hi
    rw [isHidden_append, h.length]
    by_cases hlt : i < front.length
    · rw [if_pos hlt, h.hidden i hlt]
      simp only [inSection_append hlt]
    · obtain rfl : i = front.length := by omega
      rw [if_neg hlt, if_pos rfl]
      refine ⟨fun hfalse => (by cases hfalse), ?_⟩
      -- a fold that hides the block would be live behind it
      rintro ⟨j, hfolded, hj, level, hlevel, hdeeper⟩
      refine absurd ⟨hlevel, hfolded, fun m hjm deeper hm => ?_⟩ (hdead j level hj)
      have hlt' := lt_length_of_levelAt hm
      rw [List.length_append, List.length_singleton] at hlt'
      exact hdeeper m hjm (by omega) deeper hm
  case outermost =>
    intro o level hopen
    dsimp only at hopen
    split at hopen
    · next hfolded =>
      obtain ⟨level', hb, heq⟩ := Option.map_eq_some_iff.1 hopen
      obtain ⟨rfl, rfl⟩ := Prod.mk.inj heq
      refine ⟨live_last.2 ⟨hb, hfolded⟩, fun j level hlive => ?_⟩
      by_contra hlt
      exact hdead j level (by omega) hlive
    · cases hopen
  case closed =>
    intro hclosed j level hlive
    have hlt := lt_length_of_levelAt hlive.1
    rw [List.length_append, List.length_singleton] at hlt
    rcases Nat.lt_or_ge j front.length with hj | hj
    · exact hdead j level hj hlive
    · obtain rfl : j = front.length := by omega
      obtain ⟨hb, hfolded⟩ := live_last.1 hlive
      simp [hfolded, hb] at hclosed
  case owners =>
    intro j n hj
    have := h.owners j n hj
    rw [List.length_append]
    omega
  case counted =>
    intro j hj hpainted
    rw [isHidden_append, h.length] at hpainted
    rw [hiddenRun_append_false]
    by_cases hlt : j < front.length
    · rw [if_pos hlt] at hpainted
      exact h.counted j hlt hpainted
    · have hnot : s.layout.folded.lookup j = none := by
        cases hlookup : s.layout.folded.lookup j with
        | none => rfl
        | some n => exact absurd (h.owners j n hlookup) hlt
      have hempty : s.layout.hidden.length ≤ j + 1 := by
        rw [h.length]
        omega
      show (s.layout.folded.lookup j).getD 0 = _
      rw [hnot, hiddenRun, List.drop_eq_nil_of_le hempty]
      rfl

theorem Scanned.visit_hidden {front : List RenderedBlock} {s : Scan} {b : RenderedBlock}
    (h : Scanned key folds front s) {o level : Nat} (hopen : s.opened = some (o, level))
    (hdeeper : ∀ deeper, b.headingLevel = some deeper → level < deeper) :
    Scanned key folds (front ++ [b])
      { layout :=
          { hidden := s.layout.hidden ++ [true]
            folded := s.layout.folded.insert o ((s.layout.folded.lookup o).getD 0 + 1) }
        opened := some (o, level) } := by
  obtain ⟨hlive, hleast⟩ := h.outermost o level hopen
  have ho := lt_length_of_levelAt hlive.1
  have hpaintedOwner := h.owner_painted hopen
  have hlive' : Live key folds (front ++ [b]) o level := (live_append ho).2 ⟨hlive, hdeeper⟩
  constructor
  case length => simp [h.length]
  case hidden =>
    intro i hi
    rw [List.length_append, List.length_singleton] at hi
    rw [isHidden_append, h.length]
    by_cases hlt : i < front.length
    · rw [if_pos hlt, h.hidden i hlt]
      simp only [inSection_append hlt]
    · obtain rfl : i = front.length := by omega
      rw [if_neg hlt, if_pos rfl]
      exact ⟨fun _ => ⟨o, hlive.2.1, hlive'.inSection ho⟩, fun _ => rfl⟩
  case outermost =>
    intro o' level' heq
    obtain ⟨rfl, rfl⟩ := Prod.mk.inj (Option.some.inj heq)
    refine ⟨hlive', fun j level hj => ?_⟩
    rcases Nat.lt_or_ge j front.length with hlt | hge
    · exact hleast j level ((live_append hlt).1 hj).1
    · omega
  case closed =>
    intro hclosed
    cases hclosed
  case owners =>
    intro j n hj
    dsimp only at hj
    rw [Map.get_insert] at hj
    rw [List.length_append]
    split at hj
    · next heq => omega
    · have := h.owners j n hj
      omega
  case counted =>
    intro j hj hpainted
    rw [List.length_append, List.length_singleton] at hj
    rw [isHidden_append, h.length] at hpainted
    by_cases hlt : j < front.length
    · rw [if_pos hlt] at hpainted
      have hcount := h.counted j hlt hpainted
      simp only [hiddenCount, hiddenRun] at hcount ⊢
      rw [Map.get_insert, List.drop_append_of_le_length (by rw [h.length]; omega),
        List.takeWhile_append]
      by_cases hjo : j = o
      · -- all behind the owner is hidden, and the block continues it
        subst hjo
        have hall : (s.layout.hiddenRun j).length = (s.layout.hidden.drop (j + 1)).length := by
          rw [hiddenRun_full]
          intro i hji hi
          rw [h.length] at hi
          exact (h.hidden i hi).2 ⟨j, hlive.2.1, hlive.inSection hji⟩
        rw [hiddenRun] at hall
        rw [if_pos rfl, if_pos hall, List.length_append, ← hall, ← hcount]
        rfl
      · -- the run of another painted block ends at the owner, if not before
        have hbefore : j < o := by
          by_contra hnot
          have hhidden := (h.hidden j hlt).2 ⟨o, hlive.2.1, hlive.inSection (by omega)⟩
          rw [hpainted] at hhidden
          cases hhidden
        have hends : (s.layout.hiddenRun j).length ≠ (s.layout.hidden.drop (j + 1)).length := by
          rw [Ne, hiddenRun_full]
          intro hall
          have hhidden := hall o hbefore (by rw [h.length]; exact ho)
          rw [hpaintedOwner] at hhidden
          cases hhidden
        rw [hiddenRun] at hends
        rw [if_neg hjo, if_neg hends]
        exact hcount
    · rw [if_neg hlt, if_pos (by omega)] at hpainted
      cases hpainted

theorem Scanned.visit {front : List RenderedBlock} {s : Scan} (h : Scanned key folds front s)
    (b : RenderedBlock) : Scanned key folds (front ++ [b]) (visit key folds s b) := by
  rw [FoldLayout.visit]
  cases hopen : s.opened with
  | none =>
      refine h.visit_painted fun j level hlive => ?_
      exact absurd hlive (h.closed hopen j level)
  | some fold =>
      obtain ⟨o, level⟩ := fold
      obtain ⟨hlive, hleast⟩ := h.outermost o level hopen
      cases hcloses : closes (o, level) b with
      | true =>
          simp only [Option.filter, hcloses, Bool.not_true]
          refine h.visit_painted fun j level' hlive' => ?_
          obtain ⟨deeper, hb, hle⟩ := (Option.any_eq_true ..).1 hcloses
          have hle := of_decide_eq_true hle
          refine ⟨deeper, hb, Nat.le_trans hle ?_⟩
          -- the live folds further in are deeper than the outermost
          rcases Nat.lt_or_ge o j with hoj | hjo
          · exact Nat.le_of_lt (hlive.2.2 j hoj level' hlive'.1)
          · obtain rfl := Nat.le_antisymm (hleast j level' hlive') hjo
            exact Nat.le_of_eq (Option.some.inj (hlive.1.symm.trans hlive'.1))
      | false =>
          simp only [Option.filter, hcloses, Bool.not_false]
          refine h.visit_hidden hopen fun deeper hb => ?_
          simpa [closes, hb] using hcloses

theorem scanned_nil (key : Nat → Nat) (folds : DocFolds) : Scanned key folds [] ⟨⟨[], ∅⟩, none⟩ where
  length := rfl
  hidden i hi := absurd hi (Nat.not_lt_zero i)
  outermost o level hopen := by cases hopen
  closed _ j level hlive := absurd (lt_length_of_levelAt hlive.1) (Nat.not_lt_zero j)
  owners j n hj := by
    rw [AList.lookup_empty] at hj
    cases hj
  counted j hj := absurd hj (Nat.not_lt_zero j)

theorem Scanned.foldl (back : List RenderedBlock) : ∀ {front : List RenderedBlock} {s : Scan},
    Scanned key folds front s →
      Scanned key folds (front ++ back) (back.foldl (FoldLayout.visit key folds) s) := by
  induction back with
  | nil =>
      intro front s h
      rw [List.append_nil]
      exact h
  | cons b rest ih =>
      intro front s h
      have hrest := ih (h.visit b)
      rwa [List.append_assoc] at hrest

/-- A fold hides the blocks of its section, and the heading counts them. -/
structure LaysOut (blocks : List RenderedBlock) (key : Nat → Nat) (folds : DocFolds)
    (layout : FoldLayout) : Prop where
  hidden : ∀ i < blocks.length, layout.isHidden i = true ↔
    ∃ j, folds.contains (key j) = true ∧ InSection blocks j i
  counted : ∀ j < blocks.length, layout.isHidden j = false →
    (layout.hiddenCount j).getD 0 = (layout.hiddenRun j).length

theorem compute_laysOut (blocks : List RenderedBlock) (key : Nat → Nat) (folds : DocFolds) :
    LaysOut blocks key folds (compute blocks key folds) :=
  have h := Scanned.foldl blocks (scanned_nil key folds)
  ⟨h.hidden, h.counted⟩

theorem isHidden_lt {blocks : List RenderedBlock} {i : Nat}
    (h : (compute blocks key folds).isHidden i = true) : i < blocks.length := by
  have hlength : (compute blocks key folds).hidden.length = blocks.length :=
    (Scanned.foldl blocks (scanned_nil key folds)).length
  by_contra hnot
  rw [isHidden, List.getElem?_eq_none (by omega)] at h
  cases h

/-! ### The heading that hides a block -/

/-- What is found above is painted, and nothing in between is. -/
theorem paintedAbove_eq_some {layout : FoldLayout} {i j : Nat} :
    layout.paintedAbove i = some j ↔
      j < i ∧ layout.isHidden j = false ∧ ∀ m, j < m → m < i → layout.isHidden m = true := by
  induction i with
  | zero => simp [paintedAbove]
  | succ i ih =>
      rw [paintedAbove, List.range_succ, List.reverse_append, List.reverse_singleton,
        List.singleton_append, List.find?_cons]
      cases hhidden : layout.isHidden i with
      | false =>
          simp only [Bool.not_false, Option.some.injEq]
          constructor
          · rintro rfl
            exact ⟨by omega, hhidden, fun m him hmi => by omega⟩
          · rintro ⟨hj, -, hall⟩
            by_contra hne
            have := hall i (by omega) (by omega)
            rw [hhidden] at this
            cases this
      | true =>
          simp only [Bool.not_true]
          rw [paintedAbove] at ih
          rw [ih]
          constructor
          · rintro ⟨hj, hpainted, hall⟩
            refine ⟨by omega, hpainted, fun m hjm hmi => ?_⟩
            rcases Nat.lt_or_ge m i with hlt | hge
            · exact hall m hjm hlt
            · obtain rfl : m = i := by omega
              exact hhidden
          · rintro ⟨hj, hpainted, hall⟩
            have hne : j ≠ i := by
              rintro rfl
              rw [hhidden] at hpainted
              cases hpainted
            exact ⟨by omega, hpainted, fun m hjm hmi => hall m hjm (by omega)⟩

/-- A hidden block is in the section of the nearest painted block above
it, which is folded. -/
theorem LaysOut.exists_owner {blocks : List RenderedBlock} {layout : FoldLayout}
    (h : LaysOut blocks key folds layout) {i : Nat} (hi : i < blocks.length)
    (hhidden : layout.isHidden i = true) :
    ∃ j, layout.paintedAbove i = some j ∧ folds.contains (key j) = true ∧
      InSection blocks j i := by
  classical
  -- the outermost fold above
  have hexists := (h.hidden i hi).1 hhidden
  have hfirst := Nat.find_spec hexists
  have hleast := fun {k : Nat} (hk : k < Nat.find hexists) => Nat.find_min hexists hk
  generalize Nat.find hexists = j at hfirst hleast
  obtain ⟨hfolded, hsection⟩ := hfirst
  have hji := hsection.1
  refine ⟨j, paintedAbove_eq_some.2 ⟨hji, ?_, fun m hjm hmi => ?_⟩, hfolded, hsection⟩
  · by_contra hnot
    obtain ⟨k, hfolded', hsection'⟩ := (h.hidden j (by omega)).1 (by simpa using hnot)
    exact hleast hsection'.1 ⟨hfolded', hsection'.trans hsection⟩
  · exact (h.hidden m (by omega)).2 ⟨j, hfolded, hsection.mono hjm (by omega)⟩

end FoldLayout

end Yaldabaoth
