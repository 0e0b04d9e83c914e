import Mathlib.Data.List.Chain
import Yaldabaoth.Proofs.View.Blocks

/-!
# `Yaldabaoth.Proofs.View.Passes`: what each pass over the list keeps

The first pass shows every line once and in order, as itself or in the
block that it is in. The passes after it drop blank lines and headers,
merge tool groups, and insert the items of the input; the text and the
calls that stand in the list stay in their order.
-/

set_option autoImplicit false

namespace Yaldabaoth

namespace FlatItem

variable {κ β : Type}

/-- A line, or a block that stands for lines. -/
def isText : FlatItem κ β → Bool
  | .line _ => true
  | .block _ => true
  | _ => false

def isGroup : FlatItem κ β → Bool
  | .toolGroup .. => true
  | _ => false

/-- What a turn can show below its header. -/
def isContent : FlatItem κ β → Bool
  | .turnHeader _ => false
  | .youBlock _ => false
  | _ => true

def block? : FlatItem κ β → Option β
  | .block b => some b
  | _ => none

def toolIds : FlatItem κ β → List κ
  | .toolGroup _ ids => ids
  | _ => []

def you? : FlatItem κ β → Option (Option Nat)
  | .youBlock parked => some parked
  | _ => none

end FlatItem

namespace ViewModel

open FlatItem (isText isGroup isContent block? toolIds you?)

variable {κ β : Type}

/-- The lines that the items show; the blocks take the ranges in their order. -/
def shown : List (FlatItem κ β) → List (Nat × Nat) → List Nat
  | [], _ => []
  | .line i :: rest, ranges => i :: shown rest ranges
  | .block _ :: rest, r :: ranges => List.range' r.1 (r.2 - r.1) ++ shown rest ranges
  | _ :: rest, ranges => shown rest ranges

theorem shown_filter (items : List (FlatItem κ β)) (ranges : List (Nat × Nat)) :
    shown (items.filter isText) ranges = shown items ranges := by
  induction items generalizing ranges with
  | nil => rfl
  | cons item rest ih =>
      cases item with
      | line i => simp [List.filter_cons, isText, shown, ih]
      | block b => cases ranges <;> simp [List.filter_cons, isText, shown, ih]
      | toolGroup a ids => simp [isText, shown, ih]
      | turnHeader role => simp [isText, shown, ih]
      | thinkingIndicator => simp [isText, shown, ih]
      | youBlock parked => simp [isText, shown, ih]

theorem blocks_filter (items : List (FlatItem κ β)) :
    (items.filter isText).filterMap block? = items.filterMap block? := by
  rw [List.filterMap_filter]
  congr 1
  funext item
  cases item <;> rfl

theorem filterMap_kept {α γ : Type} (f : α → Option γ) (l : List α) :
    (l.filter fun x => (f x).isSome).filterMap f = l.filterMap f := by
  induction l with
  | nil => rfl
  | cons a l ih =>
      cases ha : f a with
      | none => simp [ha, ih]
      | some c => simp [ha, ih]

theorem toolIds_filter (items : List (FlatItem κ β)) :
    (items.filter isGroup).flatMap toolIds = items.flatMap toolIds := by
  induction items with
  | nil => rfl
  | cons item rest ih => cases item <;> simp [isGroup, toolIds, List.filter_cons, ih]

/-! ### The first pass -/

section
variable (t : TranscriptLines) (tools : ToolCalls κ t.lineCount)

/-- The text that the first pass lays out. -/
def textLoop : List (ResolvedBlock β) → List Nat → List (FlatItem κ β)
  | _, [] => []
  | blocks, line :: rest =>
      let blocks := blocks.dropWhile fun r => decide (r.1.2 ≤ line)
      lineOrBlock blocks line ++ textLoop blocks rest

theorem lineOrBlock_isText (blocks : List (ResolvedBlock β)) (line : Nat) :
    (lineOrBlock blocks line : List (FlatItem κ β)).filter isText = lineOrBlock blocks line := by
  unfold lineOrBlock
  split
  · split
    · split <;> rfl
    · rfl
  · rfl

theorem flatLoop_isText (prev : Option TurnId) (blocks : List (ResolvedBlock β)) (lines : List Nat) :
    (flatLoop t tools prev blocks lines).filter isText = textLoop blocks lines := by
  induction lines generalizing prev blocks with
  | nil => rfl
  | cons line rest ih =>
      have hheader (role : Option TurnRole) :
          (role.map (FlatItem.turnHeader (κ := κ) (β := β))).toList.filter isText = [] := by
        cases role <;> rfl
      have hgroup : (toolGroupAt t tools line : List (FlatItem κ β)).filter isText = [] := by
        unfold toolGroupAt
        split <;> rfl
      simp [flatLoop, textLoop, hheader, hgroup, lineOrBlock_isText, ih]

theorem flatLoop_toolIds (prev : Option TurnId) (blocks : List (ResolvedBlock β))
    (lines : List Nat) :
    (flatLoop t tools prev blocks lines).flatMap toolIds =
      lines.flatMap (toolsAtLine t tools) := by
  induction lines generalizing prev blocks with
  | nil => rfl
  | cons line rest ih =>
      have hheader (role : Option TurnRole) :
          (role.map (FlatItem.turnHeader (κ := κ) (β := β))).toList.flatMap toolIds = [] := by
        cases role <;> rfl
      have htext (blocks : List (ResolvedBlock β)) :
          (lineOrBlock blocks line : List (FlatItem κ β)).flatMap toolIds = [] := by
        unfold lineOrBlock
        split
        · split
          · split <;> rfl
          · rfl
        · rfl
      have hgroup : (toolGroupAt t tools line : List (FlatItem κ β)).flatMap toolIds =
          toolsAtLine t tools line := by
        unfold toolGroupAt
        split
        · rename_i hempty
          simpa using (List.isEmpty_iff.1 hempty).symm
        · simp [toolIds]
      simp [flatLoop, hheader, htext, hgroup, ih]

/-- The first pass makes no You-block. -/
theorem flatLoop_you (prev : Option TurnId) (blocks : List (ResolvedBlock β)) (lines : List Nat) :
    (flatLoop t tools prev blocks lines).filter (fun item => (you? item).isSome) = [] := by
  induction lines generalizing prev blocks with
  | nil => rfl
  | cons line rest ih =>
      have hheader (role : Option TurnRole) :
          (role.map (FlatItem.turnHeader (κ := κ) (β := β))).toList.filter
            (fun item => (you? item).isSome) = [] := by
        cases role <;> rfl
      have htext (blocks : List (ResolvedBlock β)) :
          (lineOrBlock blocks line : List (FlatItem κ β)).filter
            (fun item => (you? item).isSome) = [] := by
        unfold lineOrBlock
        split
        · split
          · split <;> rfl
          · rfl
        · rfl
      have hgroup : (toolGroupAt t tools line : List (FlatItem κ β)).filter
          (fun item => (you? item).isSome) = [] := by
        unfold toolGroupAt
        split <;> rfl
      simp only [flatLoop, List.filter_append, hheader, htext, hgroup, ih, List.append_nil]

end

/-- Ranges that follow one another, up to line `n`. -/
structure Ranges (n : Nat) (blocks : List (ResolvedBlock β)) : Prop where
  nonempty : ∀ r ∈ blocks, r.1.1 < r.1.2
  bound : ∀ r ∈ blocks, r.1.2 ≤ n
  sorted : blocks.Pairwise fun a b => a.1.2 ≤ b.1.1

theorem Ranges.dropWhile {n : Nat} {blocks : List (ResolvedBlock β)} (h : Ranges n blocks)
    (p : ResolvedBlock β → Bool) : Ranges n (blocks.dropWhile p) where
  nonempty r hr := h.nonempty r ((List.dropWhile_sublist p).subset hr)
  bound r hr := h.bound r ((List.dropWhile_sublist p).subset hr)
  sorted := h.sorted.sublist (List.dropWhile_sublist p)

/-- The blocks that begin at line `i` or below it. -/
def ahead (i : Nat) (blocks : List (ResolvedBlock β)) : List ((Nat × Nat) × β) :=
  (blocks.filter fun r => decide (i ≤ r.1.1)).filterMap fun r => r.2.map fun b => (r.1, b)

/-- How many lines from `i` on are in a block that began above. -/
def inside (i : Nat) (blocks : List (ResolvedBlock β)) : Nat :=
  match (blocks.dropWhile fun r => decide (r.1.2 ≤ i)).head? with
  | some r => if r.2.isSome ∧ r.1.1 < i then r.1.2 - i else 0
  | none => 0

theorem inside_eq_zero {i : Nat} {blocks : List (ResolvedBlock β)}
    (h : ∀ r ∈ blocks, i ≤ r.1.1) : inside i blocks = 0 := by
  unfold inside
  split
  · rename_i r hr
    have hmem := (List.dropWhile_sublist _).subset (List.mem_of_mem_head? hr)
    have hle := h r hmem
    rw [if_neg]
    omega
  · rfl

theorem ahead_dropWhile {n i : Nat} {blocks : List (ResolvedBlock β)} (h : Ranges n blocks) :
    ahead i (blocks.dropWhile fun r => decide (r.1.2 ≤ i)) = ahead i blocks := by
  induction blocks with
  | nil => rfl
  | cons r more ih =>
      have hmore : Ranges n more :=
        ⟨fun r hr => h.nonempty r (List.mem_cons_of_mem _ hr),
          fun r hr => h.bound r (List.mem_cons_of_mem _ hr), (List.pairwise_cons.1 h.sorted).2⟩
      have hr := h.nonempty r List.mem_cons_self
      rw [List.dropWhile_cons]
      split
      · rename_i hend
        have hstart : ¬ i ≤ r.1.1 := by simp at hend; omega
        rw [ih hmore]
        simp [ahead, hstart]
      · rfl

/-- From below its first line on, a block is not ahead; other blocks are where they were. -/
theorem ahead_succ {i : Nat} {blocks : List (ResolvedBlock β)} (h : ∀ r ∈ blocks, r.1.1 ≠ i) :
    ahead (i + 1) blocks = ahead i blocks := by
  unfold ahead
  congr 1
  apply List.filter_congr
  intro r hr
  have hne := h r hr
  simp only [decide_eq_decide]
  omega

/-- What the first pass lays out at a line: the line, the block that begins there, or nothing,
inside a block. -/
theorem lineOrBlock_step {n i : Nat} {blocks : List (ResolvedBlock β)} (h : Ranges n blocks)
    (hdropped : blocks.dropWhile (fun r => decide (r.1.2 ≤ i)) = blocks) :
    (lineOrBlock blocks i = ([.line i] : List (FlatItem κ β)) ∧ inside i blocks = 0 ∧
      inside (i + 1) blocks = 0 ∧ ahead (i + 1) blocks = ahead i blocks) ∨
    (∃ b stop, lineOrBlock blocks i = ([.block b] : List (FlatItem κ β)) ∧ i < stop ∧ stop ≤ n ∧
      inside i blocks = 0 ∧ inside (i + 1) blocks = stop - (i + 1) ∧
      ahead i blocks = ((i, stop), b) :: ahead (i + 1) blocks) ∨
    (lineOrBlock blocks i = ([] : List (FlatItem κ β)) ∧
      inside i blocks = inside (i + 1) blocks + 1 ∧ ahead (i + 1) blocks = ahead i blocks) := by
  cases blocks with
  | nil => exact .inl ⟨rfl, rfl, rfl, rfl⟩
  | cons r more =>
      obtain ⟨⟨start, stop⟩, b⟩ := r
      have hopen : i < stop := by
        by_contra hclosed
        rw [List.dropWhile_cons_of_pos (by simpa using hclosed)] at hdropped
        have hlen := (List.dropWhile_sublist
          (fun r : ResolvedBlock β => decide (r.1.2 ≤ i)) (l := more)).length_le
        rw [hdropped] at hlen
        exact Nat.not_succ_le_self _ hlen
      have hstart : start < stop := h.nonempty _ List.mem_cons_self
      have hstop : stop ≤ n := h.bound _ List.mem_cons_self
      have hmore : ∀ r ∈ more, stop ≤ r.1.1 := (List.pairwise_cons.1 h.sorted).1
      have hinside : inside i ((((start, stop), b) : ResolvedBlock β) :: more) =
          if b.isSome ∧ start < i then stop - i else 0 := by
        simp [inside, Nat.not_le.2 hopen]
      -- below line `i` the block is still open, or the next one has not begun
      have hbelow : inside (i + 1) ((((start, stop), b) : ResolvedBlock β) :: more) =
          if b.isSome ∧ start < i + 1 then stop - (i + 1) else 0 := by
        by_cases hlast : stop ≤ i + 1
        · have hzero : inside (i + 1) more = 0 :=
            inside_eq_zero fun r hr => by have := hmore r hr; omega
          have hskip : inside (i + 1) ((((start, stop), b) : ResolvedBlock β) :: more) =
              inside (i + 1) more := by
            simp [inside, hlast]
          rw [hskip, hzero]
          split <;> omega
        · simp [inside, hlast]
      have hahead (hne : start ≠ i) : ahead (i + 1) ((((start, stop), b) : ResolvedBlock β) :: more) =
          ahead i ((((start, stop), b) : ResolvedBlock β) :: more) := by
        apply ahead_succ
        intro r hr
        rcases List.mem_cons.1 hr with rfl | hr
        · exact hne
        · have := hmore r hr
          omega
      have haheadMore : ahead (i + 1) more = ahead i more :=
        ahead_succ fun r hr => by have := hmore r hr; omega
      cases b with
      | none =>
          left
          refine ⟨rfl, ?_, ?_, ?_⟩
          · simp [hinside]
          · simp [hbelow]
          · have hskip (j : Nat) :
                ahead j ((((start, stop), none) : ResolvedBlock β) :: more) = ahead j more := by
              unfold ahead
              rw [List.filter_cons]
              split <;> rfl
            rw [hskip, hskip, haheadMore]
      | some b =>
          rcases Nat.lt_trichotomy start i with hlt | heq | hgt
          · right; right
            refine ⟨?_, ?_, hahead (by omega)⟩
            · simp [lineOrBlock, hlt.le, hopen, hlt.ne']
            · simp [hinside, hbelow, hlt, Nat.lt_succ_of_lt hlt]
              omega
          · subst heq
            right; left
            refine ⟨b, stop, ?_, hopen, hstop, ?_, ?_, ?_⟩
            · simp [lineOrBlock, hopen]
            · simp [hinside]
            · simp [hbelow]
            · have hmid : ahead (start + 1) ((((start, stop), some b) : ResolvedBlock β) :: more) =
                  ahead (start + 1) more := by
                simp [ahead]
              rw [hmid, haheadMore]
              simp [ahead]
          · left
            refine ⟨?_, ?_, ?_, hahead (by omega)⟩
            · simp [lineOrBlock, Nat.not_le.2 hgt]
            · simp [hinside, Nat.not_lt.2 hgt.le]
            · simp [hbelow]
              omega

/-- The first pass shows every line once and in order: from line `i` on, all but those in a
block that began above. -/
theorem textLoop_shown {n i k : Nat} {blocks : List (ResolvedBlock β)} (h : Ranges n blocks)
    (hk : i + k = n) :
    shown (textLoop blocks (List.range' i k) : List (FlatItem κ β))
      ((ahead i blocks).map Prod.fst) = List.range' (i + inside i blocks) (k - inside i blocks) := by
  induction k generalizing i blocks with
  | zero => simp [textLoop, shown]
  | succ k ih =>
      have hdrop := h.dropWhile fun r => decide (r.1.2 ≤ i)
      have hidem : (blocks.dropWhile fun r => decide (r.1.2 ≤ i)).dropWhile
          (fun r => decide (r.1.2 ≤ i)) = blocks.dropWhile fun r => decide (r.1.2 ≤ i) :=
        List.dropWhile_idempotent _ _
      have hinside : inside i (blocks.dropWhile fun r => decide (r.1.2 ≤ i)) = inside i blocks := by
        rw [inside, hidem, inside]
      rw [← ahead_dropWhile (i := i) h, ← hinside, List.range'_succ, textLoop]
      generalize blocks.dropWhile (fun r => decide (r.1.2 ≤ i)) = blocks at *
      have hih := ih (i := i + 1) hdrop (by omega)
      rcases lineOrBlock_step (κ := κ) hdrop hidem with ⟨hitem, hin, hnext, hahead⟩ |
        ⟨b, stop, hitem, hopen, hstop, hin, hnext, hahead⟩ | ⟨hitem, hin, hahead⟩
      · rw [hnext, hahead] at hih
        simp [hitem, hin, shown, hih, List.range'_succ]
      · rw [hnext] at hih
        simp only [hitem, hahead, hin, List.singleton_append, List.map_cons, shown, hih]
        have hsum : i + 1 + (stop - (i + 1)) = i + (stop - i) := by omega
        rw [hsum, List.range'_append_1]
        congr 1
        omega
      · rw [hahead] at hih
        simp only [hitem, List.nil_append, hih, hin]
        congr 1 <;> omega

theorem textLoop_blocks {n i k : Nat} {blocks : List (ResolvedBlock β)} (h : Ranges n blocks)
    (hk : i + k = n) :
    (textLoop blocks (List.range' i k) : List (FlatItem κ β)).filterMap block? =
      (ahead i blocks).map Prod.snd := by
  induction k generalizing i blocks with
  | zero =>
      have hnone : ahead i blocks = [] := by
        unfold ahead
        rw [List.filter_eq_nil_iff.2, List.filterMap_nil]
        intro r hr
        have hlt := h.nonempty r hr
        have hle := h.bound r hr
        simp
        omega
      rw [hnone]
      rfl
  | succ k ih =>
      have hdrop := h.dropWhile fun r => decide (r.1.2 ≤ i)
      have hidem : (blocks.dropWhile fun r => decide (r.1.2 ≤ i)).dropWhile
          (fun r => decide (r.1.2 ≤ i)) = blocks.dropWhile fun r => decide (r.1.2 ≤ i) :=
        List.dropWhile_idempotent _ _
      rw [← ahead_dropWhile (i := i) h, List.range'_succ, textLoop]
      generalize blocks.dropWhile (fun r => decide (r.1.2 ≤ i)) = blocks at *
      have hih := ih (i := i + 1) hdrop (by omega)
      rcases lineOrBlock_step (κ := κ) hdrop hidem with ⟨hitem, -, -, hahead⟩ |
        ⟨b, stop, hitem, -, -, -, -, hahead⟩ | ⟨hitem, -, hahead⟩
      · simp [hitem, List.filterMap_cons, block?, hih, hahead]
      · simp [hitem, block?, hih, hahead]
      · simp [hitem, hih, hahead]

/-! ### Blank lines -/

section
variable (t : TranscriptLines)

/-- Only blank lines are dropped. -/
theorem keeps_of_not_blank {protect : Option Nat} {before : Option (FlatItem κ β × Bool)}
    {item : FlatItem κ β} {behind : Option (FlatItem κ β)}
    (h : ¬ keeps t protect before item behind = true) : ∃ i, item = .line i ∧ t.isBlank i = true := by
  unfold keeps at h
  split at h
  · exact absurd rfl h
  · rename_i hblank
    cases item with
    | line i =>
        simp [isBlankLine] at hblank
        exact ⟨i, rfl, hblank.2⟩
    | _ => simp [isBlankLine] at hblank

variable (protect : Option Nat)

theorem collapseFrom_shown (before : Option (FlatItem κ β × Bool)) (items : List (FlatItem κ β))
    (ranges : List (Nat × Nat)) :
    (shown (collapseFrom t protect before items) ranges).Sublist (shown items ranges) ∧
      ∀ l ∈ shown items ranges, t.isBlank l = false →
        l ∈ shown (collapseFrom t protect before items) ranges := by
  induction items generalizing before ranges with
  | nil => simp [collapseFrom, shown]
  | cons item rest ih =>
      rw [collapseFrom]
      split
      · -- the item stays
        have hih := ih (some (item, true))
        cases item with
        | line i =>
            simp only [shown]
            constructor
            · exact (hih ranges).1.cons_cons i
            · intro l hl hblank
              rcases List.mem_cons.1 hl with rfl | hl
              · exact List.mem_cons_self
              · exact List.mem_cons_of_mem _ ((hih ranges).2 l hl hblank)
        | block b =>
            cases ranges with
            | nil => simpa only [shown] using hih []
            | cons r ranges =>
                simp only [shown]
                constructor
                · exact (List.Sublist.refl _).append (hih ranges).1
                · intro l hl hblank
                  rcases List.mem_append.1 hl with hl | hl
                  · exact List.mem_append_left _ hl
                  · exact List.mem_append_right _ ((hih ranges).2 l hl hblank)
        | _ => simpa only [shown] using hih ranges
      · rename_i hdropped
        obtain ⟨i, rfl, hi⟩ := keeps_of_not_blank t hdropped
        have hih := ih (some (.line i, false)) ranges
        simp only [shown]
        constructor
        · exact hih.1.cons i
        · intro l hl hblank
          rcases List.mem_cons.1 hl with rfl | hl
          · rw [hi] at hblank
            cases hblank
          · exact hih.2 l hl hblank

/-- Items other than lines are left as they are. -/
theorem collapseFrom_filter (p : FlatItem κ β → Bool) (hp : ∀ i, p (.line i) = false)
    (before : Option (FlatItem κ β × Bool)) (items : List (FlatItem κ β)) :
    (collapseFrom t protect before items).filter p = items.filter p := by
  induction items generalizing before with
  | nil => rfl
  | cons item rest ih =>
      rw [collapseFrom]
      split
      · simp [List.filter_cons, ih]
      · rename_i hdropped
        obtain ⟨i, rfl, -⟩ := keeps_of_not_blank t hdropped
        simp [ih, hp]

end

/-! ### Tool groups -/

theorem mergeStep_filter (p : FlatItem κ β → Bool) (hp : ∀ a ids, p (.toolGroup a ids) = false)
    (merged : List (FlatItem κ β)) (item : FlatItem κ β) :
    (mergeStep merged item).filter p = (item :: merged).filter p := by
  unfold mergeStep
  split
  · simp [hp]
  · rfl

theorem mergeGroups_filter (p : FlatItem κ β → Bool) (hp : ∀ a ids, p (.toolGroup a ids) = false)
    (items : List (FlatItem κ β)) : (mergeGroups items).filter p = items.filter p := by
  have hfold (merged : List (FlatItem κ β)) :
      (items.foldl mergeStep merged).filter p = items.reverse.filter p ++ merged.filter p := by
    induction items generalizing merged with
    | nil => simp
    | cons item rest ih =>
        rw [List.foldl_cons, ih, mergeStep_filter p hp, ← List.filter_append, ← List.filter_append]
        simp
  rw [mergeGroups, List.filter_reverse, hfold []]
  simp [← List.filter_reverse]

/-- The calls stay in their order. -/
theorem mergeGroups_toolIds (items : List (FlatItem κ β)) :
    (mergeGroups items).flatMap toolIds = items.flatMap toolIds := by
  have hstep (merged : List (FlatItem κ β)) (item : FlatItem κ β) :
      (mergeStep merged item).reverse.flatMap toolIds =
        merged.reverse.flatMap toolIds ++ toolIds item := by
    unfold mergeStep
    split
    · simp [toolIds]
    · simp
  have hfold (merged : List (FlatItem κ β)) :
      (items.foldl mergeStep merged).reverse.flatMap toolIds =
        merged.reverse.flatMap toolIds ++ items.flatMap toolIds := by
    induction items generalizing merged with
    | nil => simp
    | cons item rest ih =>
        rw [List.foldl_cons, ih, hstep, List.flatMap_cons, List.append_assoc]
  exact hfold []

/-- No two groups follow one another. -/
def GroupsApart (items : List (FlatItem κ β)) : Prop :=
  items.IsChain fun a b => ¬ (isGroup a = true ∧ isGroup b = true)

theorem groupsApart_reverse {items : List (FlatItem κ β)} (h : GroupsApart items) :
    GroupsApart items.reverse := by
  apply List.isChain_reverse.2
  exact h.imp fun a b hab hba => hab hba.symm

theorem mergeStep_apart {merged : List (FlatItem κ β)} (h : GroupsApart merged)
    (item : FlatItem κ β) : GroupsApart (mergeStep merged item) := by
  unfold mergeStep
  split
  · rename_i a ids b earlier more
    cases more with
    | nil => exact List.isChain_singleton _
    | cons next more =>
        have hpair := List.isChain_cons_cons.1 h
        exact List.isChain_cons_cons.2 ⟨fun hboth => hpair.1 ⟨rfl, hboth.2⟩, hpair.2⟩
  · rename_i hnot
    cases merged with
    | nil => exact List.isChain_singleton _
    | cons head more =>
        refine List.isChain_cons_cons.2 ⟨?_, h⟩
        rintro ⟨hitem, hhead⟩
        cases item <;> cases head <;> simp [isGroup] at hitem hhead
        exact hnot _ _ _ _ _ rfl rfl

theorem mergeGroups_apart (items : List (FlatItem κ β)) : GroupsApart (mergeGroups items) := by
  have hfold (merged : List (FlatItem κ β)) (h : GroupsApart merged) :
      GroupsApart (items.foldl mergeStep merged) := by
    induction items generalizing merged with
    | nil => exact h
    | cons item rest ih => exact ih _ (mergeStep_apart h item)
  exact groupsApart_reverse (hfold [] .nil)

/-! ### Headers -/

theorem dropHeaders_filter (p : FlatItem κ β → Bool) (hp : ∀ role, p (.turnHeader role) = false)
    (items : List (FlatItem κ β)) : (dropHeaders items).1.filter p = items.filter p := by
  induction items with
  | nil => rfl
  | cons item rest ih =>
      cases item with
      | turnHeader role =>
          simp only [dropHeaders, FlatItem.isHeader, if_true]
          split <;> simp [hp, ih]
      | _ => simp [dropHeaders, FlatItem.isHeader, List.filter_cons, ih]

/-- The list that is left begins with the content that was seen last, or with a header. -/
theorem dropHeaders_head (items : List (FlatItem κ β)) :
    ((dropHeaders items).2 = true → ∃ item, items.head? = some item ∧
      (dropHeaders items).1.head? = some item ∧ item.isHeader = false) ∧
    ((dropHeaders items).2 = false →
      ∀ item ∈ (dropHeaders items).1.head?, item.isHeader = true) := by
  induction items with
  | nil => simp [dropHeaders]
  | cons item rest ih =>
      cases hitem : item.isHeader with
      | false => simp [dropHeaders, hitem]
      | true =>
          cases hcontent : (dropHeaders rest).2 with
          | true => simp [dropHeaders, hitem, hcontent]
          | false => simpa [dropHeaders, hitem, hcontent] using ih

theorem not_isGroup_of_isHeader {item : FlatItem κ β} (h : item.isHeader = true) :
    isGroup item = false := by
  cases item <;> first | rfl | cases h

theorem dropHeaders_apart {items : List (FlatItem κ β)} (h : GroupsApart items) :
    GroupsApart (dropHeaders items).1 := by
  induction items with
  | nil => exact .nil
  | cons item rest ih =>
      obtain ⟨hhead, hrest⟩ := List.isChain_cons.1 h
      have hih := ih hrest
      cases hitem : item.isHeader with
      | true =>
          have hgroup := not_isGroup_of_isHeader hitem
          have hcons : GroupsApart (item :: (dropHeaders rest).1) :=
            List.isChain_cons.2 ⟨fun b _ hboth => by simp [hgroup] at hboth, hih⟩
          simp only [dropHeaders, hitem, if_true]
          split
          · exact hcons
          · exact hih
      | false =>
          simp only [dropHeaders, hitem]
          refine List.isChain_cons.2 ⟨fun b hb hboth => ?_, hih⟩
          have hkept := dropHeaders_head rest
          cases hcontent : (dropHeaders rest).2 with
          | true =>
              -- the neighbour is the one that it was
              obtain ⟨next, hnext, hfirst, -⟩ := hkept.1 hcontent
              rw [hfirst] at hb
              exact hhead b (hnext.trans hb) hboth
          | false =>
              have hgroup := not_isGroup_of_isHeader (hkept.2 hcontent b hb)
              simp [hgroup] at hboth

/-- Below every header there is content. -/
def HeadersFilled (items : List (FlatItem κ β)) : Prop :=
  ∀ p role, items[p]? = some (.turnHeader role) →
    ∃ item, items[p + 1]? = some item ∧ isContent item = true

theorem dropHeaders_filled {items : List (FlatItem κ β)} (h : ∀ item ∈ items, you? item = none) :
    HeadersFilled (dropHeaders items).1 := by
  induction items with
  | nil => simp [HeadersFilled, dropHeaders]
  | cons item rest ih =>
      have hrest : ∀ item ∈ rest, you? item = none := fun x hx => h x (List.mem_cons_of_mem _ hx)
      have hih := ih hrest
      cases hitem : item.isHeader with
      | false =>
          simp only [dropHeaders, hitem]
          intro p role hp
          cases p with
          | zero =>
              cases hp
              cases hitem
          | succ p => exact hih p role hp
      | true =>
          simp only [dropHeaders, hitem, if_true]
          split
          · rename_i hcontent
            intro p role hp
            cases p with
            | zero =>
                obtain ⟨next, hnext, hfirst, hheader⟩ := (dropHeaders_head rest).1 hcontent
                refine ⟨next, by simpa [List.head?_eq_getElem?] using hfirst, ?_⟩
                have hyou := hrest next (List.mem_of_mem_head? hnext)
                cases next <;> simp_all [isContent, you?, FlatItem.isHeader]
            | succ p => exact hih p role hp
          · exact hih

/-! ### You-blocks -/

/-- One insertion of the last pass. -/
def insertStep (items : List (FlatItem κ β)) (p : Nat × Option Nat) : List (FlatItem κ β) :=
  items.insertIdx (min p.1 items.length) (.youBlock p.2)

theorem insertYouBlocks_eq (t : TranscriptLines) (s : AgentSurface) (items : List (FlatItem κ β)) :
    insertYouBlocks t s items =
      if s.chatbox || s.turnPhase.isAwaiting then items
      else (inserts t s items).foldl insertStep items :=
  rfl

theorem insertIdx_filter {α : Type} (p : α → Bool) {x : α} (hp : p x = false) (l : List α)
    (i : Nat) : (l.insertIdx i x).filter p = l.filter p := by
  induction l generalizing i with
  | nil => cases i <;> simp [hp]
  | cons a l ih =>
      cases i with
      | zero => simp [hp]
      | succ i => simp [List.filter_cons, ih]

theorem insertSteps_filter (p : FlatItem κ β → Bool) (hp : ∀ parked, p (.youBlock parked) = false)
    (ps : List (Nat × Option Nat)) (items : List (FlatItem κ β)) :
    (ps.foldl insertStep items).filter p = items.filter p := by
  induction ps generalizing items with
  | nil => rfl
  | cons q ps ih => rw [List.foldl_cons, ih, insertStep, insertIdx_filter p (hp q.2)]

theorem insertIdx_apart {items : List (FlatItem κ β)} (h : GroupsApart items) (i : Nat)
    (parked : Option Nat) : GroupsApart (items.insertIdx i (.youBlock parked)) := by
  induction items generalizing i with
  | nil => cases i <;> simp [GroupsApart]
  | cons a items ih =>
      obtain ⟨hhead, hrest⟩ := List.isChain_cons.1 h
      cases i with
      | zero => exact List.isChain_cons.2 ⟨fun b _ hboth => by simp [isGroup] at hboth, h⟩
      | succ i =>
          refine List.isChain_cons.2 ⟨fun b hb hboth => ?_, ih hrest i⟩
          cases i with
          | zero =>
              cases hb
              simp [isGroup] at hboth
          | succ i =>
              cases items with
              | nil => cases hb
              | cons c items => exact hhead b hb hboth

theorem insertSteps_apart (ps : List (Nat × Option Nat)) {items : List (FlatItem κ β)}
    (h : GroupsApart items) : GroupsApart (ps.foldl insertStep items) := by
  induction ps generalizing items with
  | nil => exact h
  | cons q ps ih => exact ih (insertIdx_apart h _ q.2)

/-- A place that is not right below a header. -/
def Free (items : List (FlatItem κ β)) (pos : Nat) : Prop :=
  pos ≤ items.length ∧ ∀ p role, items[p]? = some (.turnHeader role) → p + 1 ≠ pos

theorem insertStep_filled {items : List (FlatItem κ β)} (h : HeadersFilled items)
    {q : Nat × Option Nat} (hq : Free items q.1) : HeadersFilled (insertStep items q) := by
  intro p role hp
  rw [insertStep, Nat.min_eq_left hq.1] at hp ⊢
  rcases Nat.lt_trichotomy p q.1 with hlt | heq | hgt
  · rw [List.getElem?_insertIdx_of_lt hlt] at hp
    have hne := hq.2 p role hp
    rw [List.getElem?_insertIdx_of_lt (by omega)]
    exact h p role hp
  · subst heq
    rw [List.getElem?_insertIdx_self, if_pos hq.1] at hp
    cases hp
  · rw [List.getElem?_insertIdx_of_gt hgt] at hp
    rw [List.getElem?_insertIdx_of_gt (by omega)]
    obtain ⟨item, hitem, hcontent⟩ := h (p - 1) role hp
    refine ⟨item, ?_, hcontent⟩
    rw [← hitem]
    congr 1
    omega

/-- The places above one where something is inserted stay free. -/
theorem Free.insertStep {items : List (FlatItem κ β)} {pos : Nat} {q : Nat × Option Nat}
    (h : Free items pos) (hq : Free items q.1) (hle : pos ≤ q.1) : Free (insertStep items q) pos := by
  rw [ViewModel.insertStep, Nat.min_eq_left hq.1]
  constructor
  · rw [List.length_insertIdx_of_le_length hq.1]
    have := h.1
    omega
  · intro p role hp heq
    rw [List.getElem?_insertIdx_of_lt (by omega)] at hp
    exact h.2 p role hp heq

theorem insertSteps_filled {ps : List (Nat × Option Nat)}
    (hps : ps.Pairwise fun a b => b.1 ≤ a.1) {items : List (FlatItem κ β)}
    (hfree : ∀ q ∈ ps, Free items q.1) (h : HeadersFilled items) :
    HeadersFilled (ps.foldl insertStep items) := by
  induction ps generalizing items with
  | nil => exact h
  | cons q ps ih =>
      obtain ⟨hle, hps⟩ := List.pairwise_cons.1 hps
      have hq := hfree q List.mem_cons_self
      exact ih hps (fun r hr => (hfree r (List.mem_cons_of_mem _ hr)).insertStep hq (hle r hr))
        (insertStep_filled h hq)

theorem slot_free {items : List (FlatItem κ β)} (h : HeadersFilled items) (anchor : Option Nat) :
    Free items (slot items anchor) := by
  have hend : Free items items.length := by
    refine ⟨le_refl _, fun p role hp heq => ?_⟩
    obtain ⟨item, hitem, -⟩ := h p role hp
    rw [heq, List.getElem?_eq_none (le_refl _)] at hitem
    cases hitem
  cases anchor with
  | none => exact hend
  | some a =>
      -- behind the line that is found, or at the end
      have hfound (o : Option Nat) (ho : ∀ pos, o = some pos → Free items pos) :
          Free items (o.getD items.length) := by
        cases o with
        | none => exact hend
        | some pos => exact ho pos rfl
      refine hfound _ fun pos hfind => ?_
      obtain ⟨⟨item, n⟩, hmem, hpos⟩ := List.exists_of_findSome?_eq_some hfind
      rw [List.mem_reverse, List.mem_zipIdx_iff_getElem?] at hmem
      cases item with
      | line i =>
          simp only [Option.ite_none_right_eq_some, Option.some.injEq] at hpos
          obtain ⟨-, rfl⟩ := hpos
          refine ⟨(List.getElem?_eq_some_iff.1 hmem).1, fun p role hp heq => ?_⟩
          cases heq
          rw [hp] at hmem
          cases hmem
      | _ => cases hpos

theorem inserts_free {t : TranscriptLines} {s : AgentSurface} {items : List (FlatItem κ β)}
    (h : HeadersFilled items) : ∀ q ∈ inserts t s items, Free items q.1 := by
  intro q hq
  rw [inserts, List.mem_insertionSort, List.mem_append] at hq
  rcases hq with hq | hq
  · split at hq
    · rw [List.mem_singleton.1 hq]
      exact slot_free h _
    · cases hq
  · obtain ⟨p, -, rfl⟩ := List.mem_map.1 hq
    exact slot_free h _

theorem inserts_sorted (t : TranscriptLines) (s : AgentSurface) (items : List (FlatItem κ β)) :
    (inserts t s items).Pairwise fun a b => b.1 ≤ a.1 := by
  have htotal : Std.Total fun a b : Nat × Option Nat => b.1 ≤ a.1 :=
    ⟨fun a b => le_total b.1 a.1⟩
  have htrans : IsTrans (Nat × Option Nat) fun a b => b.1 ≤ a.1 :=
    ⟨fun a b c hab hbc => le_trans hbc hab⟩
  exact List.pairwise_insertionSort _ _

/-- Each insertion adds its own block. -/
theorem insertSteps_you (ps : List (Nat × Option Nat)) (items : List (FlatItem κ β)) :
    ((ps.foldl insertStep items).filterMap you?).Perm
      (ps.map Prod.snd ++ items.filterMap you?) := by
  induction ps generalizing items with
  | nil => exact List.Perm.refl _
  | cons q ps ih =>
      rw [List.foldl_cons]
      have hstep : (insertStep items q).filterMap you? |>.Perm (q.2 :: items.filterMap you?) :=
        (List.perm_insertIdx _ _ (Nat.min_le_right _ _)).filterMap you?
      refine (ih _).trans ((hstep.append_left _).trans ?_)
      exact List.perm_middle

end ViewModel

end Yaldabaoth
