import Yaldabaoth.Proofs.Doc.Folds

/-!
# `Yaldabaoth.Proofs.Doc.Rekey`: folds follow their headings

`rekey_folds` gives each fold a heading of the new text, in line order:
the nearest one with its level and text that no fold has been given, or
else one of its level that stands on its old line. The second rule is
for a heading whose text was edited in place. It also finds a heading
that was elsewhere before, when the heading of the fold is gone.

`counted` gives headings out by the first rule alone. A fold to which it
gives none has lost its heading. As long as the second rule finds only
headings that are new, the two agree about all others (`Agree`).
-/

set_option autoImplicit false

namespace Yaldabaoth

namespace DocFolds

/-! ### Headings given to folds -/

section give

variable {choice : DocFolds → Nat → HeadingIdentity → Option DocHeading}

theorem contains_insert_iff {out : DocFolds} {k a : Nat} {identity : HeadingIdentity} :
    (out.insert k identity).contains a = true ↔ k = a ∨ out.contains a = true := by
  simp [Std.TreeMap.contains_insert]

theorem contains_give {out : DocFolds} {fold : Nat × HeadingIdentity} {k : Nat} :
    (give choice out fold).contains k = true ↔
      out.contains k = true ∨ ∃ h, choice out fold.1 fold.2 = some h ∧ h.line = k := by
  rw [give]
  cases hchoice : choice out fold.1 fold.2 with
  | none => simp
  | some h =>
      dsimp only
      rw [contains_insert_iff, or_comm]
      simp

theorem contains_foldl_give (folds : List (Nat × HeadingIdentity)) : ∀ {out : DocFolds} {k : Nat},
    out.contains k = true → (folds.foldl (give choice) out).contains k = true := by
  induction folds with
  | nil => exact id
  | cons fold rest ih =>
      intro out k h
      exact ih (contains_give.2 (.inl h))

/-- A line in the result was given to one of the folds. -/
theorem exists_given (folds : List (Nat × HeadingIdentity)) {k : Nat} :
    (folds.foldl (give choice) ∅).contains k = true →
      ∃ front fold back h, folds = front ++ fold :: back ∧
        choice (front.foldl (give choice) ∅) fold.1 fold.2 = some h ∧ h.line = k := by
  induction folds using List.reverseRecOn with
  | nil =>
      intro h
      simp at h
  | append_singleton front fold ih =>
      intro h
      rw [List.foldl_append, List.foldl_cons, List.foldl_nil, contains_give] at h
      rcases h with hbefore | ⟨h, hchoice, hline⟩
      · obtain ⟨front', fold', back, h, hsplit, hchoice, hline⟩ := ih hbefore
        exact ⟨front', fold', back ++ [fold], h, by simp [hsplit], hchoice, hline⟩
      · exact ⟨front, fold, [], h, rfl, hchoice, hline⟩

end give

variable (headings : List DocHeading)

/-- The headings given to the folds by level and text alone. -/
def counted (folds : List (Nat × HeadingIdentity)) : DocFolds :=
  folds.foldl (give (nearestIdentical headings)) ∅

def rekeyed (folds : List (Nat × HeadingIdentity)) : DocFolds :=
  folds.foldl (give (best headings)) ∅

/-- No heading with the level and the text of the fold is left for it. -/
def Gone (front : List (Nat × HeadingIdentity)) (fold : Nat × HeadingIdentity) : Prop :=
  nearestIdentical headings (counted headings front) fold.1 fold.2 = none

theorem counted_concat (front : List (Nat × HeadingIdentity)) (fold : Nat × HeadingIdentity) :
    counted headings (front ++ [fold]) =
      give (nearestIdentical headings) (counted headings front) fold := by
  rw [counted, List.foldl_append]
  rfl

theorem rekeyed_concat (front : List (Nat × HeadingIdentity)) (fold : Nat × HeadingIdentity) :
    rekeyed headings (front ++ [fold]) = give (best headings) (rekeyed headings front) fold := by
  rw [rekeyed, List.foldl_append]
  rfl

variable {headings}

theorem mem_free {out : DocFolds} {h : DocHeading} :
    h ∈ free headings out ↔ h ∈ headings ∧ out.contains h.line = false := by
  simp [free]

theorem nearestIdentical_some {out : DocFolds} {line : Nat} {identity : HeadingIdentity}
    {h : DocHeading} (hnearest : nearestIdentical headings out line identity = some h) :
    h ∈ headings ∧ out.contains h.line = false ∧ h.identity = identity := by
  have hmem := List.argmin_mem hnearest
  obtain ⟨hfree, hidentity⟩ := List.mem_filter.1 hmem
  obtain ⟨hheading, hfree⟩ := mem_free.1 hfree
  exact ⟨hheading, hfree, by simpa using hidentity⟩

theorem nearestIdentical_none {out : DocFolds} {line : Nat} {identity : HeadingIdentity} :
    nearestIdentical headings out line identity = none ↔
      ∀ h ∈ headings, h.identity = identity → out.contains h.line = true := by
  rw [nearestIdentical, List.argmin_eq_none, List.filter_eq_nil_iff]
  constructor
  · intro hall h hheading hidentity
    by_contra hnot
    exact hall h (mem_free.2 ⟨hheading, (Bool.not_eq_true _).mp hnot⟩) (by simpa using hidentity)
  · intro hall h hfree hidentity
    obtain ⟨hheading, hfree⟩ := mem_free.1 hfree
    rw [hall h hheading (by simpa using hidentity)] at hfree
    cases hfree

theorem onOldLine_some {out : DocFolds} {line : Nat} {identity : HeadingIdentity} {h : DocHeading}
    (hfound : onOldLine headings out line identity = some h) :
    h ∈ headings ∧ out.contains h.line = false ∧ h.line = line ∧ h.identity.1 = identity.1 := by
  obtain ⟨hheading, hfree⟩ := mem_free.1 (List.mem_of_find?_eq_some hfound)
  have hmatch := List.find?_some hfound
  simp only [Bool.and_eq_true, beq_iff_eq] at hmatch
  exact ⟨hheading, hfree, hmatch.1, hmatch.2⟩

theorem best_eq_none {out : DocFolds} {line : Nat} {identity : HeadingIdentity} :
    best headings out line identity = none ↔
      nearestIdentical headings out line identity = none ∧
        onOldLine headings out line identity = none := by
  rw [best, Option.or_eq_none_iff]

/-! ### Both rules, and the first alone -/

/-- About headings that were there before, the two say the same. -/
def Agree (headings : List DocHeading) (before : HeadingIdentity → Prop) (out out' : DocFolds) :
    Prop :=
  ∀ h ∈ headings, before h.identity → (out.contains h.line = true ↔ out'.contains h.line = true)

/-- Where a fold has lost its heading, the heading of its level that now
stands on its line, and is not given to another fold, is new. -/
def Spares (headings : List DocHeading) (before : HeadingIdentity → Prop)
    (folds : List (Nat × HeadingIdentity)) : Prop :=
  ∀ front fold back, folds = front ++ fold :: back → Gone headings front fold →
    ∀ h ∈ headings, h.line = fold.1 → h.identity.1 = fold.2.1 →
      (counted headings front).contains h.line = false → ¬ before h.identity

variable {before : HeadingIdentity → Prop}

theorem Agree.nearestIdentical {out out' : DocFolds} (h : Agree headings before out out')
    {identity : HeadingIdentity} (hbefore : before identity) (line : Nat) :
    nearestIdentical headings out line identity = nearestIdentical headings out' line identity := by
  rw [DocFolds.nearestIdentical, DocFolds.nearestIdentical, free, free, List.filter_filter,
    List.filter_filter]
  congr 1
  refine List.filter_congr fun heading hheading => ?_
  by_cases hidentity : heading.identity = identity
  · have hsame := h heading hheading (by rw [hidentity]; exact hbefore)
    rw [Bool.eq_iff_iff.2 hsame]
  · rw [beq_eq_false_iff_ne.2 hidentity]
    rfl

/-- One fold more. -/
theorem Agree.concat (hlines : (headings.map DocHeading.line).Nodup)
    {front : List (Nat × HeadingIdentity)} {fold : Nat × HeadingIdentity}
    (h : Agree headings before (rekeyed headings front) (counted headings front))
    (hbefore : before fold.2)
    (hspares : Gone headings front fold → ∀ heading ∈ headings, heading.line = fold.1 →
      heading.identity.1 = fold.2.1 → (counted headings front).contains heading.line = false →
        ¬ before heading.identity) :
    Agree headings before (rekeyed headings (front ++ [fold]))
      (counted headings (front ++ [fold])) := by
  intro g hg hgbefore
  rw [rekeyed_concat, counted_concat, contains_give, contains_give, h g hg hgbefore, best,
    h.nearestIdentical hbefore]
  cases hnearest : DocFolds.nearestIdentical headings (counted headings front) fold.1 fold.2 with
  | some found => rfl
  | none =>
      rw [Option.none_or]
      refine or_congr_right (iff_of_false ?_ (by simp))
      -- the second rule finds a new heading, which is not `g`
      rintro ⟨found, hfound, hline⟩
      obtain ⟨hheading, hfree, hold, hlevel⟩ := onOldLine_some hfound
      obtain rfl := List.inj_on_of_nodup_map hlines hheading hg hline
      refine hspares hnearest found hheading hold hlevel ?_ hgbefore
      rw [← Bool.not_eq_true, ← h found hheading hgbefore, Bool.not_eq_true]
      exact hfree

theorem agree_of_spares (hlines : (headings.map DocHeading.line).Nodup)
    (folds : List (Nat × HeadingIdentity)) (hbefore : ∀ fold ∈ folds, before fold.2) :
    Spares headings before folds →
      Agree headings before (rekeyed headings folds) (counted headings folds) := by
  induction folds using List.reverseRecOn with
  | nil =>
      intro _ h _ _
      rfl
  | append_singleton front fold ih =>
      intro hspares
      have hfront : Spares headings before front := by
        intro front' fold' back hsplit
        exact hspares front' fold' (back ++ [fold]) (by simp [hsplit])
      refine Agree.concat hlines (ih (fun f hf => hbefore f (by simp [hf])) hfront)
        (hbefore fold (by simp)) ?_
      exact hspares front fold [] rfl

/-- What folds do not do: a fold that has lost its heading is given none
that was there before. -/
def Drops (headings : List DocHeading) (before : HeadingIdentity → Prop)
    (folds : List (Nat × HeadingIdentity)) : Prop :=
  ∀ front fold back, folds = front ++ fold :: back → Gone headings front fold →
    ∀ h ∈ headings, h.line = fold.1 → before h.identity →
      best headings (rekeyed headings front) fold.1 fold.2 = none

theorem drops_of_spares (hlines : (headings.map DocHeading.line).Nodup)
    {folds : List (Nat × HeadingIdentity)} (hbefore : ∀ fold ∈ folds, before fold.2)
    (hspares : Spares headings before folds) : Drops headings before folds := by
  intro front fold back hsplit hgone h hheading hline hhbefore
  subst hsplit
  have hfront : Spares headings before front := by
    intro front' fold' back' hsplit
    exact hspares front' fold' (back' ++ fold :: back) (by simp [hsplit])
  have hagree := agree_of_spares hlines front (fun f hf => hbefore f (by simp [hf])) hfront
  refine best_eq_none.2 ⟨?_, ?_⟩
  · rw [hagree.nearestIdentical (hbefore fold (by simp))]
    exact hgone
  · cases hfound : onOldLine headings (rekeyed headings front) fold.1 fold.2 with
    | none => rfl
    | some found =>
        obtain ⟨hfoundHeading, hfree, hold, hlevel⟩ := onOldLine_some hfound
        obtain rfl := List.inj_on_of_nodup_map hlines hfoundHeading hheading (hold.trans hline.symm)
        refine absurd hhbefore (hspares front fold back rfl hgone found hheading hold hlevel ?_)
        rw [← Bool.not_eq_true, ← hagree found hheading hhbefore, Bool.not_eq_true]
        exact hfree

theorem spares_of_drops (hlines : (headings.map DocHeading.line).Nodup)
    {folds : List (Nat × HeadingIdentity)} (hbefore : ∀ fold ∈ folds, before fold.2) :
    Drops headings before folds → Spares headings before folds := by
  induction folds using List.reverseRecOn with
  | nil =>
      intro _ front fold back hsplit
      simp at hsplit
  | append_singleton folds last ih =>
      intro hdrops
      have hbefore' : ∀ fold ∈ folds, before fold.2 := fun f hf => hbefore f (by simp [hf])
      have hfront := ih hbefore' fun front' fold' back hsplit =>
        hdrops front' fold' (back ++ [last]) (by simp [hsplit])
      intro front fold back hsplit hgone h hheading hline hlevel hfree hhbefore
      rcases List.eq_nil_or_concat back with rfl | ⟨back', x, rfl⟩
      · -- the last fold: the second rule would find the heading
        obtain ⟨rfl, hlast⟩ := List.append_inj' hsplit rfl
        obtain rfl : last = fold := List.singleton_inj.1 hlast
        have hagree := agree_of_spares hlines folds hbefore' hfront
        have hnone := hdrops folds last [] rfl hgone h hheading hline hhbefore
        have hnotFound := List.find?_eq_none.1 (best_eq_none.1 hnone).2 h
          (mem_free.2 ⟨hheading, by
            rw [← Bool.not_eq_true, hagree h hheading hhbefore, Bool.not_eq_true]
            exact hfree⟩)
        simp [hline, hlevel] at hnotFound
      · have hsplit' : folds ++ [last] = (front ++ fold :: back') ++ [x] := by simpa using hsplit
        obtain ⟨rfl, -⟩ := List.append_inj' hsplit' rfl
        exact hfront front fold back' rfl hgone h hheading hline hlevel hfree hhbefore

end DocFolds

namespace DocState

/-! ### Folds of headings -/

/-- The fold keys increase from block to block. -/
def Increasing (r : Rendered) : Prop :=
  ((List.range r.blocks.length).map (viewing r).foldKey).Pairwise (· < ·)

instance (r : Rendered) : Decidable (Increasing r) := inferInstanceAs (Decidable (List.Pairwise ..))

theorem lines_nodup {r : Rendered} (h : Increasing r) :
    ((viewing r).headings.map DocHeading.line).Nodup := by
  rw [List.Nodup, List.pairwise_map, headings, List.pairwise_filterMap]
  rw [Increasing, List.pairwise_map] at h
  refine h.imp fun {i j} hlt g hg g' hg' => ?_
  obtain ⟨_, -, rfl⟩ := Option.map_eq_some_iff.1 hg
  obtain ⟨_, -, rfl⟩ := Option.map_eq_some_iff.1 hg'
  exact Nat.ne_of_lt hlt

theorem headings_congr {d d' : DocState} (hblocks : d.blocks = d'.blocks)
    (hspans : d.spans = d'.spans) : d.headings = d'.headings := by
  have hkey : d.foldKey = d'.foldKey := by
    funext i
    rw [foldKey, foldKey, hspans]
  have hidentity : d.headingIdentity = d'.headingIdentity := by
    funext i
    rw [headingIdentity, headingIdentity, hblocks]
  rw [headings, headings, hblocks, hkey, hidentity]

theorem mem_headings {d : DocState} {i : Nat} {identity : HeadingIdentity}
    (h : d.headingIdentity i = some identity) : ⟨d.foldKey i, identity⟩ ∈ d.headings := by
  have hi : i < d.blocks.length := by
    by_contra hnot
    rw [headingIdentity, List.getElem?_eq_none (by omega)] at h
    cases h
  refine List.mem_filterMap.2 ⟨i, List.mem_range.2 hi, ?_⟩
  rw [h]
  rfl

/-- Every fold is that of a heading, and has its level and text. -/
def FoldsOf (d : DocState) : Prop :=
  ∀ (k : Nat) (identity : HeadingIdentity), d.folds[k]? = some identity →
    ⟨k, identity⟩ ∈ d.headings

/-- What is true along a run of folding commands. -/
structure Folding (d : DocState) : Prop where
  inSync : d.InSync
  folds : d.FoldsOf

theorem FoldsOf.insert {d : DocState} {folds : DocFolds} {i : Nat} {identity : HeadingIdentity}
    (h : ∀ (k : Nat) (identity : HeadingIdentity), folds[k]? = some identity →
      ⟨k, identity⟩ ∈ d.headings)
    (hi : d.headingIdentity i = some identity) (k : Nat) (identity' : HeadingIdentity)
    (hk : (folds.insert (d.foldKey i) identity)[k]? = some identity') :
    ⟨k, identity'⟩ ∈ d.headings := by
  rw [Std.TreeMap.getElem?_insert] at hk
  split at hk
  · next heq =>
    obtain rfl := Option.some.inj hk
    obtain rfl := compare_eq_iff_eq.1 heq
    exact mem_headings hi
  · exact h k identity' hk

theorem Folding.refold {d : DocState} (h : d.FoldsOf) : Folding d.refold :=
  ⟨d.refold_inSync, h⟩

theorem Folding.toggleFoldAtCursor {d : DocState} (h : Folding d) :
    Folding d.toggleFoldAtCursor.2 := by
  rw [DocState.toggleFoldAtCursor]
  split
  · exact h
  · split
    · refine Folding.refold fun k identity hk => h.folds k identity ?_
      rw [Std.TreeMap.getElem?_erase] at hk
      split at hk
      · cases hk
      · exact hk
    · split
      · exact h
      · split
        · exact h
        · next hidentity => exact Folding.refold (FoldsOf.insert h.folds hidentity)

theorem Folding.foldAll {d : DocState} (h : Folding d) : Folding d.foldAll.2 := by
  refine Folding.refold ?_
  show ∀ (k : Nat) (identity : HeadingIdentity),
    (d.foldable.foldl d.addFold d.folds)[k]? = some identity → ⟨k, identity⟩ ∈ d.headings
  have hfolds := h.folds
  rw [FoldsOf] at hfolds
  generalize d.folds = folds at hfolds
  induction d.foldable generalizing folds with
  | nil => exact hfolds
  | cons i rest ih =>
      refine ih _ ?_
      rw [addFold]
      cases hidentity : d.headingIdentity i with
      | none => exact hfolds
      | some identity => exact FoldsOf.insert hfolds hidentity

theorem Folding.moveCursorTo {d : DocState} (h : Folding d) (target : Nat) :
    Folding (d.moveCursorTo target).2 := by
  rw [DocState.moveCursorTo]
  split
  · exact h
  · have hrevealed := revealFold_revealed h.inSync (min target (d.blocks.length - 1))
    refine ⟨hrevealed.inSync, fun k identity hk => ?_⟩
    have hheadings := headings_congr hrevealed.blocks hrevealed.spans
    show _ ∈ (d.revealFold (min target (d.blocks.length - 1))).headings
    rw [hheadings]
    exact h.folds k identity (hrevealed.kept k identity hk)

/-- The commands that leave the text as it is. -/
def FoldCommand.folding : FoldCommand → Bool
  | .setBlocks _ => false
  | _ => true

theorem folding_of_reaches {d : DocState}
    (h : machine.Reaches (fun _ command => command.folding = true) d) : Folding d := by
  refine h.invariant ?_ ?_
  · rintro _ ⟨r, rfl⟩
    refine Folding.refold fun k identity hk => ?_
    simp at hk
  · intro d command d' hd hfolding hstep
    obtain rfl := Option.some.inj hstep
    cases command with
    | toggleFoldAtCursor => exact hd.toggleFoldAtCursor
    | foldAll => exact hd.foldAll
    | unfoldAll =>
        refine Folding.refold fun k identity hk => ?_
        simp at hk
    | setBlocks r => cases hfolding
    | moveCursorTo target => exact hd.moveCursorTo target

/-! ### Folds across a new text -/

open DocFolds

/-- The heading is the only one with its level and text. -/
def IsOnly (headings : List DocHeading) (identity : HeadingIdentity) (line : Nat) : Prop :=
  headings.filter (fun h => h.identity == identity) = [⟨line, identity⟩]

/-- A heading with the level and the text was there before. -/
def Existed (d : DocState) (identity : HeadingIdentity) : Prop :=
  ∃ g ∈ d.headings, g.identity = identity

/-- Folds stay with their headings in the new text, and one that has lost
its heading is given none that was there before. Of several headings
that are alike as many are lost as there are fewer of them now, the
first folds are given those that are left. -/
structure FoldsFollow (d : DocState) (new : Rendered) : Prop where
  kept : ∀ identity a b, IsOnly d.headings identity a → IsOnly (viewing new).headings identity b →
    ((d.setBlocks new).folds.contains b = true ↔ d.folds.contains a = true)
  vanished : ∀ front fold back, d.folds.toList = front ++ fold :: back →
    (∀ h ∈ (viewing new).headings, h.identity ≠ fold.2) →
      ∀ h ∈ (viewing new).headings, h.line = fold.1 → d.Existed h.identity →
        best (viewing new).headings (rekeyed (viewing new).headings front) fold.1 fold.2 = none
  lost : Drops (viewing new).headings d.Existed d.folds.toList

/-- A fold that has lost its heading finds, of the headings that were
there before, none of its level on its old line, or none that another
fold is not given. -/
def SparesHeadings (d : DocState) (new : Rendered) : Prop :=
  Spares (viewing new).headings d.Existed d.folds.toList

theorem setBlocks_folds (d : DocState) (new : Rendered) (k : Nat) :
    (d.setBlocks new).folds.contains k =
      (rekeyed (viewing new).headings d.folds.toList).contains k := by
  show (if d.folds.isEmpty then d.folds
    else rekeyed (viewing new).headings d.folds.toList).contains k = _
  cases hempty : d.folds.isEmpty with
  | false => rfl
  | true =>
      have hlist : d.folds.toList = [] := by
        rw [← List.isEmpty_iff, Std.TreeMap.isEmpty_toList]
        exact hempty
      rw [if_pos rfl, hlist, Std.TreeMap.contains_of_isEmpty hempty]
      rfl

section rekey

variable {d : DocState} {new : Rendered}

theorem Folding.existed (h : Folding d) : ∀ fold ∈ d.folds.toList, d.Existed fold.2 := by
  intro fold hfold
  exact ⟨_, h.folds fold.1 fold.2 (Std.TreeMap.mem_toList_iff_getElem?_eq_some.1 hfold), rfl⟩

/-- The only heading of its kind in the new text is folded again. -/
theorem kept_folded {identity : HeadingIdentity} {a b : Nat}
    (honly : IsOnly (viewing new).headings identity b) (ha : d.folds[a]? = some identity) :
    (rekeyed (viewing new).headings d.folds.toList).contains b = true := by
  have hmem : (a, identity) ∈ d.folds.toList := Std.TreeMap.mem_toList_iff_getElem?_eq_some.2 ha
  obtain ⟨front, back, hsplit⟩ := List.append_of_mem hmem
  have hheading : (⟨b, identity⟩ : DocHeading) ∈ (viewing new).headings := by
    refine List.mem_of_mem_filter (p := fun h => h.identity == identity) ?_
    rw [honly]
    exact List.mem_singleton.2 rfl
  rw [hsplit, rekeyed, List.foldl_append, List.foldl_cons]
  refine contains_foldl_give back (contains_give.2 ?_)
  cases hbefore : (rekeyed (viewing new).headings front).contains b with
  | true => exact .inl hbefore
  | false =>
      -- it is still free when its fold is looked at
      refine .inr ?_
      cases hnearest : nearestIdentical (viewing new).headings
          (rekeyed (viewing new).headings front) a identity with
      | none =>
          have htaken := nearestIdentical_none.1 hnearest _ hheading rfl
          dsimp only at htaken
          rw [hbefore] at htaken
          cases htaken
      | some h =>
          obtain ⟨hh, -, hidentity⟩ := nearestIdentical_some hnearest
          have hsame : h ∈ (viewing new).headings.filter fun h => h.identity == identity :=
            List.mem_filter.2 ⟨hh, by simpa using hidentity⟩
          rw [honly] at hsame
          refine ⟨h, ?_, by rw [List.mem_singleton.1 hsame]⟩
          show best _ (rekeyed (viewing new).headings front) a identity = some h
          rw [best, hnearest]
          rfl

/-- A heading that is the only one of its kind in both texts was folded
before. -/
theorem folded_before (hfolding : Folding d)
    (hlines : ((viewing new).headings.map DocHeading.line).Nodup)
    (hspares : d.SparesHeadings new) {identity : HeadingIdentity} {a b : Nat}
    (hold : IsOnly d.headings identity a) (hnew : IsOnly (viewing new).headings identity b)
    (hb : (rekeyed (viewing new).headings d.folds.toList).contains b = true) :
    d.folds.contains a = true := by
  obtain ⟨front, fold, back, h, hsplit, hbest, hat⟩ := exists_given _ hb
  have hmem : fold ∈ d.folds.toList := by simp [hsplit]
  have hget := Std.TreeMap.mem_toList_iff_getElem?_eq_some.1 hmem
  have hheading : (⟨b, identity⟩ : DocHeading) ∈ (viewing new).headings := by
    refine List.mem_of_mem_filter (p := fun h => h.identity == identity) ?_
    rw [hnew]
    exact List.mem_singleton.2 rfl
  rcases Option.or_eq_some_iff.1 hbest with hnearest | ⟨hnone, hfound⟩
  · -- the fold is that of the heading
    obtain ⟨hh, -, hidentity⟩ := nearestIdentical_some hnearest
    obtain rfl := List.inj_on_of_nodup_map hlines hh hheading hat
    have hsame : (⟨fold.1, fold.2⟩ : DocHeading) ∈
        d.headings.filter fun h => h.identity == identity :=
      List.mem_filter.2 ⟨hfolding.folds _ _ hget, by simpa using hidentity.symm⟩
    rw [hold] at hsame
    have hline : fold.1 = a := congrArg DocHeading.line (List.mem_singleton.1 hsame)
    rw [← hline, Std.TreeMap.contains_eq_isSome_getElem?, hget]
    rfl
  · -- the second rule does not find a heading that was there before
    obtain ⟨hh, hfree, hline, hlevel⟩ := onOldLine_some hfound
    obtain rfl := List.inj_on_of_nodup_map hlines hh hheading hat
    have hexisted := hfolding.existed
    have hfront : Spares (viewing new).headings d.Existed front := by
      intro front' fold' back' hsplit'
      exact hspares front' fold' (back' ++ fold :: back) (by simp [hsplit, hsplit'])
    have hagree := agree_of_spares hlines front
      (fun f hf => hexisted f (by simp [hsplit, hf])) hfront
    have hidentityBefore : d.Existed identity := by
      refine ⟨⟨a, identity⟩, List.mem_of_mem_filter (p := fun h => h.identity == identity) ?_, rfl⟩
      rw [hold]
      exact List.mem_singleton.2 rfl
    refine absurd hidentityBefore
      (hspares front fold back hsplit ?_ ⟨b, identity⟩ hh hline hlevel ?_)
    · rw [Gone, ← hagree.nearestIdentical (hexisted fold hmem)]
      exact hnone
    · rw [← Bool.not_eq_true, ← hagree _ hh hidentityBefore, Bool.not_eq_true]
      exact hfree

theorem gone_of_vanished {headings : List DocHeading} {front : List (Nat × HeadingIdentity)}
    {fold : Nat × HeadingIdentity} (h : ∀ g ∈ headings, g.identity ≠ fold.2) :
    Gone headings front fold :=
  nearestIdentical_none.2 fun g hg heq => absurd heq (h g hg)

/-- Folds follow their headings exactly when no fold finds, on its old
line, a heading that was somewhere else before. -/
theorem folds_follow_iff (hd : machine.Reaches (fun _ command => command.folding = true) d)
    (hold : Increasing ⟨d.blocks, d.spans⟩) (hnew : Increasing new) :
    FoldsFollow d new ↔ d.SparesHeadings new := by
  have hfolding := folding_of_reaches hd
  have hlines := lines_nodup hnew
  constructor
  · intro hfollow
    exact spares_of_drops hlines hfolding.existed hfollow.lost
  · intro hspares
    have hdrops := drops_of_spares hlines hfolding.existed hspares
    refine ⟨fun identity a b honly honly' => ?_, fun front fold back hsplit hvanished => ?_, hdrops⟩
    · rw [setBlocks_folds]
      constructor
      · exact folded_before hfolding hlines hspares honly honly'
      · intro ha
        rw [Std.TreeMap.contains_eq_isSome_getElem?] at ha
        obtain ⟨identity', ha⟩ := Option.isSome_iff_exists.1 ha
        -- on the line of the fold there is one heading
        have hheading := hfolding.folds a identity' ha
        have hheading' : (⟨a, identity⟩ : DocHeading) ∈ d.headings := by
          refine List.mem_of_mem_filter (p := fun h => h.identity == identity) ?_
          rw [honly]
          exact List.mem_singleton.2 rfl
        have hsame := List.inj_on_of_nodup_map (lines_nodup hold) hheading hheading' rfl
        obtain rfl : identity' = identity := congrArg DocHeading.identity hsame
        exact kept_folded honly' ha
    · exact hdrops front fold back hsplit (gone_of_vanished hvanished)

end rekey

instance (headings : List DocHeading) (identity : HeadingIdentity) (line : Nat) :
    Decidable (IsOnly headings identity line) :=
  inferInstanceAs (Decidable (_ = _))

/-- `## A` with its paragraph is deleted, and `## B` comes to its line. -/
theorem folds_follow_iff_sample :
    ∃ d, machine.run
        (viewing ⟨[.heading 2 "A", .other, .heading 2 "B", .other], [⟨0⟩, ⟨2⟩, ⟨4⟩, ⟨6⟩]⟩)
        [.moveCursorTo 2, .toggleFoldAtCursor] = some d ∧
      (FoldsFollow d ⟨[.heading 2 "B", .other], [⟨0⟩, ⟨2⟩]⟩ ↔
        d.SparesHeadings ⟨[.heading 2 "B", .other], [⟨0⟩, ⟨2⟩]⟩) := by
  refine ⟨_, rfl, folds_follow_iff (.step (.step (.start ⟨_, rfl⟩) rfl rfl) rfl rfl) ?_ ?_⟩
  · decide
  · decide

/-- The same, but it is `## A` that was folded: now `## B` is. -/
theorem fold_taken_over : ¬ ∀ d new,
    machine.Reaches (fun _ command => command.folding = true) d →
      Increasing ⟨d.blocks, d.spans⟩ → Increasing new → FoldsFollow d new := by
  intro hall
  have hfollow := hall
    ((viewing ⟨[.heading 2 "A", .other, .heading 2 "B", .other], [⟨0⟩, ⟨2⟩, ⟨4⟩, ⟨6⟩]⟩).perform
      .toggleFoldAtCursor)
    ⟨[.heading 2 "B", .other], [⟨0⟩, ⟨2⟩]⟩ (.step (.start ⟨_, rfl⟩) rfl rfl) (by decide)
    (by decide)
  have hkept := hfollow.kept (2, "B") 4 0 (by decide) (by decide)
  exact absurd hkept (by decide)

end DocState

end Yaldabaoth
