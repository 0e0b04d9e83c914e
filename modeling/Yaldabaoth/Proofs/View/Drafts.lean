import Mathlib.Data.List.Pairwise
import Yaldabaoth.Proofs.View.Freezing

/-!
# `Yaldabaoth.Proofs.View.Drafts`: reply drafts over whole runs

No opening loses a draft, and an opening never makes two blocks adjacent.
What settles the focus can: it moves the open draft to the end of the
transcript without looking at the drafts put aside.
-/

set_option autoImplicit false

namespace Yaldabaoth

namespace TranscriptLines

variable (t : TranscriptLines)

theorem youBlocksWouldBeAdjacent_comm (a b : Option Nat) :
    t.youBlocksWouldBeAdjacent a b = t.youBlocksWouldBeAdjacent b a := by
  simp only [youBlocksWouldBeAdjacent]
  rw [Nat.min_comm, Nat.max_comm]

theorem youBlocksWouldBeAdjacent_of_line {a b : Option Nat}
    (h : t.youBlockEffectiveLine a = t.youBlockEffectiveLine b) :
    t.youBlocksWouldBeAdjacent a b = true := by
  simp [youBlocksWouldBeAdjacent, h]

end TranscriptLines

namespace ReplyDrafts

/-- The blocks that are shown, the open one last. -/
def blocks (s : ReplyDrafts) : List YouBlock :=
  s.parkedYouBlocks ++ if s.youBlockOpen then [(s.youBlockAnchor, s.compose)] else []

/-- The drafts that hold text. -/
def drafts (s : ReplyDrafts) : List (List Char) :=
  (s.parkedYouBlocks.map Prod.snd ++ [s.compose]).filter fun text => !isBlankText text

/-- Two blocks with text between their anchors. -/
def Separate (t : TranscriptLines) (a b : YouBlock) : Prop :=
  t.youBlocksWouldBeAdjacent a.1 b.1 = false

theorem Separate.symm {t : TranscriptLines} {a b : YouBlock} (h : Separate t a b) :
    Separate t b a := by
  rw [Separate, t.youBlocksWouldBeAdjacent_comm]
  exact h

/-- No two blocks have only blank lines between their anchors. -/
def Apart (s : ReplyDrafts) : Prop := s.blocks.Pairwise (Separate s.transcript)

/-- What holds of the blocks in every run. -/
structure Kept (s : ReplyDrafts) : Prop where
  worksheet : s.mode = .worksheet
  caret : s.cursorLine < s.transcript.lineCount
  /-- A closed tile has no draft. -/
  closed : s.youBlockOpen = false → s.parkedYouBlocks = [] ∧ isBlankText s.compose = true
  filled : ∀ p ∈ s.parkedYouBlocks, isBlankText p.2 = false

/-! ### What an opening does -/

variable {s : ReplyDrafts}

/-- A block put aside becomes the open one. -/
def resume (s : ReplyDrafts) (i : Nat) (parked : YouBlock) : ReplyDrafts :=
  { s with
    parkedYouBlocks := s.stash.eraseIdx i
    mode := .worksheet
    compose := parked.2
    youBlockOpen := true
    youBlockAnchor := parked.1 }

/-- The open block is put aside for a new one. -/
def openNew (s : ReplyDrafts) (anchor : Nat) : ReplyDrafts :=
  { s with
    parkedYouBlocks := s.stash
    mode := .worksheet
    compose := []
    youBlockOpen := true
    youBlockAnchor := some anchor }

/-- The arms of an opening. -/
theorem openAt_cases (h : s.Kept) (target : Option Nat) :
    s.openAt target = s ∨
    (s.youBlockOpen = true ∧ ∃ i parked, s.parkedYouBlocks[i]? = some parked ∧
      s.openAt target = s.resume i parked) ∨
    (s.youBlockOpen = false ∧ s.openAt target =
      { s with youBlockOpen := true, youBlockAnchor := target }) ∨
    (s.youBlockOpen = true ∧ ∃ anchor, target = some anchor ∧
      (∀ b ∈ s.blocks, Separate s.transcript b (some anchor, [])) ∧
      s.openAt target = s.openNew anchor) := by
  unfold openAt
  split
  · exact .inl rfl
  · rename_i hactive
    split
    · rename_i i hfind
      obtain ⟨hlt, -⟩ := List.findIdx?_eq_some_iff_getElem.1 hfind
      have hget : s.parkedYouBlocks[i]? = some s.parkedYouBlocks[i] := List.getElem?_eq_getElem hlt
      have hopen : s.youBlockOpen = true := by
        by_contra hclosed
        have hnone := (h.closed (by simpa using hclosed)).1
        rw [hnone] at hlt
        simp at hlt
      rw [hget]
      exact .inr (.inl ⟨hopen, i, _, hget, rfl⟩)
    · rename_i hnone
      rw [List.findIdx?_eq_none_iff] at hnone
      cases hopen : s.youBlockOpen with
      | false =>
          have hparked := (h.closed hopen).1
          right; right; left
          refine ⟨rfl, ?_⟩
          cases target <;> simp [hparked]
      | true =>
          rw [hopen] at hactive
          cases target with
          | none => exact .inl rfl
          | some anchor =>
              right; right; right
              refine ⟨rfl, anchor, rfl, ?_, by simp [openNew]⟩
              intro b hb
              rw [blocks, hopen, if_pos rfl, List.mem_append, List.mem_singleton] at hb
              rcases hb with hb | rfl
              · exact hnone b hb
              · simpa [Separate] using hactive

/-- The open draft and those put aside, without it if it is blank. -/
theorem stash_sublist (hopen : s.youBlockOpen = true) : s.stash.Sublist s.blocks := by
  rw [stash, blocks, hopen, if_pos rfl]
  split
  · exact List.Sublist.refl _
  · exact List.sublist_append_left _ _

theorem stash_filled (h : s.Kept) : ∀ p ∈ s.stash, isBlankText p.2 = false := by
  intro p hp
  rw [stash] at hp
  split at hp
  · rename_i hactive
    rcases List.mem_append.1 hp with hp | hp
    · exact h.filled p hp
    · rw [List.mem_singleton.1 hp]
      simpa using (Bool.and_eq_true_iff.1 hactive).2
  · exact h.filled p hp

theorem stash_getElem? {i : Nat} {parked : YouBlock} (h : s.parkedYouBlocks[i]? = some parked) :
    s.stash[i]? = some parked := by
  rw [stash]
  split
  · rw [List.getElem?_append_left (List.getElem?_eq_some_iff.1 h).1]
    exact h
  · exact h

/-- The texts put aside are the drafts of the tile. -/
theorem stash_texts (h : s.Kept) (hopen : s.youBlockOpen = true) :
    s.stash.map Prod.snd = s.drafts := by
  have hparked : (s.parkedYouBlocks.map Prod.snd).filter (fun text => !isBlankText text) =
      s.parkedYouBlocks.map Prod.snd := by
    rw [List.filter_eq_self]
    intro text htext
    obtain ⟨p, hp, rfl⟩ := List.mem_map.1 htext
    simp [h.filled p hp]
  rw [drafts, List.filter_append, hparked, stash, hopen]
  cases hblank : isBlankText s.compose <;> simp [hblank]

theorem perm_eraseIdx {α : Type} {l : List α} {i : Nat} {a : α} (h : l[i]? = some a) :
    (l.eraseIdx i ++ [a]).Perm l := by
  obtain ⟨hlt, rfl⟩ := List.getElem?_eq_some_iff.1 h
  exact (List.perm_append_singleton _ _).trans (List.getElem_cons_eraseIdx_perm hlt)

/-- An opening keeps the drafts. -/
theorem openAt_drafts (h : s.Kept) (target : Option Nat) : (s.openAt target).drafts.Perm s.drafts := by
  rcases openAt_cases h target with heq | ⟨hopen, i, parked, hget, heq⟩ | ⟨-, heq⟩ |
    ⟨hopen, anchor, -, -, heq⟩
  · rw [heq]
  · rw [heq, ← stash_texts h hopen]
    have hperm := (perm_eraseIdx (stash_getElem? hget)).map Prod.snd
    rw [List.map_append, List.map_singleton] at hperm
    have hall : (s.stash.map Prod.snd).filter (fun text => !isBlankText text) =
        s.stash.map Prod.snd := by
      rw [stash_texts h hopen, drafts, List.filter_filter]
      simp
    rw [← hall]
    exact hperm.filter _
  · rw [heq]
    exact List.Perm.refl _
  · rw [heq, ← stash_texts h hopen]
    have hall : (s.stash.map Prod.snd).filter (fun text => !isBlankText text) =
        s.stash.map Prod.snd := by
      rw [stash_texts h hopen, drafts, List.filter_filter]
      simp
    have hblank : isBlankText [] = true := rfl
    rw [drafts, openNew, List.filter_append, hall]
    simp [hblank]

theorem Kept.openAt (h : s.Kept) (target : Option Nat) : (s.openAt target).Kept := by
  have herased (i : Nat) : ∀ p ∈ s.stash.eraseIdx i, isBlankText p.2 = false := fun p hp =>
    stash_filled h p ((List.eraseIdx_sublist s.stash i).subset hp)
  rcases openAt_cases h target with heq | ⟨hopen, i, parked, hget, heq⟩ | ⟨-, heq⟩ |
    ⟨hopen, anchor, -, -, heq⟩
  · rwa [heq]
  · rw [heq]
    exact ⟨rfl, h.caret, fun hclosed => (by cases hclosed), herased i⟩
  · rw [heq]
    exact ⟨h.worksheet, h.caret, fun hclosed => (by cases hclosed), h.filled⟩
  · rw [heq]
    exact ⟨rfl, h.caret, fun hclosed => (by cases hclosed), stash_filled h⟩

theorem Apart.openAt (hkept : s.Kept) (h : s.Apart) (target : Option Nat) :
    (s.openAt target).Apart := by
  rcases openAt_cases hkept target with heq | ⟨hopen, i, parked, hget, heq⟩ | ⟨hclosed, heq⟩ |
    ⟨hopen, anchor, -, hfar, heq⟩
  · rwa [heq]
  · rw [heq]
    have hperm := perm_eraseIdx (stash_getElem? hget)
    exact (hperm.pairwise_iff fun h => h.symm).2 (h.sublist (stash_sublist hopen))
  · have hnone := (hkept.closed hclosed).1
    rw [heq, Apart, blocks, hnone]
    exact List.pairwise_singleton _ _
  · rw [heq]
    refine List.pairwise_append.2 ⟨h.sublist (stash_sublist hopen), List.pairwise_singleton _ _, ?_⟩
    intro a ha b hb
    rw [List.mem_singleton.1 hb]
    exact hfar a ((stash_sublist hopen).subset ha)

/-! ### Runs -/

/-- No draft is put aside at the end of the transcript. -/
def EndFree (s : ReplyDrafts) : Prop :=
  ∀ p ∈ s.parkedYouBlocks, s.transcript.youBlocksWouldBeAdjacent p.1 none = false

/-- The focus is not settled at the end while a draft is put aside there. -/
def allowed (s : ReplyDrafts) : DraftAct → Prop
  | .reset => s.parkedYouBlocks = []
  | .settle => s.transcript.isEmpty = true ∨ isBlankText s.compose = false → s.EndFree
  | _ => True

/-- The blocks are apart and on lines of the transcript. -/
structure Placed (s : ReplyDrafts) : Prop extends s.Kept where
  apart : s.Apart
  bound : ∀ b ∈ s.blocks, ∀ l, b.1 = some l → l < s.transcript.lineCount

theorem settleInputFocus_cases (h : s.mode = .worksheet) :
    ((s.transcript.isEmpty = true ∨ isBlankText s.compose = false) ∧ s.settleInputFocus =
      { s with youBlockOpen := true, youBlockAnchor := none, focus := .compose }) ∨
    (isBlankText s.compose = true ∧
      s.settleInputFocus = { s.closeYouBlock with focus := .transcript }) := by
  unfold settleInputFocus
  rw [h, if_neg (by decide)]
  split
  · rename_i hopen
    left
    exact ⟨by simpa using hopen, rfl⟩
  · rename_i hclosed
    right
    simp only [Bool.or_eq_true, not_or] at hclosed
    exact ⟨by simpa using hclosed.2, rfl⟩

theorem Kept.settle (h : s.Kept) : s.settleInputFocus.Kept := by
  rcases settleInputFocus_cases h.worksheet with ⟨-, heq⟩ | ⟨hblank, heq⟩
  · rw [heq]
    exact ⟨h.worksheet, h.caret, fun hclosed => (by cases hclosed), h.filled⟩
  · rw [heq]
    exact ⟨h.worksheet, h.caret, fun _ => ⟨rfl, hblank⟩, by simp [closeYouBlock]⟩

theorem Placed.settle (h : s.Placed) (hallowed : s.allowed .settle) : s.settleInputFocus.Placed := by
  refine ⟨h.toKept.settle, ?_, ?_⟩ <;>
    rcases settleInputFocus_cases h.worksheet with ⟨hopen, heq⟩ | ⟨-, heq⟩ <;> rw [heq]
  · refine List.pairwise_append.2 ⟨h.apart.sublist (List.sublist_append_left _ _),
      List.pairwise_singleton _ _, ?_⟩
    intro a ha b hb
    rw [List.mem_singleton.1 hb]
    exact hallowed hopen a ha
  · exact List.Pairwise.nil
  · intro b hb l hl
    rw [blocks, if_pos rfl, List.mem_append, List.mem_singleton] at hb
    rcases hb with hb | rfl
    · exact h.bound b (List.mem_append_left _ hb) l hl
    · cases hl
  · intro b hb
    cases hb

theorem Kept.emptied (h : s.Kept) :
    ({ s with transcript := .blank, cursorLine := 0, navStops := [] } : ReplyDrafts).Kept :=
  ⟨h.worksheet, Nat.one_pos, h.closed, h.filled⟩

theorem Placed.reset (h : s.Placed) (hallowed : s.allowed .reset) : s.resetForReplay.Placed := by
  have hparked : s.parkedYouBlocks = [] := hallowed
  refine ⟨h.emptied.settle, ?_, ?_⟩ <;>
    rcases settleInputFocus_cases h.emptied.worksheet with ⟨-, heq⟩ | ⟨-, heq⟩ <;>
      rw [resetForReplay, heq]
  · simp only [Apart, blocks, hparked]
    exact List.pairwise_singleton _ _
  · exact List.Pairwise.nil
  · simp [blocks, hparked]
  · intro b hb
    cases hb

theorem snapped_lt (h : s.Kept) {l : Nat} (hl : s.snapped s.cursorLine = some l) :
    l < s.transcript.lineCount := by
  have hcaret := h.caret
  rw [snapped] at hl
  split at hl
  · cases hl
    cases hsnap : s.snapNavStop s.cursorLine with
    | none => exact hcaret
    | some stop =>
        have hmem := List.mem_of_getLast? hsnap
        have hle : stop ≤ s.cursorLine := by
          simpa using List.mem_takeWhile_imp hmem
        exact lt_of_le_of_lt hle hcaret
  · cases hl

theorem Placed.openAtCursor (h : s.Placed) : s.openYouBlockAtCursor.Placed := by
  have hkept := h.toKept.openAt (s.snapped s.cursorLine)
  refine ⟨⟨hkept.worksheet, hkept.caret, hkept.closed, hkept.filled⟩,
    Apart.openAt h.toKept h.apart (s.snapped s.cursorLine), ?_⟩
  intro b hb l hl
  have hb : b ∈ (s.openAt (s.snapped s.cursorLine)).blocks := hb
  show l < (s.openAt (s.snapped s.cursorLine)).transcript.lineCount
  rcases openAt_cases h.toKept (s.snapped s.cursorLine) with heq | ⟨hopen, i, parked, hget, heq⟩ |
    ⟨hclosed, heq⟩ | ⟨hopen, anchor, htarget, -, heq⟩
  · rw [heq] at hb ⊢
    exact h.bound b hb l hl
  · rw [heq] at hb ⊢
    have hb := (perm_eraseIdx (stash_getElem? hget)).subset hb
    exact h.bound b ((stash_sublist hopen).subset hb) l hl
  · rw [heq] at hb ⊢
    rw [blocks, if_pos rfl, List.mem_append, List.mem_singleton] at hb
    rcases hb with hb | rfl
    · exact h.bound b (List.mem_append_left _ hb) l hl
    · exact snapped_lt h.toKept hl
  · rw [heq] at hb ⊢
    rw [blocks, openNew, if_pos rfl, List.mem_append, List.mem_singleton] at hb
    rcases hb with hb | rfl
    · exact h.bound b ((stash_sublist hopen).subset hb) l hl
    · cases hl
      exact snapped_lt h.toKept htarget

theorem Placed.step {s' : ReplyDrafts} {act : DraftAct} (h : s.Placed)
    (hallowed : s.allowed act) (hstep : s.step act = some s') : s'.Placed := by
  cases act with
  | reset =>
      cases hstep
      exact h.reset hallowed
  | settle =>
      cases hstep
      exact h.settle hallowed
  | moveCaret line =>
      rw [ReplyDrafts.step, Option.ite_none_right_eq_some] at hstep
      obtain ⟨hline, heq⟩ := hstep
      cases heq
      exact ⟨⟨h.worksheet, hline, h.closed, h.filled⟩, h.apart, h.bound⟩
  | navStops stops =>
      cases hstep
      exact ⟨⟨h.worksheet, h.caret, h.closed, h.filled⟩, h.apart, h.bound⟩
  | type text =>
      rw [ReplyDrafts.step, Option.ite_none_right_eq_some] at hstep
      obtain ⟨hopen, heq⟩ := hstep
      cases heq
      have hblocks : ({ s with compose := text } : ReplyDrafts).blocks =
          s.parkedYouBlocks ++ [(s.youBlockAnchor, text)] := by
        simp [blocks, hopen]
      have hbefore : s.blocks = s.parkedYouBlocks ++ [(s.youBlockAnchor, s.compose)] := by
        simp [blocks, hopen]
      refine ⟨⟨h.worksheet, h.caret, fun hclosed => ?_, h.filled⟩, ?_, ?_⟩
      · rw [show s.youBlockOpen = false from hclosed] at hopen
        cases hopen
      · have hapart := h.apart
        rw [Apart, hbefore, List.pairwise_append] at hapart
        rw [Apart, hblocks, List.pairwise_append]
        refine ⟨hapart.1, List.pairwise_singleton _ _, fun a ha b hb => ?_⟩
        rw [List.mem_singleton.1 hb]
        exact hapart.2.2 a ha (s.youBlockAnchor, s.compose) List.mem_cons_self
      · intro b hb l hl
        rw [hblocks, List.mem_append, List.mem_singleton] at hb
        rcases hb with hb | rfl
        · exact h.bound b (List.mem_append_left _ hb) l hl
        · exact h.bound (s.youBlockAnchor, s.compose) (by simp [hbefore]) l hl
  | openAtCursor =>
      cases hstep
      exact h.openAtCursor

theorem placed_start (t : TranscriptLines) (draft : List Char) :
    (fresh t draft).settleInputFocus.Placed := by
  rcases settleInputFocus_cases (s := fresh t draft) rfl with ⟨-, heq⟩ | ⟨hblank, heq⟩
  · rw [heq]
    refine ⟨⟨rfl, t.lines_pos, fun hclosed => (by cases hclosed), by simp [fresh]⟩,
      List.pairwise_singleton _ _, by simp [blocks, fresh]⟩
  · rw [heq]
    exact ⟨⟨rfl, t.lines_pos, fun _ => ⟨rfl, hblank⟩, by simp [closeYouBlock]⟩, List.Pairwise.nil,
      by simp [blocks, closeYouBlock]⟩

theorem placed_of_reaches {s : ReplyDrafts} (h : machine.Reaches allowed s) : s.Placed := by
  apply Machine.Reaches.invariant (M := machine) (P := Placed) _ _ h
  · rintro s ⟨t, draft, rfl⟩
    exact placed_start t draft
  · exact fun s act s' hplaced hallowed hstep => hplaced.step hallowed hstep

/-- A step that is not allowed makes two blocks adjacent. -/
theorem clash_of_not_allowed {s' : ReplyDrafts} {act : DraftAct} (h : s.Kept)
    (hnot : ¬ s.allowed act) (hstep : s.step act = some s') : ¬ s'.Apart := by
  have hclash {t : TranscriptLines} {parked : List YouBlock} {p : YouBlock} (hp : p ∈ parked)
      (hadjacent : t.youBlocksWouldBeAdjacent p.1 none = true) (draft : List Char) :
      ¬ (parked ++ [(none, draft)]).Pairwise (Separate t) := by
    intro hapart
    have hseparate := (List.pairwise_append.1 hapart).2.2 p hp _ List.mem_cons_self
    rw [Separate] at hseparate
    rw [hseparate] at hadjacent
    cases hadjacent
  cases act with
  | reset =>
      cases hstep
      obtain ⟨p, hp⟩ := List.exists_mem_of_ne_nil _ hnot
      rcases settleInputFocus_cases h.emptied.worksheet with ⟨-, heq⟩ | ⟨hblank, heq⟩
      · rw [resetForReplay, heq]
        refine hclash hp ?_ s.compose
        -- every line of an empty transcript is blank
        rw [TranscriptLines.youBlocksWouldBeAdjacent, List.all_eq_true]
        intro l _
        cases l <;> rfl
      · exfalso
        have hopens : ({ s with transcript := .blank, cursorLine := 0, navStops := [] } :
            ReplyDrafts).settleInputFocus.youBlockOpen = true := by
          rw [settleInputFocus, if_neg (by rw [h.worksheet]; decide)]
          rfl
        rw [heq] at hopens
        cases hopens
  | settle =>
      cases hstep
      simp only [allowed, EndFree, not_forall, Bool.not_eq_false] at hnot
      obtain ⟨hopen, p, hp, hadjacent⟩ := hnot
      rcases settleInputFocus_cases h.worksheet with ⟨-, heq⟩ | ⟨hblank, heq⟩
      · rw [heq]
        exact hclash hp hadjacent s.compose
      · exfalso
        have hopens : s.settleInputFocus.youBlockOpen = true := by
          rw [settleInputFocus, if_neg (by rw [h.worksheet]; decide), if_pos (by simpa using hopen)]
        rw [heq] at hopens
        cases hopens
  | moveCaret line => exact absurd trivial hnot
  | navStops stops => exact absurd trivial hnot
  | type text => exact absurd trivial hnot
  | openAtCursor => exact absurd trivial hnot

/-! ### What is sent -/

/-- The blocks that are sent, before they are put in order. -/
def sent (s : ReplyDrafts) : List YouBlock :=
  (s.blocks.filter fun b => !isBlankText b.2).map fun b => (s.effective b.1, b.2)

theorem collectYouBlocks_perm : s.collectYouBlocks.Perm s.sent := by
  refine (List.perm_insertionSort _ _).trans ?_
  rw [sent, blocks, List.filter_append, List.map_append]
  cases hopen : s.youBlockOpen <;> cases hblank : isBlankText s.compose <;> simp [hblank]

/-- All drafts are sent. -/
theorem collectYouBlocks_drafts (h : s.Kept) :
    (s.collectYouBlocks.map Prod.snd).Perm s.drafts := by
  refine (collectYouBlocks_perm.map Prod.snd).trans ?_
  have htexts : s.sent.map Prod.snd =
      (s.blocks.map Prod.snd).filter fun text => !isBlankText text := by
    rw [sent, List.map_map, List.filter_map]
    rfl
  rw [htexts, drafts, blocks]
  cases hopen : s.youBlockOpen with
  | true => simp
  | false => simp [h.closed hopen]

/-- While a draft is anchored at the last line, no other one has an anchor that is not legal. -/
def Untorn (s : ReplyDrafts) : Prop :=
  ∀ b ∈ s.blocks, isBlankText b.2 = false → b.1 = some (s.transcript.lineCount - 1) →
    ∀ c ∈ s.blocks, isBlankText c.2 = false →
      ∀ l, c.1 = some l → s.transcript.youBlockAnchorIsLegal l = true

theorem effective_eq_some {a : Option Nat} {l : Nat} (h : s.effective a = some l) : a = some l := by
  cases a with
  | none => cases h
  | some i =>
      simp only [effective, Option.filter_some] at h
      split at h
      · exact h
      · cases h

theorem collected (h : s.Placed) (huntorn : s.Untorn) :
    Freezing.Collected s.transcript.tagged.length s.collectYouBlocks := by
  have hlength : s.transcript.tagged.length = s.transcript.lineCount := by
    simp [TranscriptLines.tagged, TranscriptLines.lineCount]
  have hmem : ∀ b ∈ s.collectYouBlocks, ∃ b' ∈ s.blocks, isBlankText b'.2 = false ∧
      b = (s.effective b'.1, b'.2) := by
    intro b hb
    obtain ⟨b', hb', rfl⟩ := List.mem_map.1 (collectYouBlocks_perm.subset hb)
    obtain ⟨hin, hfilled⟩ := List.mem_filter.1 hb'
    exact ⟨b', hin, by simpa using hfilled, rfl⟩
  rw [hlength]
  constructor
  case sorted =>
    have htotal : Std.Total fun a b : YouBlock => anchorBefore a.1 b.1 := by
      refine ⟨fun a b => ?_⟩
      cases ha : a.1 <;> cases hb : b.1 <;> simp [anchorBefore, le_total]
    have htrans : IsTrans YouBlock fun a b => anchorBefore a.1 b.1 := by
      refine ⟨fun a b c hab hbc => ?_⟩
      cases ha : a.1 <;> cases hb : b.1 <;> cases hc : c.1 <;>
        simp only [anchorBefore, ha, hb, hc] at hab hbc ⊢
      exact le_trans hab hbc
    exact List.pairwise_insertionSort _ _
  case distinct =>
    have hsent : s.sent.Pairwise fun a b => ∀ l, a.1 = some l → b.1 ≠ some l := by
      rw [sent, List.pairwise_map]
      refine (h.apart.filter _).imp fun {a b} hseparate l ha hb => ?_
      rw [Separate, effective_eq_some ha, effective_eq_some hb,
        s.transcript.youBlocksWouldBeAdjacent_of_line rfl] at hseparate
      cases hseparate
    exact (collectYouBlocks_perm.pairwise_iff fun hab l hb ha => hab l ha hb).2 hsent
  case bound =>
    intro b hb l hl
    obtain ⟨b', hb', -, rfl⟩ := hmem b hb
    exact h.bound b' hb' l (effective_eq_some hl)
  case alone =>
    intro b hb hlast c hc hnone
    obtain ⟨b', hb', hfilled, rfl⟩ := hmem b hb
    obtain ⟨c', hc', hfilled', rfl⟩ := hmem c hc
    have hanchor := effective_eq_some hlast
    cases hc'' : c'.1 with
    | none =>
        have hne : b' ≠ c' := by
          rintro rfl
          rw [hc''] at hanchor
          cases hanchor
        have hsymm : Std.Symm (Separate s.transcript) := ⟨fun a b hab => hab.symm⟩
        have hseparate := h.apart.forall hb' hc' hne
        have hline : s.transcript.youBlockEffectiveLine (some (s.transcript.lineCount - 1)) =
            s.transcript.youBlockEffectiveLine none := rfl
        rw [Separate, hanchor, hc'', s.transcript.youBlocksWouldBeAdjacent_of_line hline] at hseparate
        cases hseparate
    | some l =>
        have hlegal := huntorn b' hb' hfilled hanchor c' hc' hfilled' l hc''
        rw [hc'', effective, Option.filter_some, if_pos hlegal] at hnone
        cases hnone
  case filled =>
    intro b hb
    obtain ⟨b', -, hfilled, rfl⟩ := hmem b hb
    exact hfilled

theorem tagged_ne_nil (t : TranscriptLines) : t.tagged ≠ [] := by
  have hpos := t.lines_pos
  intro hnil
  have hlength : t.tagged.length = t.lines.length := by simp [TranscriptLines.tagged]
  rw [hnil] at hlength
  rw [← hlength] at hpos
  exact Nat.lt_irrefl 0 hpos

open Freezing in
/-- As long as the focus is not settled at the end while a draft is put aside there: openings keep
the drafts, no two blocks are adjacent, and freezing weaves the drafts into the transcript in the
order they are sent. -/
theorem drafts_kept_apart {s : ReplyDrafts} (h : machine.Reaches allowed s) :
    s.openYouBlockAtCursor.drafts.Perm s.drafts ∧
    s.Apart ∧
    (s.collectYouBlocks.map Prod.snd).Perm s.drafts ∧
    (∀ act s', ¬ s.allowed act → machine.step s act = some s' → ¬ s'.Apart) ∧
    (s.Untorn → ∀ k,
      freezeYouBlocks s.transcript.tagged s.collectYouBlocks k =
        (pieces s.transcript.lineCount (oldLines s.transcript.tagged s.collectYouBlocks)
          s.collectYouBlocks).flatMap (render (.user k) s.transcript.lineCount) ++
          lastLine (.user k) s.transcript.lineCount s.collectYouBlocks ∧
      (pieces s.transcript.lineCount (oldLines s.transcript.tagged s.collectYouBlocks)
        s.collectYouBlocks).filterMap Sum.getRight? = s.collectYouBlocks ∧
      (pieces s.transcript.lineCount (oldLines s.transcript.tagged s.collectYouBlocks)
        s.collectYouBlocks).filterMap Sum.getLeft? =
        oldLines s.transcript.tagged s.collectYouBlocks) := by
  have hplaced := placed_of_reaches h
  have hlength : s.transcript.tagged.length = s.transcript.lineCount := by
    simp [TranscriptLines.tagged, TranscriptLines.lineCount]
  refine ⟨openAt_drafts hplaced.toKept _, hplaced.apart, collectYouBlocks_drafts hplaced.toKept,
    fun act s' hnot hstep => clash_of_not_allowed hplaced.toKept hnot hstep, fun huntorn k => ?_⟩
  have hcollected := collected hplaced huntorn
  rw [← hlength]
  refine ⟨freezeYouBlocks_eq (tagged_ne_nil _) hcollected k, inr_pieces hcollected ?_,
    inl_pieces _ _ _⟩
  rw [oldLines]
  split
  · omega
  · have := base_length s.transcript.tagged
    omega

/-- Two lines of an agent's turn, and the empty line below them. -/
def sampleTranscript : TranscriptLines where
  lines := ["one".toList, "two".toList, []]
  lines_pos := by decide
  frozen := [(0, 2)]
  tag i := if i < 2 then some (.llm 1) else none
  frozen_bounds := by decide
  frozen_sorted := by decide

/-- A reply below the first line, then one at the end. -/
def sampleActs : List DraftAct :=
  [.navStops [0, 1, 2], .openAtCursor, .type ['x'], .moveCaret 2, .openAtCursor, .type ['y']]

/-- Only steps that settle the focus are ever not allowed. -/
theorem obeys_of_unsettled {acts : List DraftAct}
    (h : ∀ act ∈ acts, act ≠ .reset ∧ act ≠ .settle) (s : ReplyDrafts) :
    machine.Obeys allowed s acts := by
  induction acts generalizing s with
  | nil => trivial
  | cons act acts ih =>
      refine ⟨?_, fun s' _ => ih (fun a ha => h a (List.mem_cons_of_mem _ ha)) s'⟩
      obtain ⟨hreset, hsettle⟩ := h act List.mem_cons_self
      cases act <;> first | exact trivial | exact absurd rfl hreset | exact absurd rfl hsettle

theorem drafts_kept_apart_sample : ∃ s,
    machine.run (fresh sampleTranscript []).settleInputFocus sampleActs = some s ∧ s.Apart ∧
      s.collectYouBlocks = [(some 0, ['x']), (some 2, ['y'])] ∧
      (Freezing.freezeYouBlocks s.transcript.tagged s.collectYouBlocks 2).map Prod.fst =
        ["one".toList, ['x'], "two".toList, ['y'], []] := by
  have hrun : (machine.run (fresh sampleTranscript []).settleInputFocus sampleActs).map
      (fun s => (s.collectYouBlocks,
        (Freezing.freezeYouBlocks s.transcript.tagged s.collectYouBlocks 2).map Prod.fst)) =
      some ([(some 0, ['x']), (some 2, ['y'])],
        ["one".toList, ['x'], "two".toList, ['y'], []]) := by decide
  obtain ⟨s, hrun, hboth⟩ := Option.map_eq_some_iff.1 hrun
  obtain ⟨hsent, hfrozen⟩ := Prod.mk.inj hboth
  have hreaches : machine.Reaches allowed s :=
    Machine.Reaches.of_run (.start ⟨_, _, rfl⟩) (obeys_of_unsettled (by decide) _) hrun
  exact ⟨s, hrun, (drafts_kept_apart hreaches).2.1, hsent, hfrozen⟩

open Freezing in
/-- The focus is settled while the first reply is open again: it moves to the end, next to the
second one. -/
theorem drafts_side_by_side : ¬ ∀ s, machine.Reachable s →
    s.openYouBlockAtCursor.drafts.Perm s.drafts ∧ s.Apart ∧
    ∀ k, freezeYouBlocks s.transcript.tagged s.collectYouBlocks k =
      (pieces s.transcript.lineCount (oldLines s.transcript.tagged s.collectYouBlocks)
        s.collectYouBlocks).flatMap (render (.user k) s.transcript.lineCount) ++
        lastLine (.user k) s.transcript.lineCount s.collectYouBlocks := by
  intro hclaim
  have hrun : (machine.run (fresh sampleTranscript []).settleInputFocus
      (sampleActs ++ [.moveCaret 0, .openAtCursor, .settle])).map
      (fun s => (s.blocks, s.transcript.youBlocksWouldBeAdjacent (some 2) none)) =
      some ([(some 2, ['y']), (none, ['x'])], true) := by decide
  obtain ⟨s, hrun, hboth⟩ := Option.map_eq_some_iff.1 hrun
  obtain ⟨hblocks, hadjacent⟩ := Prod.mk.inj hboth
  have hapart := (hclaim s (Machine.reachable_of_run ⟨_, _, rfl⟩ hrun)).2.1
  rw [Apart, hblocks, List.pairwise_cons] at hapart
  have hseparate := hapart.1 (none, ['x']) List.mem_cons_self
  rw [Separate, hadjacent] at hseparate
  cases hseparate

end ReplyDrafts

end Yaldabaoth
