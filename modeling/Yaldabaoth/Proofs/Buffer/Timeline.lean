import Yaldabaoth.Model.Timeline
import Yaldabaoth.Proofs.Buffer.History
import Yaldabaoth.Proofs.Buffer.Rows

/-!
# `Yaldabaoth.Proofs.Buffer.Timeline`: the texts that undo and redo lead to

`Document.Follows` says that the recorded edits lead through the texts
`past` and `future`, newest first and next first. An edit of the user is
two things to it: it is logged in the open group (`Document.Logged`), so
that the group still leads back to the text before it, and what could be
redone is gone. From there it is one lemma for each operation, and
`Timed.undo_and_redo_exact` for a whole run.
-/

set_option autoImplicit false

namespace Yaldabaoth

open Rope Swaps

variable {α : Type} [Glyph α]

namespace Document

/-! ### What an edit of the user records -/

/-- Splices went into the record: from the new text the open group leads
back to where it led from the old one. -/
structure Logged (d d' : Document α) : Prop where
  undoStack : d'.undoStack = d.undoStack
  redoStack : d'.redoStack = d.redoStack
  closed : d.pendingUndo = none → d'.pendingUndo = none ∧ d'.savedDepth = none
  grouped : ∀ entry, d.pendingUndo = some entry → d'.savedDepth = d.savedDepth ∧
    ∃ entry', d'.pendingUndo = some entry' ∧ (Walks (entry.swaps .undo) d.rope →
      Walks (entry'.swaps .undo) d'.rope ∧
        walk (entry'.swaps .undo) d'.rope = walk (entry.swaps .undo) d.rope)

omit [Glyph α] in
theorem Logged.trans {d d' d'' : Document α} (h : d.Logged d') (h' : d'.Logged d'') :
    d.Logged d'' where
  undoStack := h'.undoStack.trans h.undoStack
  redoStack := h'.redoStack.trans h.redoStack
  closed hnone := h'.closed (h.closed hnone).1
  grouped entry hentry := by
    obtain ⟨hdepth, entry', hentry', hwalks⟩ := h.grouped entry hentry
    obtain ⟨hdepth', entry'', hentry'', hwalks'⟩ := h'.grouped entry' hentry'
    refine ⟨hdepth'.trans hdepth, entry'', hentry'', fun hentryWalks => ?_⟩
    obtain ⟨hmid, hmidText⟩ := hwalks hentryWalks
    obtain ⟨hend, hendText⟩ := hwalks' hmid
    exact ⟨hend, hendText.trans hmidText⟩

theorem recordSplice_history (d : Document α) (start removedChars : Nat) (inserted : List α) :
    (d.recordSplice start removedChars inserted).redoStack = d.redoStack ∧
      (d.recordSplice start removedChars inserted).savedDepth
        = if d.pendingUndo = none then none else d.savedDepth := by
  rw [recordSplice]
  cases hpending : d.pendingUndo with
  | none => simp [notePendingEdit, hpending]
  | some entry => simp [notePendingEdit, hpending]

/-- A stretch of the text is replaced by another, and recorded as that. -/
theorem logged_splice {d : Document α} {start count : Nat} {inserted : List α}
    (before removed after : List α) (hrope : d.rope = before ++ removed ++ after) (hstart : min start d.rope.length = before.length)
    (hremoved : slice d.rope (min start d.rope.length) (min (start + count) d.rope.length) = removed)
    {rope : List α} (hnew : rope = before ++ inserted ++ after) :
    d.Logged { d.recordSplice start count inserted with rope } := by
  obtain ⟨-, hundo, hpending⟩ := d.recordSplice_fields start count inserted
  obtain ⟨hredo, hdepth⟩ := d.recordSplice_history start count inserted
  rw [hremoved, hstart] at hpending
  refine ⟨hundo, hredo, fun hnone => ?_, fun entry hentry => ?_⟩
  · rw [hnone] at hpending
    rw [if_pos hnone] at hdepth
    exact ⟨hpending, hdepth⟩
  · have hopen : d.pendingUndo ≠ none := by
      rw [hentry]
      exact Option.some_ne_none entry
    rw [if_neg hopen] at hdepth
    rw [hentry] at hpending
    refine ⟨hdepth, _, hpending, fun hwalks => ?_⟩
    have hfits : (⟨before.length, inserted, removed⟩ : Swap α).Fits rope :=
      ⟨before, after, hnew, rfl⟩
    have hback : (⟨before.length, inserted, removed⟩ : Swap α).apply rope = d.rope := by
      rw [hnew, hrope]
      exact Swap.apply_of_parts (⟨before.length, inserted, removed⟩ : Swap α) rfl
    exact record_walks hwalks hfits hback

theorem logged_insert (d : Document α) (idx : Nat) (text : List α) :
    d.Logged { d.recordSplice idx 0 text with
      rope := Rope.insert (d.recordSplice idx 0 text).rope idx text } := by
  obtain ⟨hrope, -, -⟩ := d.recordSplice_fields idx 0 text
  rw [hrope]
  refine logged_splice (d.rope.take idx) [] (d.rope.drop idx) ?_ ?_ ?_ rfl
  · rw [List.append_nil, List.take_append_drop]
  · rw [List.length_take]
  · simp [slice]

theorem logged_remove (d : Document α) {first last : Nat} (hlt : first < last)
    (hlast : last ≤ d.rope.length) :
    d.Logged { d.recordSplice first (last - first) [] with
      rope := Rope.remove (d.recordSplice first (last - first) []).rope first last } := by
  obtain ⟨hrope, -, -⟩ := d.recordSplice_fields first (last - first) []
  have hfirst : min first d.rope.length = first := by omega
  have hend : min (first + (last - first)) d.rope.length = last := by omega
  rw [hrope]
  refine logged_splice (d.rope.take first) (slice d.rope first last) (d.rope.drop last)
    ?_ ?_ ?_ ?_
  · have hsplit : d.rope.take last = d.rope.take first ++ slice d.rope first last := by
      conv_lhs => rw [← List.take_append_drop first (d.rope.take last)]
      rw [List.take_take, Nat.min_eq_left (Nat.le_of_lt hlt)]
      rfl
    rw [← hsplit, List.take_append_drop]
  · rw [List.length_take, hfirst]
  · rw [hfirst, hend]
  · rw [List.append_nil]
    rfl

/-- A call that acts logs what it changes, and then there is nothing to
redo. -/
theorem apply_byUser (d : Document α) {edit : Edit α} (huser : edit.byUser = true) :
    (d.acts edit = true → ∃ mid : Document α, d.Logged mid ∧ d.apply edit = mid.touch.clearRedo) ∧
      (d.acts edit = false → d.apply edit = d) := by
  have hdelete (startChar endChar : Nat) :
      (decide (min startChar d.rope.length < min endChar d.rope.length) = true →
        ∃ mid : Document α, d.Logged mid ∧
          d.deleteRange startChar endChar = mid.touch.clearRedo) ∧
        (decide (min startChar d.rope.length < min endChar d.rope.length) = false →
          d.deleteRange startChar endChar = d) := by
    rw [deleteRange]
    by_cases hlt : min startChar d.rope.length < min endChar d.rope.length
    · refine ⟨fun _ => ⟨_, d.logged_remove hlt (Nat.min_le_right _ _), ?_⟩, fun hnot => ?_⟩
      · simp only [hlt, if_true]
      · exact absurd hlt (of_decide_eq_false hnot)
    · refine ⟨fun hdecide => absurd (of_decide_eq_true hdecide) hlt, fun _ => ?_⟩
      simp only [hlt, if_false]
  cases edit with
  | insertChar line col ch =>
      exact ⟨fun _ => ⟨_, d.logged_insert _ [ch], rfl⟩, fun h => absurd h (by simp [acts])⟩
  | insertStr line col text =>
      exact ⟨fun _ => ⟨_, d.logged_insert _ text, rfl⟩, fun h => absurd h (by simp [acts])⟩
  | insertStrAtChar charIdx text =>
      exact ⟨fun _ => ⟨_, d.logged_insert _ text, rfl⟩, fun h => absurd h (by simp [acts])⟩
  | deleteChar line col =>
      by_cases hlt : lineColToChar d.rope line col < d.rope.length
      · refine ⟨fun _ => ?_, fun h => absurd hlt (of_decide_eq_false h)⟩
        have hlogged := d.logged_remove (Nat.lt_add_one (lineColToChar d.rope line col)) hlt
        rw [Nat.add_sub_cancel_left] at hlogged
        refine ⟨_, hlogged, ?_⟩
        show d.deleteChar line col = _
        rw [deleteChar]
        simp only [hlt, if_true]
      · refine ⟨fun h => absurd (of_decide_eq_true h) hlt, fun _ => ?_⟩
        show d.deleteChar line col = _
        rw [deleteChar]
        simp only [hlt, if_false]
  | deleteRange startChar endChar => exact hdelete startChar endChar
  | deleteLine line =>
      show ((d.lineDeleteRange line).any _ = true → ∃ mid : Document α, _ ∧ d.deleteLine line = _) ∧
        ((d.lineDeleteRange line).any _ = false → d.deleteLine line = d)
      rw [deleteLine]
      cases hrange : d.lineDeleteRange line with
      | none => exact ⟨fun h => absurd h (by simp), fun _ => rfl⟩
      | some range => exact hdelete range.1 range.2
  | replaceLineText line newText =>
      by_cases hline : lenLines d.rope ≤ line
      · refine ⟨fun h => absurd (of_decide_eq_true h) (Nat.not_lt.2 hline), fun _ => ?_⟩
        show d.replaceLineText line newText = d
        rw [replaceLineText, if_pos hline]
      · refine ⟨fun _ => ?_, fun h => absurd (Nat.lt_of_not_le hline) (of_decide_eq_false h)⟩
        show ∃ mid : Document α, _ ∧ d.replaceLineText line newText = _
        rw [replaceLineText, if_neg hline]
        by_cases hlt : lineToChar d.rope line < lineToChar d.rope line + lineLenChars d.rope line
        · -- The old text of the line goes first.
          have hend := lineToChar_add_lineLenChars_le d.rope line
          have hlogged := d.logged_remove hlt hend
          simp only [hlt, if_true]
          exact ⟨_, hlogged.trans (logged_insert _ _ newText), rfl⟩
        · simp only [hlt, if_false]
          exact ⟨_, d.logged_insert _ newText, rfl⟩
  | insertStrAtCharNoUndo charIdx text => cases huser
  | deleteRangeNoUndo startChar endChar => cases huser
  | beginUndoGroup cursorLine cursorCol => cases huser
  | endUndoGroup cursorLine cursorCol => cases huser
  | undo => cases huser
  | redo => cases huser

/-! ### The texts along the record -/

/-- The recorded edits lead from `start`, the text before the open group,
back to the texts of `past`, and from the text on to those of `future`. -/
structure Follows (d : Document α) (start : List α) (past future : List (List α)) : Prop where
  pending : ∀ entry, d.pendingUndo = some entry →
    Walks (entry.swaps .undo) d.rope ∧ walk (entry.swaps .undo) d.rope = start
  closed : d.pendingUndo = none → start = d.rope
  back : Visits (d.undoStack.map (UndoEntry.swaps .undo)) past start
  forth : Visits d.redoGroups future d.rope
  kept : d.undoStack.length ≤ undoCap

omit [Glyph α] in
theorem Follows.lengths {d : Document α} {start : List α} {past future : List (List α)}
    (h : d.Follows start past future) :
    d.undoStack.length = past.length ∧ d.redoStack.length = future.length := by
  have hback := h.back.length
  have hforth := h.forth.length
  rw [List.length_map] at hback
  rw [redoGroups, List.length_map] at hforth
  exact ⟨hback, hforth⟩

theorem follows_fromText (text : List α) (filePath : String) :
    (fromText text filePath).Follows (fromText text filePath).rope [] [] where
  pending _ hentry := by cases hentry
  closed _ := rfl
  back := trivial
  forth := trivial
  kept := Nat.zero_le _

omit [Glyph α] in
theorem idle_swaps {d : Document α} {entry : UndoEntry α} (hidle : d.recording = false)
    (hentry : d.pendingUndo = some entry) : entry.swaps .undo = [] := by
  rw [recording, hentry] at hidle
  have hempty : entry.splices = [] := by simpa using hidle
  simp [UndoEntry.swaps, UndoEntry.ordered, hempty]

omit [Glyph α] in
/-- A group with nothing recorded has left the text as it was. -/
theorem Follows.start_eq {d : Document α} {start : List α} {past future : List (List α)}
    (h : d.Follows start past future) (hidle : d.recording = false) : start = d.rope := by
  cases hpending : d.pendingUndo with
  | none => exact h.closed hpending
  | some entry =>
      have hstart := (h.pending entry hpending).2
      rw [idle_swaps hidle hpending] at hstart
      exact hstart.symm

omit [Glyph α] in
/-- An edit in a group. -/
theorem Follows.logged {d mid : Document α} {start : List α} {past future : List (List α)}
    (h : d.Follows start past future) (hopen : d.undoGroupOpen = true) (hlogged : d.Logged mid) :
    mid.touch.clearRedo.Follows start past [] := by
  obtain ⟨entry, hentry⟩ := Option.isSome_iff_exists.1 hopen
  obtain ⟨hwalks, hstart⟩ := h.pending entry hentry
  obtain ⟨-, entry', hentry', hlead⟩ := hlogged.grouped entry hentry
  obtain ⟨hwalks', hstart'⟩ := hlead hwalks
  refine {
    pending := fun other hother => ?_
    closed := fun hnone => ?_
    back := ?_
    forth := trivial
    kept := ?_ }
  · obtain rfl : entry' = other := Option.some.inj (hentry'.symm.trans hother)
    exact ⟨hwalks', hstart'.trans hstart⟩
  · cases hentry'.symm.trans hnone
  · show Visits (mid.undoStack.map _) past start
    rw [hlogged.undoStack]
    exact h.back
  · show mid.undoStack.length ≤ undoCap
    rw [hlogged.undoStack]
    exact h.kept

omit [Glyph α] in
theorem Follows.beginGroup {d : Document α} {start : List α} {past future : List (List α)}
    (h : d.Follows start past future) (line col : Nat) :
    (d.beginUndoGroup line col).1.Follows start past future := by
  rw [beginUndoGroup]
  cases hpending : d.pendingUndo with
  | some entry => exact h
  | none =>
      refine {
        pending := fun entry hentry => ?_
        closed := fun hnone => ?_
        back := h.back
        forth := h.forth
        kept := h.kept }
      · obtain rfl := Option.some.inj hentry
        exact ⟨trivial, (h.closed hpending).symm⟩
      · cases hnone

omit [Glyph α] in
/-- A group that recorded nothing is dropped. -/
theorem Follows.dropGroup {d : Document α} {start : List α} {past future : List (List α)}
    (h : d.Follows start past future) (hidle : d.recording = false) (line col : Nat) :
    (d.endUndoGroup line col) = { d with pendingUndo := none } ∧
      ({ d with pendingUndo := none } : Document α).Follows start past future := by
  constructor
  · rw [endUndoGroup]
    cases hpending : d.pendingUndo with
    | none =>
        show d = _
        rw [← hpending]
    | some entry =>
        rw [recording, hpending] at hidle
        have hempty : entry.splices.isEmpty = true := by simpa using hidle
        simp only [hempty, if_true]
  · exact {
      pending := fun entry hentry => by cases hentry
      closed := fun _ => h.start_eq hidle
      back := h.back
      forth := h.forth
      kept := h.kept }

omit [Glyph α] in
/-- The step of the open group is the newest from now on. -/
theorem Follows.pushGroup {d : Document α} {start : List α} {past future : List (List α)}
    (h : d.Follows start past future) {entry : UndoEntry α} (hentry : d.pendingUndo = some entry)
    (cursorAfter : Nat × Nat) :
    (({ d with pendingUndo := none } : Document α).pushUndo
      { entry with cursorAfter }).Follows d.rope ((start :: past).take undoCap) future := by
  obtain ⟨hstack, hrope, hpending, hredo⟩ :=
    ({ d with pendingUndo := none } : Document α).pushUndo_fields { entry with cursorAfter }
  generalize pushUndo _ _ = pushed at hstack hrope hpending hredo
  obtain ⟨hwalks, hstart⟩ := h.pending entry hentry
  refine {
    pending := fun other hother => ?_
    closed := fun _ => hrope.symm
    back := ?_
    forth := ?_
    kept := ?_ }
  · cases hpending.symm.trans hother
  · rw [hstack, List.map_take]
    refine Visits.take ?_ undoCap
    exact ⟨hwalks, hstart, h.back⟩
  · rw [redoGroups, hredo, hrope]
    exact h.forth
  · rw [hstack, List.length_take]
    exact Nat.min_le_left _ _

/-- A step back, where the text is that between two groups. -/
theorem Follows.undo {d : Document α} {start text : List α} {past future : List (List α)}
    (h : d.Follows start (text :: past) future) (hidle : d.recording = false) :
    d.undo.1.rope = text ∧ d.undo.1.Follows text past (d.rope :: future) := by
  obtain rfl := h.start_eq hidle
  have hback := h.back
  cases hstack : d.undoStack with
  | nil =>
      rw [hstack] at hback
      exact hback.elim
  | cons entry older =>
      rw [hstack] at hback
      obtain ⟨hwalks, rfl, hrest⟩ := hback
      obtain ⟨hrope, hpending, hundo, mirror, hredo, hsplices, -⟩ := undo_fields hstack
      rw [applySplices_rope hwalks] at hrope
      refine ⟨hrope, ?_⟩
      refine {
        pending := fun other hother => ?_
        closed := fun _ => hrope.symm
        back := ?_
        forth := ?_
        kept := ?_ }
      · rw [hpending] at hother
        rw [idle_swaps hidle hother]
        exact ⟨trivial, hrope⟩
      · rw [hundo]
        exact hrest
      · rw [redoGroups, hredo, hrope, List.map_cons, UndoEntry.swaps_congr hsplices, swaps_redo]
        obtain ⟨hthere, hto⟩ := hwalks.back
        refine ⟨hthere, hto, ?_⟩
        exact h.forth
      · have hkept := h.kept
        rw [hstack, List.length_cons] at hkept
        rw [hundo]
        omega

/-- A step on. -/
theorem Follows.redo {d : Document α} {start text : List α} {past future : List (List α)}
    (h : d.Follows start past (text :: future)) (hidle : d.recording = false) :
    d.redo.1.rope = text ∧ d.redo.1.Follows text ((d.rope :: past).take undoCap) future := by
  obtain rfl := h.start_eq hidle
  have hforth := h.forth
  rw [redoGroups] at hforth
  cases hstack : d.redoStack with
  | nil =>
      rw [hstack] at hforth
      exact hforth.elim
  | cons entry newer =>
      rw [hstack] at hforth
      obtain ⟨hwalks, rfl, hrest⟩ := hforth
      obtain ⟨hrope, hpending, hredo, mirror, hundo, hsplices, -⟩ := redo_fields hstack
      rw [applySplices_rope hwalks] at hrope
      refine ⟨hrope, ?_⟩
      refine {
        pending := fun other hother => ?_
        closed := fun _ => hrope.symm
        back := ?_
        forth := ?_
        kept := ?_ }
      · rw [hpending] at hother
        rw [idle_swaps hidle hother]
        exact ⟨trivial, hrope⟩
      · rw [hundo, List.map_take, List.map_cons, UndoEntry.swaps_congr hsplices, swaps_undo]
        refine Visits.take ?_ undoCap
        obtain ⟨hthere, hto⟩ := hwalks.back
        exact ⟨hthere, hto, h.back⟩
      · rw [redoGroups, hredo, hrope]
        exact hrest
      · rw [hundo, List.length_take]
        exact Nat.min_le_left _ _

omit [Glyph α] in
theorem endUndoGroup_recorded (d : Document α) (hrecording : d.recording = true)
    {entry : UndoEntry α} (hentry : d.pendingUndo = some entry) (line col : Nat) :
    d.endUndoGroup line col = ({ d with pendingUndo := none } : Document α).pushUndo
      { entry with cursorAfter := (line, col) } := by
  rw [recording, hentry] at hrecording
  have hsplices : entry.splices.isEmpty = false := by simpa using hrecording
  rw [endUndoGroup, hentry]
  simp only [hsplices, Bool.false_eq_true, if_false]

theorem undo_pending (d : Document α) : d.undo.1.pendingUndo = d.pendingUndo := by
  cases hstack : d.undoStack with
  | nil =>
      rw [undo, historyStep]
      simp only [hstack]
  | cons entry rest => exact (undo_fields hstack).2.1

theorem redo_pending (d : Document α) : d.redo.1.pendingUndo = d.pendingUndo := by
  cases hstack : d.redoStack with
  | nil =>
      rw [redo, historyStep]
      simp only [hstack]
  | cons entry rest => exact (redo_fields hstack).2.1

theorem undo_isSome {d : Document α} (hstack : d.undoStack ≠ []) : d.undo.2.isSome = true := by
  obtain ⟨entry, rest, hcons⟩ := List.exists_cons_of_ne_nil hstack
  rw [undo, historyStep]
  simp only [hcons, Option.isSome_some]

theorem redo_isSome {d : Document α} (hstack : d.redoStack ≠ []) : d.redo.2.isSome = true := by
  obtain ⟨entry, rest, hcons⟩ := List.exists_cons_of_ne_nil hstack
  rw [redo, historyStep]
  simp only [hcons, Option.isSome_some]

theorem undo_nothing {d : Document α} (hstack : d.undoStack = []) : d.undo = (d, none) := by
  rw [undo, historyStep]
  simp only [hstack]

theorem redo_nothing {d : Document α} (hstack : d.redoStack = []) : d.redo = (d, none) := by
  rw [redo, historyStep]
  simp only [hstack]

end Document

/-! ### Undo and redo -/

namespace Timed

/-- The record of the texts is the one that the recorded edits lead
through. -/
structure Sound (s : Timed α) : Prop where
  follows : s.doc.Follows (s.opened.getD s.doc.rope) s.past s.future
  opened : s.opened.isSome = s.doc.undoGroupOpen

omit [Glyph α] in
theorem Sound.closed {s : Timed α} (h : s.Sound) (hclosed : s.doc.undoGroupOpen = false) :
    s.opened = none ∧ s.doc.recording = false := by
  have hopened := h.opened
  rw [hclosed] at hopened
  have hnone : s.doc.pendingUndo = none :=
    Option.isNone_iff_eq_none.1 (Option.isSome_eq_false_iff.1 hclosed)
  refine ⟨Option.isNone_iff_eq_none.1 (Option.isSome_eq_false_iff.1 hopened), ?_⟩
  rw [Document.recording, hnone]
  rfl

omit [Glyph α] in
theorem touch_clearRedo_open {d mid : Document α} (hlogged : d.Logged mid)
    (hopen : d.undoGroupOpen = true) : mid.touch.clearRedo.undoGroupOpen = true := by
  obtain ⟨entry, hentry⟩ := Option.isSome_iff_exists.1 hopen
  obtain ⟨-, entry', hentry', -⟩ := hlogged.grouped entry hentry
  show mid.pendingUndo.isSome = true
  rw [hentry']
  rfl

/-- An edit in a group. -/
theorem Sound.typed {s : Timed α} (h : s.Sound) (edit : Document.Edit α)
    (huser : edit.byUser = true) (hopen : s.doc.undoGroupOpen = true) :
    Sound (if edit.byUser && s.doc.acts edit then
      { s with doc := s.doc.apply edit, future := [] } else { s with doc := s.doc.apply edit }) := by
  obtain ⟨hacts, hsame⟩ := s.doc.apply_byUser huser
  rw [huser, Bool.true_and]
  cases hact : s.doc.acts edit with
  | false =>
      rw [hsame hact]
      exact h
  | true =>
      obtain ⟨mid, hlogged, hdoc⟩ := hacts hact
      obtain ⟨text, htext⟩ : ∃ text, s.opened = some text := by
        rw [← Option.isSome_iff_exists, h.opened, hopen]
      have hfollows := h.follows
      rw [htext] at hfollows
      rw [hdoc]
      refine ⟨?_, ?_⟩
      · show mid.touch.clearRedo.Follows (s.opened.getD _) s.past []
        rw [htext]
        exact hfollows.logged hopen hlogged
      · show s.opened.isSome = mid.touch.clearRedo.undoGroupOpen
        rw [htext, touch_clearRedo_open hlogged hopen]
        rfl

theorem Sound.noted {s : Timed α} (h : s.Sound) {edit : Document.Edit α}
    (hallowed : s.Disciplined edit) : (s.noted edit).Sound := by
  cases edit with
  | insertChar line col ch => exact h.typed (.insertChar line col ch) rfl hallowed
  | insertStr line col text => exact h.typed (.insertStr line col text) rfl hallowed
  | insertStrAtChar charIdx text => exact h.typed (.insertStrAtChar charIdx text) rfl hallowed
  | deleteChar line col => exact h.typed _ rfl hallowed
  | deleteRange startChar endChar => exact h.typed _ rfl hallowed
  | deleteLine line => exact h.typed _ rfl hallowed
  | replaceLineText line newText => exact h.typed _ rfl hallowed
  | insertStrAtCharNoUndo charIdx text => exact hallowed.elim
  | deleteRangeNoUndo startChar endChar => exact hallowed.elim
  | beginUndoGroup line col =>
      have hbegin := h.follows.beginGroup line col
      cases hpending : s.doc.pendingUndo with
      | some entry =>
          have hopen : s.doc.undoGroupOpen = true := by rw [Document.undoGroupOpen, hpending]; rfl
          have hsame : (s.doc.beginUndoGroup line col).1 = s.doc := by
            rw [Document.beginUndoGroup, hpending]
          show Sound (if s.doc.undoGroupOpen then
            { s with doc := (s.doc.beginUndoGroup line col).1 } else _)
          rw [hopen, hsame]
          exact h
      | none =>
          have hclosed : s.doc.undoGroupOpen = false := by
            rw [Document.undoGroupOpen, hpending]
            rfl
          rw [(h.closed hclosed).1] at hbegin
          show Sound (if s.doc.undoGroupOpen then _ else _)
          rw [hclosed]
          refine ⟨hbegin, ?_⟩
          show true = (s.doc.beginUndoGroup line col).1.undoGroupOpen
          rw [Document.beginUndoGroup, hpending]
          rfl
  | endUndoGroup line col =>
      show Sound (if s.doc.recording then _ else _)
      cases hrecording : s.doc.recording with
      | false =>
          obtain ⟨hdoc, hdrop⟩ := h.follows.dropGroup hrecording line col
          refine ⟨?_, ?_⟩
          · show (s.doc.endUndoGroup line col).Follows (s.doc.endUndoGroup line col).rope _ _
            rw [hdoc]
            rw [h.follows.start_eq hrecording] at hdrop
            exact hdrop
          · show false = (s.doc.endUndoGroup line col).undoGroupOpen
            rw [hdoc]
            rfl
      | true =>
          cases hentry : s.doc.pendingUndo with
          | none =>
              rw [Document.recording, hentry] at hrecording
              cases hrecording
          | some entry =>
              obtain ⟨text, htext⟩ : ∃ text, s.opened = some text := by
                rw [← Option.isSome_iff_exists, h.opened, Document.undoGroupOpen, hentry]
                rfl
              have hpush := h.follows.pushGroup hentry (line, col)
              have hdoc := s.doc.endUndoGroup_recorded hrecording hentry line col
              have hrope := (({ s.doc with pendingUndo := none } : Document α).pushUndo_fields
                { entry with cursorAfter := (line, col) }).2
              rw [← hdoc] at hpush hrope
              obtain ⟨hrope, hpending, -⟩ := hrope
              rw [htext] at hpush
              refine ⟨?_, ?_⟩
              · show (s.doc.endUndoGroup line col).Follows (s.doc.endUndoGroup line col).rope
                  ((s.opened.toList ++ s.past).take undoCap) s.future
                rw [htext, hrope]
                exact hpush
              · show false = (s.doc.endUndoGroup line col).undoGroupOpen
                rw [Document.undoGroupOpen, hpending]
                rfl
  | undo =>
      obtain ⟨hopened, hidle⟩ := h.closed hallowed
      have hfollows := h.follows
      rw [hopened] at hfollows
      dsimp only [Timed.noted]
      cases hpast : s.past with
      | nil =>
          rw [hpast] at hfollows
          have hstack := List.length_eq_zero_iff.1 hfollows.lengths.1
          show Sound { s with doc := s.doc.undo.1, past := [] }
          rw [Document.undo_nothing hstack, ← hpast]
          exact h
      | cons text rest =>
          rw [hpast] at hfollows
          obtain ⟨hrope, hundone⟩ := hfollows.undo hidle
          refine ⟨?_, ?_⟩
          · show s.doc.undo.1.Follows (s.opened.getD s.doc.undo.1.rope) rest (s.doc.rope :: s.future)
            rw [hopened, Option.getD_none, hrope]
            exact hundone
          · show s.opened.isSome = s.doc.undo.1.undoGroupOpen
            rw [h.opened, Document.undoGroupOpen, Document.undoGroupOpen, s.doc.undo_pending]
  | redo =>
      obtain ⟨hopened, hidle⟩ := h.closed hallowed
      have hfollows := h.follows
      rw [hopened] at hfollows
      dsimp only [Timed.noted]
      cases hfuture : s.future with
      | nil =>
          rw [hfuture] at hfollows
          have hstack := List.length_eq_zero_iff.1 hfollows.lengths.2
          show Sound { s with doc := s.doc.redo.1, future := [] }
          rw [Document.redo_nothing hstack, ← hfuture]
          exact h
      | cons text rest =>
          rw [hfuture] at hfollows
          obtain ⟨hrope, hredone⟩ := hfollows.redo hidle
          refine ⟨?_, ?_⟩
          · show s.doc.redo.1.Follows (s.opened.getD s.doc.redo.1.rope)
              ((s.doc.rope :: s.past).take undoCap) rest
            rw [hopened, Option.getD_none, hrope]
            exact hredone
          · show s.opened.isSome = s.doc.redo.1.undoGroupOpen
            rw [h.opened, Document.undoGroupOpen, Document.undoGroupOpen, s.doc.redo_pending]

theorem sound_of_reaches {s : Timed α} (h : (machine α).Reaches Disciplined s) : s.Sound := by
  refine h.invariant ?_ ?_
  · rintro s ⟨text, filePath, rfl⟩
    exact ⟨Document.follows_fromText text filePath, rfl⟩
  · intro s edit s' hsound hallowed hstep
    obtain rfl := Option.some.inj hstep
    exact hsound.noted hallowed

/-- Undo goes back to the text before the newest group, redo on to the
text after the one undone last, and both do nothing where there is no
such text. -/
theorem undo_and_redo_exact {s : Timed α} (h : (machine α).Reaches Disciplined s) : s.Exact := by
  have hsound := sound_of_reaches h
  have hfollows := hsound.follows
  obtain ⟨hpast, hfuture⟩ := hfollows.lengths
  refine {
    undone := fun hclosed => ?_
    redone := fun hclosed => ?_
    nested := fun hopen line col => ?_
    empty := fun hopen hidle => ?_
    retained := ⟨hpast, hfuture, hpast ▸ hfollows.kept⟩ }
  · cases htexts : s.past with
    | nil =>
        rw [htexts] at hpast
        rw [Document.undo_nothing (List.length_eq_zero_iff.1 hpast)]
        exact ⟨rfl, rfl⟩
    | cons text rest =>
        rw [htexts] at hfollows hpast
        refine ⟨(hfollows.undo (hsound.closed hclosed).2).1, ?_⟩
        exact Document.undo_isSome (List.length_pos_iff.1 (by rw [hpast]; exact Nat.succ_pos _))
  · cases htexts : s.future with
    | nil =>
        rw [htexts] at hfuture
        rw [Document.redo_nothing (List.length_eq_zero_iff.1 hfuture)]
        exact ⟨rfl, rfl⟩
    | cons text rest =>
        rw [htexts] at hfollows hfuture
        refine ⟨(hfollows.redo (hsound.closed hclosed).2).1, ?_⟩
        exact Document.redo_isSome (List.length_pos_iff.1 (by rw [hfuture]; exact Nat.succ_pos _))
  · obtain ⟨entry, hentry⟩ := Option.isSome_iff_exists.1 hopen
    rw [Document.beginUndoGroup, hentry]
  · obtain ⟨text, htext⟩ : ∃ text, s.opened = some text := by
      rw [← Option.isSome_iff_exists, hsound.opened, hopen]
    have hstart := hfollows.start_eq hidle
    rw [htext] at hstart ⊢
    exact congrArg some hstart

/-- Typing with a correction, a group inside of a group, one that comes
to nothing, a row that is replaced, and steps back and on. -/
def revising : List (Document.Edit Char) :=
  [.beginUndoGroup 0 0, .insertChar 0 0 'x', .insertChar 0 1 'y', .deleteChar 0 1,
    .beginUndoGroup 0 0, .insertStrAtChar 1 ['z', '\n'], .endUndoGroup 0 0,
    .beginUndoGroup 0 0, .insertChar 0 0 'w', .deleteChar 0 0, .endUndoGroup 0 0,
    .beginUndoGroup 0 0, .replaceLineText 1 ['q'], .deleteLine 0, .endUndoGroup 0 0,
    .undo, .undo, .redo]

theorem undo_and_redo_exact_sample :
    ∃ s, (machine Char).run (opening ['a', 'b'] "f") revising = some s ∧ s.Exact ∧
      s.doc.rope = ['x', 'z', '\n', 'a', 'b'] ∧ s.past = [['a', 'b']] ∧ s.future = [['q']] := by
  have hrun : ((machine Char).run (opening ['a', 'b'] "f") revising).map
      (fun s => (s.doc.rope, s.past, s.future))
        = some (['x', 'z', '\n', 'a', 'b'], [['a', 'b']], [['q']]) := by decide
  obtain ⟨s, hs, hdata⟩ := Option.map_eq_some_iff.1 hrun
  have hreach : (machine Char).Reaches Disciplined s :=
    .of_run (.start ⟨_, _, rfl⟩) (by decide) hs
  obtain ⟨hrope, htexts⟩ := Prod.mk.inj hdata
  obtain ⟨hpast, hfuture⟩ := Prod.mk.inj htexts
  exact ⟨s, hs, undo_and_redo_exact hreach, hrope, hpast, hfuture⟩

end Timed

end Yaldabaoth
