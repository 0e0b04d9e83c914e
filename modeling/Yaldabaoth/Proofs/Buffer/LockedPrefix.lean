import Yaldabaoth.Proofs.Buffer.Anchors
import Yaldabaoth.Proofs.Buffer.FrozenText
import Yaldabaoth.Proofs.Buffer.History

/-!
# `Yaldabaoth.Proofs.Buffer.LockedPrefix`: what no edit reaches

The rows above the lock are a front of the text that ends where a row
begins. `Document.Keeps` says that the text has this front and that no
recorded edit begins in it. `EditorCore.Locked` adds that the lock stands
at its end and what the gutter shows beside it. The guards compare rows,
the edits cut at characters: `EndsRow` takes the one for the other.
-/

set_option autoImplicit false

namespace Yaldabaoth

open Rope

variable {α μ : Type}

/-! ### A front of a text -/

section fronts

variable [Glyph α] {front text : List α}

omit [Glyph α] in
theorem prefix_insert (h : front <+: text) {idx : Nat} (hidx : front.length ≤ idx)
    (added : List α) : front <+: Rope.insert text idx added := by
  rw [Rope.insert, List.append_assoc]
  exact (List.prefix_take_iff.2 ⟨h, hidx⟩).trans (List.prefix_append _ _)

omit [Glyph α] in
theorem prefix_remove (h : front <+: text) {s : Nat} (hs : front.length ≤ s) (e : Nat) :
    front <+: Rope.remove text s e :=
  (List.prefix_take_iff.2 ⟨h, hs⟩).trans (List.prefix_append _ _)

theorem countNl_front (h : front <+: text) : countNl front ≤ countNl text := h.sublist.countP_le

/-- Behind the front there are the rows behind the front. -/
theorem line_behind (h : front <+: text) {idx : Nat} (hidx : front.length ≤ idx) :
    countNl front ≤ (lineColOfChar text idx).1 :=
  countNl_front (List.prefix_take_iff.2 ⟨h, Nat.le_min.2 ⟨hidx, h.length_le⟩⟩)

theorem lineToChar_front (hrows : EndsRow front) (h : front <+: text) :
    lineToChar text (countNl front) = front.length := by
  obtain ⟨rest, rfl⟩ := h
  have hstart := lineToChar_append hrows rest 0
  rwa [lineToChar_zero] at hstart

/-- A place on a row behind the front is behind it. -/
theorem char_behind (hrows : EndsRow front) (h : front <+: text) {line : Nat}
    (hline : countNl front ≤ line) (col : Nat) : front.length ≤ lineColToChar text line col := by
  have hclamped : countNl front ≤ min line (lenLines text - 1) :=
    Nat.le_min.2 ⟨hline, countNl_front h⟩
  have hstart := lineToChar_mono text hclamped (Nat.min_le_right _ _)
  rw [lineToChar_front hrows h] at hstart
  exact Nat.le_trans hstart (Nat.le_add_right _ _)

/-- A character on a row behind the front is behind it: the front ends
with a line break. -/
theorem front_le_of_line (hrows : EndsRow front) (h : front <+: text) {idx : Nat}
    (hline : countNl front ≤ (lineColOfChar text idx).1) : front.length ≤ idx := by
  obtain ⟨rest, rfl⟩ := h
  rcases hrows with rfl | ⟨init, a, rfl, ha⟩
  · exact Nat.zero_le _
  by_contra hlt
  rw [List.length_append, List.length_singleton, Nat.not_le] at hlt
  have hidx : min idx (init ++ [a] ++ rest).length ≤ init.length := by omega
  have htake : (lineColOfChar (init ++ [a] ++ rest) idx).1 ≤ countNl init := by
    rw [lineColOfChar, charToLine, List.append_assoc, List.take_append_of_le_length
      (by simpa only [List.append_assoc] using hidx)]
    exact countNl_front (List.take_prefix _ _)
  rw [countNl_append, countNl_cons, ha, if_pos rfl] at hline
  omega

theorem line_front (h : front <+: text) {i : Nat} (hi : i < countNl front) :
    line text i = line front i := by
  obtain ⟨rest, rfl⟩ := h
  rw [line, line, lineToChar_append_front front rest hi,
    lineToChar_append_front front rest (Nat.le_of_lt hi),
    List.take_append_of_le_length (lineToChar_le_length _ _)]

theorem endsRow_cons (h : EndsRow front) {a : α} (ha : front = [] → isNl a = true) :
    EndsRow (a :: front) := by
  rcases h with rfl | ⟨init, b, rfl, hb⟩
  · exact .inr ⟨[], a, rfl, ha rfl⟩
  · exact .inr ⟨a :: init, b, rfl, hb⟩

/-- The rows above a row are a front. -/
theorem exists_front (text : List α) {row : Nat} (hrow : row ≤ countNl text) :
    ∃ front, front <+: text ∧ EndsRow front ∧ countNl front = row := by
  induction text generalizing row with
  | nil => exact ⟨[], List.nil_prefix, .inl rfl, (Nat.le_zero.1 hrow).symm⟩
  | cons a text ih =>
      cases row with
      | zero => exact ⟨[], List.nil_prefix, .inl rfl, rfl⟩
      | succ row =>
          rw [countNl_cons] at hrow
          have hrest : (if isNl a then row else row + 1) ≤ countNl text := by
            split at hrow <;> rename_i ha <;> simp only [ha] <;> simpa using hrow
          obtain ⟨front, hfront, hrows, hcount⟩ := ih hrest
          refine ⟨a :: front, List.cons_prefix_cons.2 ⟨rfl, hfront⟩, endsRow_cons hrows fun hnil => ?_, ?_⟩
          · -- without a line break yet, there is more to come
            by_contra ha
            rw [hnil, if_neg ha] at hcount
            cases hcount
          · rw [countNl_cons, hcount]
            split <;> rfl

end fronts

/-! ### The recorded edits -/

/-- No recorded edit of the entry begins in front of `n`. -/
def UndoEntry.Behind (n : Nat) (entry : UndoEntry α) : Prop := ∀ sp ∈ entry.splices, n ≤ sp.start

namespace UndoEntry

variable {n : Nat} {entry : UndoEntry α}

theorem Behind.record [Glyph α] (h : entry.Behind n) {start : Nat} (hstart : n ≤ start)
    (removed inserted : List α) : (entry.record start removed inserted).Behind n := by
  unfold UndoEntry.record
  split
  · rename_i merged hmerged
    obtain ⟨last, hlast, hmerged⟩ := Option.bind_eq_some_iff.1 hmerged
    have hinit : ∀ sp ∈ entry.splices.dropLast, n ≤ sp.start :=
      fun sp hsp => h sp (List.dropLast_subset _ hsp)
    have hback := h last (List.mem_of_getLast? hlast)
    split
    · exact hinit
    · intro sp hsp
      rcases List.mem_append.1 hsp with hsp | hsp
      · exact hinit sp hsp
      · rw [List.mem_singleton.1 hsp]
        rcases coalesce_cases hmerged with ⟨_, _, _, rfl⟩ | ⟨_, _, _, rfl⟩ | ⟨_, _, _, rfl⟩ |
          ⟨_, _, _, _, rfl⟩
        · exact hback
        · exact hstart
        · exact hback
        · exact hback
  · intro sp hsp
    rcases List.mem_append.1 hsp with hsp | hsp
    · exact h sp hsp
    · rw [List.mem_singleton.1 hsp]
      exact hstart

theorem Behind.shift (h : entry.Behind n) {pos : Nat} (hpos : n ≤ pos) (drift : Drift) :
    (entry.shift pos drift).Behind n := by
  unfold UndoEntry.shift
  split
  · exact h
  · intro sp hsp
    obtain ⟨old, hold, rfl⟩ := List.mem_map.1 hsp
    have hstart := h old hold
    show n ≤ drift.remap pos old.start
    unfold Drift.remap
    cases drift <;> grind

end UndoEntry

theorem mem_pushUndo {d : Document α} {entry e : UndoEntry α} (he : e ∈ (d.pushUndo entry).undoStack) :
    e = entry ∨ e ∈ d.undoStack := by
  rw [(d.pushUndo_fields entry).1] at he
  exact List.mem_cons.1 (List.mem_of_mem_take he)

namespace Document

/-- The text has the front, and no step through the history leads into it. -/
structure Keeps (front : List α) (d : Document α) : Prop where
  text : front <+: d.rope
  pending : ∀ entry ∈ d.pendingUndo, entry.Behind front.length
  undos : ∀ entry ∈ d.undoStack, entry.Behind front.length
  redos : ∀ entry ∈ d.redoStack, entry.Behind front.length

variable [Glyph α] {front : List α} {d : Document α}

/-- An edit behind the front is recorded, and there is nothing to redo. -/
theorem Keeps.typed (h : d.Keeps front) {start : Nat} (hstart : front.length ≤ start)
    (removedChars : Nat) (inserted : List α) {rope : List α} (hrope : front <+: rope) :
    (({ d.recordSplice start removedChars inserted with rope } : Document α).touch).clearRedo.Keeps
      front := by
  obtain ⟨-, hundo, hpending⟩ := d.recordSplice_fields start removedChars inserted
  refine ⟨hrope, fun entry hentry => ?_, fun entry hentry => ?_, List.forall_mem_nil _⟩
  · replace hentry : (d.recordSplice start removedChars inserted).pendingUndo = some entry := hentry
    rw [hpending] at hentry
    obtain ⟨old, hold, rfl⟩ := Option.map_eq_some_iff.1 hentry
    exact (h.pending old hold).record (Nat.le_min.2 ⟨hstart, h.text.length_le⟩) _ _
  · replace hentry : entry ∈ (d.recordSplice start removedChars inserted).undoStack := hentry
    rw [hundo] at hentry
    exact h.undos entry hentry

theorem Keeps.insertAt (h : d.Keeps front) {idx : Nat} (hidx : front.length ≤ idx) (text : List α) :
    (({ d.recordSplice idx 0 text with
      rope := Rope.insert (d.recordSplice idx 0 text).rope idx text } : Document α).touch).clearRedo.Keeps
      front := by
  rw [(d.recordSplice_fields idx 0 text).1]
  exact h.typed hidx 0 text (prefix_insert h.text hidx text)

theorem Keeps.removeAt (h : d.Keeps front) {s : Nat} (hs : front.length ≤ s) (count e : Nat) :
    (({ d.recordSplice s count [] with
      rope := Rope.remove (d.recordSplice s count []).rope s e } : Document α).touch).clearRedo.Keeps
      front := by
  rw [(d.recordSplice_fields s count []).1]
  exact h.typed hs count [] (prefix_remove h.text hs e)

theorem Keeps.insertStrAtChar (h : d.Keeps front) {charIdx : Nat} (hidx : front.length ≤ charIdx)
    (text : List α) : (d.insertStrAtChar charIdx text).Keeps front :=
  h.insertAt (Nat.le_min.2 ⟨hidx, h.text.length_le⟩) text

theorem Keeps.deleteRange (h : d.Keeps front) {startChar : Nat} (hs : front.length ≤ startChar)
    (endChar : Nat) : (d.deleteRange startChar endChar).Keeps front := by
  unfold Document.deleteRange
  dsimp only
  split
  · exact h.removeAt (Nat.le_min.2 ⟨hs, h.text.length_le⟩) _ _
  · exact h

theorem Keeps.deleteChar (h : d.Keeps front) {line col : Nat}
    (hidx : front.length ≤ lineColToChar d.rope line col) : (d.deleteChar line col).Keeps front := by
  unfold Document.deleteChar
  dsimp only
  split
  · exact h.removeAt hidx _ _
  · exact h

omit [Glyph α] in
theorem Keeps.shifted (h : d.Keeps front) {pos : Nat} (hpos : front.length ≤ pos) (drift : Drift) :
    (d.shiftRecordedSplices pos drift).Keeps front where
  text := h.text
  pending entry hentry := by
    obtain ⟨old, hold, rfl⟩ := Option.map_eq_some_iff.1 hentry
    exact (h.pending old hold).shift hpos drift
  undos entry hentry := by
    obtain ⟨old, hold, rfl⟩ := List.mem_map.1 hentry
    exact (h.undos old hold).shift hpos drift
  redos entry hentry := by
    obtain ⟨old, hold, rfl⟩ := List.mem_map.1 hentry
    exact (h.redos old hold).shift hpos drift

theorem Keeps.insertNoUndo (h : d.Keeps front) {charIdx : Nat} (hidx : front.length ≤ charIdx)
    (text : List α) : (d.insertStrAtCharNoUndo charIdx text).Keeps front := by
  have hreal : front.length ≤ min charIdx d.rope.length := Nat.le_min.2 ⟨hidx, h.text.length_le⟩
  refine Keeps.shifted ?_ hreal _
  exact ⟨prefix_insert h.text hreal text, h.pending, h.undos, h.redos⟩

theorem Keeps.deleteNoUndo (h : d.Keeps front) {startChar : Nat} (hs : front.length ≤ startChar)
    (endChar : Nat) : (d.deleteRangeNoUndo startChar endChar).Keeps front := by
  have hreal : front.length ≤ min startChar d.rope.length := Nat.le_min.2 ⟨hs, h.text.length_le⟩
  unfold deleteRangeNoUndo
  dsimp only
  split
  · refine Keeps.shifted ?_ hreal _
    exact ⟨prefix_remove h.text hreal _, h.pending, h.undos, h.redos⟩
  · exact h

/-! #### Groups and steps through the history -/

omit [Glyph α] in
theorem Keeps.beginUndoGroup (h : d.Keeps front) (line col : Nat) :
    (d.beginUndoGroup line col).1.Keeps front := by
  unfold Document.beginUndoGroup
  split
  · exact h
  · refine { h with pending := fun entry hentry => ?_ }
    cases hentry
    exact List.forall_mem_nil _

omit [Glyph α] in
theorem Keeps.endUndoGroup (h : d.Keeps front) (line col : Nat) :
    (d.endUndoGroup line col).Keeps front := by
  unfold Document.endUndoGroup
  split
  · exact h
  · rename_i entry hentry
    have hclosed : ({ d with pendingUndo := none } : Document α).Keeps front :=
      { h with pending := fun _ hnone => by cases hnone }
    dsimp only
    split
    · exact hclosed
    · obtain ⟨-, hrope, hpending, hredo⟩ := ({ d with pendingUndo := none } : Document α).pushUndo_fields
        { entry with cursorAfter := (line, col) }
      refine ⟨?_, ?_, fun e he => ?_, ?_⟩
      · rw [hrope]
        exact h.text
      · rw [hpending]
        exact hclosed.pending
      · rcases mem_pushUndo he with rfl | he
        · exact h.pending entry hentry
        · exact h.undos e he
      · rw [hredo]
        exact h.redos

end Document

/-- The line where the lines shift. -/
def AnchorShift.line : AnchorShift → Nat
  | .insert line _ _ => line
  | .delete line _ _ => line

section steps

variable [Glyph α] {front : List α}

/-- One splice of a step changes the text behind the front, and shifts
lines behind it. -/
theorem applySplice_behind (dir : HistoryDir) {sp : Splice α} (hsp : front.length ≤ sp.start)
    {acc : List α × List AnchorShift} (htext : front <+: acc.1)
    (hops : ∀ op ∈ acc.2, countNl front ≤ op.line) :
    front <+: (applySplice dir acc sp).1 ∧
      ∀ op ∈ (applySplice dir acc sp).2, countNl front ≤ op.line := by
  obtain ⟨text, ops⟩ := acc
  have hlength := htext.length_le
  dsimp only at htext hops hlength
  unfold applySplice
  dsimp only
  generalize hmid : (if min sp.start (min (sp.start + (sp.sides dir).1.length) text.length)
      < min (sp.start + (sp.sides dir).1.length) text.length then _ else (text, ops)) = mid
  -- What goes, goes from behind the front.
  have hremoved : front <+: mid.1 ∧ ∀ op ∈ mid.2, countNl front ≤ op.line := by
    rw [← hmid]
    split
    · have hfrom : front.length ≤
          min sp.start (min (sp.start + (sp.sides dir).1.length) text.length) := by omega
      refine ⟨prefix_remove htext hfrom _, fun op hop => ?_⟩
      rcases List.mem_append.1 hop with hop | hop
      · exact hops op hop
      · rw [List.mem_singleton.1 hop]
        exact line_behind htext hfrom
    · exact ⟨htext, hops⟩
  clear hmid
  obtain ⟨text', ops'⟩ := mid
  obtain ⟨htext', hops'⟩ := hremoved
  dsimp only at htext' hops' ⊢
  split
  · exact ⟨htext', hops'⟩
  · have hat : front.length ≤ min sp.start text'.length := Nat.le_min.2 ⟨hsp, htext'.length_le⟩
    refine ⟨prefix_insert htext' hat _, fun op hop => ?_⟩
    rcases List.mem_append.1 hop with hop | hop
    · exact hops' op hop
    · rw [List.mem_singleton.1 hop]
      have hline := line_behind htext' hat
      dsimp only [AnchorShift.line]
      split
      · exact Nat.le_succ_of_le hline
      · exact hline

theorem applySplices_behind {entry : UndoEntry α} (h : entry.Behind front.length)
    {text : List α} (htext : front <+: text) (dir : HistoryDir) :
    front <+: (applySplices text entry dir).1 ∧
      ∀ op ∈ (applySplices text entry dir).2, countNl front ≤ op.line := by
  have key : ∀ (splices : List (Splice α)) (acc : List α × List AnchorShift),
      (∀ sp ∈ splices, front.length ≤ sp.start) → front <+: acc.1 →
      (∀ op ∈ acc.2, countNl front ≤ op.line) →
      front <+: (splices.foldl (applySplice dir) acc).1 ∧
        ∀ op ∈ (splices.foldl (applySplice dir) acc).2, countNl front ≤ op.line := by
    intro splices
    induction splices with
    | nil => exact fun acc _ htext hops => ⟨htext, hops⟩
    | cons sp splices ih =>
        intro acc hsplices htext hops
        obtain ⟨hmid, hshifts⟩ := applySplice_behind dir (hsplices sp List.mem_cons_self) htext hops
        exact ih _ (fun sp' hsp' => hsplices sp' (List.mem_cons_of_mem sp hsp')) hmid hshifts
  refine key (entry.ordered dir) (text, []) (fun sp hsp => h sp ?_) htext (List.forall_mem_nil _)
  cases dir with
  | undo => exact List.mem_reverse.1 hsp
  | redo => exact hsp

namespace Document

variable {d : Document α}

theorem Keeps.undo (h : d.Keeps front) : d.undo.1.Keeps front := by
  cases hstack : d.undoStack with
  | nil =>
      rw [Document.undo, Document.historyStep]
      simp only [hstack]
      exact h
  | cons entry rest =>
      obtain ⟨hrope, hpending, hundo, mirror, hredo, hsplices, -⟩ := undo_fields hstack
      have hundos := h.undos
      rw [hstack, List.forall_mem_cons] at hundos
      refine ⟨?_, ?_, ?_, ?_⟩
      · rw [hrope]
        exact (applySplices_behind hundos.1 h.text .undo).1
      · rw [hpending]
        exact h.pending
      · rw [hundo]
        exact hundos.2
      · rw [hredo, List.forall_mem_cons]
        exact ⟨fun sp hsp => hundos.1 sp (hsplices ▸ hsp), h.redos⟩

theorem Keeps.redo (h : d.Keeps front) : d.redo.1.Keeps front := by
  cases hstack : d.redoStack with
  | nil =>
      rw [Document.redo, Document.historyStep]
      simp only [hstack]
      exact h
  | cons entry rest =>
      obtain ⟨hrope, hpending, hredo, mirror, hundo, hsplices, -⟩ := redo_fields hstack
      have hredos := h.redos
      rw [hstack, List.forall_mem_cons] at hredos
      refine ⟨?_, ?_, fun e he => ?_, ?_⟩
      · rw [hrope]
        exact (applySplices_behind hredos.1 h.text .redo).1
      · rw [hpending]
        exact h.pending
      · rw [hundo] at he
        rcases List.mem_cons.1 (List.mem_of_mem_take he) with rfl | he
        · exact fun sp hsp => hredos.1 sp (hsplices ▸ hsp)
        · exact h.undos e he
      · rw [hredo]
        exact hredos.2

/-- The anchors are shifted behind the front. -/
theorem Keeps.shifts (h : d.Keeps front) (dir : HistoryDir) {line col : Nat}
    {shifts : List AnchorShift} (hstep : (d.historyStep dir).2 = some (line, col, shifts)) :
    ∀ op ∈ shifts, countNl front ≤ op.line := by
  have key : ∀ source : List (UndoEntry α), (∀ entry ∈ source, entry.Behind front.length) →
      ∀ entry rest, source = entry :: rest → ∀ op ∈ (applySplices d.rope entry dir).2,
        countNl front ≤ op.line := by
    rintro _ hback entry rest rfl
    exact (applySplices_behind (hback entry List.mem_cons_self) h.text dir).2
  unfold Document.historyStep at hstep
  cases dir with
  | undo =>
      cases hstack : d.undoStack with
      | nil => simp [hstack] at hstep
      | cons entry rest =>
          simp only [hstack, Option.some.injEq, Prod.mk.injEq] at hstep
          rw [← hstep.2.2]
          exact key _ h.undos entry rest hstack
  | redo =>
      cases hstack : d.redoStack with
      | nil => simp [hstack] at hstep
      | cons entry rest =>
          simp only [hstack, Option.some.injEq, Prod.mk.injEq] at hstep
          rw [← hstep.2.2]
          exact key _ h.redos entry rest hstack

end Document

end steps

/-! ### The core -/

namespace LineAnchorStore

/-- A line whose anchor stays, and to which no other line moves. -/
theorem anchorAt_relocate (st : LineAnchorStore) {keep : Nat → Option Nat}
    (hmono : ∀ i j i' j', i < j → keep i = some i' → keep j = some j' → i' < j') {line : Nat}
    (hkeep : ∀ i, keep i = some line ↔ i = line) :
    (st.relocate keep hmono).anchorAt line = st.anchorAt line := by
  ext a
  rw [anchorAt_eq_some, anchorAt_eq_some]
  show (line, a) ∈ st.byLine.filterMap _ ↔ _
  rw [List.mem_filterMap]
  constructor
  · rintro ⟨p, hp, heq⟩
    obtain ⟨i, hi, heq⟩ := Option.map_eq_some_iff.1 heq
    cases heq
    rw [← (hkeep p.1).1 hi]
    exact hp
  · intro hmem
    refine ⟨(line, a), hmem, ?_⟩
    rw [(hkeep line).2 rfl]
    rfl

theorem insertedLine_above {line effLine : Nat} (h : line < effLine) (effCol nl i : Nat) :
    some (insertedLine effLine effCol nl i) = some line ↔ i = line := by
  unfold insertedLine
  grind

theorem deletedLine_above {line startLine : Nat} (h : line < startLine) (startCol nl i : Nat) :
    deletedLine startLine startCol nl i = some line ↔ i = line := by
  unfold deletedLine
  grind

end LineAnchorStore

theorem lookup_filter_kept {κ : Type} [BEq κ] [LawfulBEq κ] (keep : κ → Bool) (l : List (κ × μ))
    {k : κ} (hk : keep k = true) : (l.filter fun p => keep p.1).lookup k = l.lookup k := by
  induction l with
  | nil => rfl
  | cons e l ih =>
      rw [List.filter_cons]
      split
      · rw [List.lookup_cons, List.lookup_cons, ih]
      · next hdropped =>
        have hne : (k == e.1) = false := beq_false_of_ne fun heq => hdropped (heq ▸ hk)
        rw [List.lookup_cons, hne, ih]

namespace EditorCore

variable [Glyph α] {front : List α} {gutter : Nat → Option μ} {core : EditorCore α μ}

structure Locked (front : List α) (gutter : Nat → Option μ) (core : EditorCore α μ) : Prop where
  rows : EndsRow front
  lock : core.lockableThroughLine = countNl front
  document : core.document.Keeps front
  gutter : ∀ i, i < countNl front → core.lineMeta i = gutter i

theorem Locked.withDocument (h : core.Locked front gutter) {document : Document α}
    (hdocument : document.Keeps front) : ({ core with document }).Locked front gutter :=
  { h with document := hdocument }

/-! #### Shifts behind the lock -/

theorem Locked.shiftFrozenAt (h : core.Locked front gutter) {effLine : Nat}
    (hline : countNl front ≤ effLine) (effCol nl : Nat) :
    (core.shiftFrozenAt effLine effCol nl).Locked front gutter where
  rows := h.rows
  lock := by
    show (if effLine < core.lockableThroughLine then _ else core.lockableThroughLine) = _
    rw [if_neg (by rw [h.lock]; omega), h.lock]
  document := h.document
  gutter i hi := by
    rw [← h.gutter i hi]
    show ((core.lineAnchors.shiftForInsert effLine effCol nl).anchorAt i).bind _ = _
    rw [LineAnchorStore.shiftForInsert, LineAnchorStore.anchorAt_relocate _ _
      (LineAnchorStore.insertedLine_above (Nat.lt_of_lt_of_le hi hline) effCol nl)]
    rfl

theorem Locked.shiftFrozenForDeleteAt (h : core.Locked front gutter) {startLine : Nat}
    (hline : countNl front ≤ startLine) (startCol nl : Nat) :
    (core.shiftFrozenForDeleteAt startLine startCol nl).Locked front gutter := by
  unfold EditorCore.shiftFrozenForDeleteAt
  split
  · exact h
  · refine ⟨h.rows, ?_, h.document, fun i hi => ?_⟩
    · dsimp only
      rw [if_neg (by rw [h.lock]; omega), h.lock]
    · have habove := LineAnchorStore.deletedLine_above (Nat.lt_of_lt_of_le hi hline) startCol nl
      rw [← h.gutter i hi]
      show ((core.lineAnchors.shiftForDelete startLine startCol nl).anchorAt i).bind
        (fun a => List.lookup a _) = (core.lineAnchors.anchorAt i).bind _
      rw [LineAnchorStore.shiftForDelete, LineAnchorStore.anchorAt_relocate _ _ habove]
      cases hanchor : core.lineAnchors.anchorAt i with
      | none => rfl
      | some a =>
          -- The anchor is on this line only, so it is not dropped.
          refine lookup_filter_kept (fun a => !(core.lineAnchors.droppedByDelete startLine startCol nl).contains a)
            core.lineMetadata ?_
          rw [Bool.not_eq_true', List.contains_eq_mem, decide_eq_false_iff_not]
          intro hmem
          obtain ⟨p, hp, heq⟩ := List.mem_map.1 hmem
          obtain ⟨hp, hgone⟩ := List.mem_filter.1 hp
          have hline := core.lineAnchors.injective p hp _
            (LineAnchorStore.anchorAt_eq_some.1 hanchor) heq
          rw [hline, (habove i).2 rfl] at hgone
          cases hgone

theorem Locked.shiftForInsert (h : core.Locked front gutter) {line : Nat}
    (hline : countNl front ≤ line) (col : Nat) (text : List α) :
    (core.shiftFrozenLinesForInsert line col text).Locked front gutter := by
  unfold shiftFrozenLinesForInsert
  dsimp only
  split
  · exact h
  · split
    · exact h.shiftFrozenAt (Nat.le_succ_of_le hline) _ _
    · exact h.shiftFrozenAt hline _ _

theorem Locked.shiftForTyped (h : core.Locked front gutter) {line : Nat}
    (hline : countNl front ≤ line) (col : Nat) (text : List α) :
    (core.shiftFrozenLinesForTypedInsert line col text).Locked front gutter := by
  unfold shiftFrozenLinesForTypedInsert
  dsimp only
  split
  · exact h
  · split
    · exact h.shiftFrozenAt (Nat.le_succ_of_le hline) _ _
    · exact h.shiftFrozenAt hline _ _

theorem Locked.shiftForDelete (h : core.Locked front gutter) {delS : Nat}
    (hs : front.length ≤ delS) (delE : Nat) :
    (core.shiftFrozenLinesForDelete delS delE).Locked front gutter := by
  unfold shiftFrozenLinesForDelete
  dsimp only
  split
  · exact h
  · split
    · exact h
    · exact h.shiftFrozenForDeleteAt (line_behind h.document.text hs) _ _

theorem Locked.applyAnchorShifts (h : core.Locked front gutter) {shifts : List AnchorShift}
    (hshifts : ∀ op ∈ shifts, countNl front ≤ op.line) :
    (core.applyAnchorShifts shifts).Locked front gutter := by
  have hfold : (shifts.foldl applyAnchorShift core).Locked front gutter := by
    induction shifts generalizing core with
    | nil => exact h
    | cons op shifts ih =>
        obtain ⟨hop, hrest⟩ := List.forall_mem_cons.1 hshifts
        refine ih ?_ hrest
        cases op with
        | insert line col nl =>
            show (if 0 < nl then core.shiftFrozenAt line col nl else core).Locked front gutter
            split
            · exact h.shiftFrozenAt hop col nl
            · exact h
        | delete line col nl => exact h.shiftFrozenForDeleteAt hop col nl
  exact ⟨hfold.rows, hfold.lock, hfold.document, hfold.gutter⟩

/-! #### The guards -/

theorem Locked.line_of_insert (h : core.Locked front gutter) {line col : Nat} {ch : α}
    (hcan : core.canInsertCharAt line col ch = true) : countNl front ≤ line := by
  rw [← h.lock]
  by_contra hlt
  rw [canInsertCharAt, if_pos (Nat.lt_of_not_le hlt)] at hcan
  cases hcan

theorem Locked.char_of_delete (h : core.Locked front gutter) {delS delE : Nat} (hlt : delS < delE)
    (hcan : core.canDeleteRange delS delE = true) : front.length ≤ delS := by
  refine front_le_of_line h.rows h.document.text ?_
  rw [← h.lock]
  by_contra hlock
  rw [canDeleteRange] at hcan
  dsimp only at hcan
  rw [if_neg (Nat.not_le_of_lt hlt), if_pos (Nat.lt_of_not_le hlock)] at hcan
  cases hcan

theorem Locked.char_at (h : core.Locked front gutter) {line : Nat} (hline : countNl front ≤ line)
    (col : Nat) : front.length ≤ lineColToChar core.document.rope line col :=
  char_behind h.rows h.document.text hline col

end EditorCore

/-! ### The editor -/

namespace Editor

variable [Glyph α] {front : List α} {gutter : Nat → Option μ} {ed : Editor α μ}

section edits

variable (h : ed.core.Locked front gutter)

include h

theorem openGroup_locked : ed.openGroup.1.core.Locked front gutter :=
  h.withDocument (h.document.beginUndoGroup _ _)

theorem endGroup_locked : ed.endGroup.core.Locked front gutter :=
  h.withDocument (h.document.endUndoGroup _ _)

theorem grouped_locked {f : Editor α μ → Editor α μ}
    (hf : ∀ ed : Editor α μ, ed.core.Locked front gutter → (f ed).core.Locked front gutter) :
    (ed.grouped f).core.Locked front gutter := by
  have hinside := hf _ (openGroup_locked h)
  show (if ed.openGroup.2 then (f ed.openGroup.1).endGroup else f ed.openGroup.1).core.Locked front gutter
  split
  · exact endGroup_locked hinside
  · exact hinside

theorem cut_locked {delS : Nat} (hs : front.length ≤ delS) (delE : Nat) :
    (ed.cut delS delE).core.Locked front gutter :=
  (h.shiftForDelete hs delE).withDocument ((h.shiftForDelete hs delE).document.deleteRange hs delE)

theorem put_locked {line : Nat} (hline : countNl front ≤ line) (col : Nat) (ch : α) :
    (ed.put line col ch).core.Locked front gutter := by
  have hshift := h.shiftForInsert hline col [ch]
  exact hshift.withDocument (hshift.document.insertAt (hshift.char_at hline col) [ch])

theorem deleteChars_locked (delS delE : Nat) : (ed.deleteChars delS delE).1.core.Locked front gutter := by
  unfold deleteChars
  split
  · exact h
  · next hreal =>
    obtain ⟨hlt, hcan⟩ := not_or.1 hreal
    exact cut_locked h (h.char_of_delete (Nat.lt_of_not_le hlt) (Bool.eq_true_of_not_eq_false hcan)) delE

theorem insertChar_locked (ch : α) : (ed.insertChar ch).core.Locked front gutter := by
  unfold insertChar
  dsimp only
  split
  · exact h
  · next hcan =>
    rw [Bool.not_eq_true', Bool.not_eq_false] at hcan
    have hput := put_locked h (h.line_of_insert hcan) ed.view.cursor.col ch
    split
    · exact hput
    · exact hput

omit h in
theorem typed_locked (text : List α) : ∀ {ed : Editor α μ}, ed.core.Locked front gutter →
    (text.foldl insertChar ed).core.Locked front gutter := by
  induction text with
  | nil => exact id
  | cons ch text ih => exact fun h => ih (insertChar_locked h ch)

theorem insertStr_locked (text : List α) : (ed.insertStr text).core.Locked front gutter := by
  unfold insertStr
  split
  · exact h
  dsimp only
  split
  · exact typed_locked text h
  · next hopen =>
    -- The run is guarded once, by its line.
    have hline : countNl front ≤ ed.view.cursor.line := by
      rw [← h.lock]
      exact Nat.le_of_not_lt (not_or.1 hopen).1
    have hshift := h.shiftForTyped hline ed.view.cursor.col text
    exact hshift.withDocument (hshift.document.insertStrAtChar (h.char_at hline _) text)

theorem deleteUnderCaret_locked (insertMode : Bool) :
    (ed.deleteUnderCaret insertMode).core.Locked front gutter := by
  unfold deleteUnderCaret
  dsimp only
  split
  · exact h
  · exact grouped_locked h fun ed h => deleteChars_locked h _ _

theorem replaceCharAtCursor_locked (ch : α) : (ed.replaceCharAtCursor ch).core.Locked front gutter := by
  unfold replaceCharAtCursor
  dsimp only
  split
  · exact h
  split
  · exact h
  · next hguards =>
    obtain ⟨-, hinsert⟩ := not_or.1 hguards
    have hline := h.line_of_insert (Bool.eq_true_of_not_eq_false hinsert)
    refine grouped_locked h fun ed' h' => ?_
    have hshift := h'.shiftForDelete (h.char_at hline ed.view.cursor.col)
      (lineColToChar ed.rope ed.view.cursor.line ed.view.cursor.col + 1)
    have hcut := hshift.withDocument (hshift.document.deleteChar (hshift.char_at hline ed.view.cursor.col))
    show (Editor.put { ed' with core := { EditorCore.shiftFrozenLinesForDelete _ _ _ with document := _ } }
      _ _ ch).core.Locked front gutter
    exact put_locked hcut hline _ ch

theorem deleteCurrentLine_locked : ed.deleteCurrentLine.core.Locked front gutter := by
  unfold deleteCurrentLine
  split
  · exact h
  · split
    · exact h
    · exact grouped_locked h fun ed h => deleteChars_locked h _ _

theorem opened_locked {line col : Nat} {nl : α}
    (hcan : ¬ (!ed.core.canInsertCharAt line col nl) = true) :
    (ed.openGroup.1.put line col nl).core.Locked front gutter := by
  rw [Bool.not_eq_true', Bool.not_eq_false] at hcan
  exact put_locked (openGroup_locked h) (h.line_of_insert hcan) col nl

theorem openLineBelow_locked (nl : α) : (ed.openLineBelow nl).core.Locked front gutter := by
  unfold openLineBelow
  dsimp only
  split
  · exact h
  · next hcan => exact opened_locked h hcan

theorem openLineAbove_locked (nl : α) : (ed.openLineAbove nl).core.Locked front gutter := by
  unfold openLineAbove
  dsimp only
  split
  · exact h
  · next hcan => exact opened_locked h hcan

theorem deleteSelection_locked : ed.deleteSelection.1.core.Locked front gutter := by
  unfold deleteSelection
  split
  · exact h
  · next start stop _ =>
    dsimp only
    generalize (if start = stop ∧ start < ed.rope.length then start + 1 else stop) = stop
    split
    · exact h
    · next hreal =>
      obtain ⟨hlt, hcan⟩ := not_or.1 hreal
      have hs := h.char_of_delete (Nat.lt_of_not_le hlt) (Bool.eq_true_of_not_eq_false hcan)
      have hcleared : ({ ed with view := { ed.view with selectionAnchor := none } } :
          Editor α μ).core.Locked front gutter := h
      exact grouped_locked hcleared fun ed h => cut_locked h hs stop

theorem historyStep_locked (dir : HistoryDir) : (ed.historyStep dir).core.Locked front gutter := by
  have hkeeps : (ed.core.document.historyStep dir).1.Keeps front := by
    cases dir with
    | undo => exact h.document.undo
    | redo => exact h.document.redo
  unfold historyStep
  split
  · exact h
  · next document line col shifts hstep =>
    rw [hstep] at hkeeps
    exact (h.withDocument hkeeps).applyAnchorShifts (h.document.shifts dir (congrArg Prod.snd hstep))

omit h in
theorem replaceCharUndoable_locked {core : EditorCore α μ} (h : core.Locked front gutter)
    (charIdx : Nat) (ch : α) : (core.replaceCharUndoable charIdx ch).1.Locked front gutter := by
  unfold EditorCore.replaceCharUndoable
  dsimp only
  split
  · exact h
  split
  · exact h
  · next hguards =>
    rw [Bool.or_eq_true, not_or, Bool.not_eq_true', Bool.not_eq_true', Bool.not_eq_false,
      Bool.not_eq_false] at hguards
    have hline := h.line_of_insert hguards.2
    generalize lineColOfChar core.document.rope charIdx = pos at hline
    have hopened := h.document.beginUndoGroup pos.1 pos.2
    have hdeleted := hopened.deleteChar (char_behind h.rows hopened.text hline pos.2)
    have hput := hdeleted.insertAt (char_behind h.rows hdeleted.text hline pos.2) [ch]
    refine h.withDocument ?_
    split
    · exact hput.endUndoGroup _ _
    · exact hput

theorem programmaticInsert_locked {charIdx : Nat} (hidx : front.length ≤ charIdx) (text : List α) :
    (ed.programmaticInsert charIdx text).core.Locked front gutter := by
  have hshift := h.shiftForInsert (line_behind h.document.text hidx)
    (lineColOfChar ed.core.document.rope charIdx).2 text
  have hcore : (ed.programmaticInsert charIdx text).core = ed.core.programmaticInsert charIdx text := by
    unfold programmaticInsert spliceInsert
    dsimp only
    split <;> split <;> try split
    all_goals rfl
  rw [hcore]
  exact hshift.withDocument (hshift.document.insertNoUndo hidx text)

theorem programmaticDelete_locked {delS : Nat} (hs : front.length ≤ delS) (delE : Nat) :
    (ed.programmaticDelete delS delE).core.Locked front gutter := by
  have hcore : (ed.programmaticDelete delS delE).core = ed.core.programmaticDelete delS delE := by
    unfold programmaticDelete spliceDelete
    dsimp only
    split <;> rfl
  rw [hcore]
  unfold EditorCore.programmaticDelete
  dsimp only
  split
  · exact h
  · have hreal := Nat.le_min.2 ⟨hs, h.document.text.length_le⟩
    have hshift := h.shiftForDelete hreal (min delE ed.core.document.rope.length)
    exact hshift.withDocument (hshift.document.deleteNoUndo hreal _)

end edits

/-- Where an edit of the program begins. -/
def Act.programStart? : Act α → Option Nat
  | .programmaticInsert charIdx _ => some charIdx
  | .programmaticDelete delS _ => some delS
  | _ => none

/-- The program edits behind the lock. -/
def Allowed (ed : Editor α μ) (act : Act α) : Prop :=
  ∀ start ∈ act.programStart?, lineToChar ed.rope ed.core.lockableThroughLine ≤ start

instance (ed : Editor α μ) (act : Act α) : Decidable (ed.Allowed act) :=
  inferInstanceAs (Decidable (∀ start ∈ act.programStart?, _))

theorem perform_locked (h : ed.core.Locked front gutter) {act : Act α} (hallowed : ed.Allowed act) :
    (ed.perform act).core.Locked front gutter := by
  have hstart : lineToChar ed.rope ed.core.lockableThroughLine = front.length := by
    rw [h.lock]
    exact lineToChar_front h.rows h.document.text
  cases act with
  | view cursor selectionAnchor => exact h
  | beginInsert =>
      have hview : ({ ed with view := { ed.view with inInsertMode := true } } : Editor α μ).core.Locked
          front gutter := h
      exact openGroup_locked hview
  | endInsert =>
      have hview : ({ ed with view := { ed.view with inInsertMode := false } } : Editor α μ).core.Locked
          front gutter := h
      exact endGroup_locked hview
  | insertChar ch => exact insertChar_locked h ch
  | insertStr text => exact insertStr_locked h text
  | pasteStr text =>
      show (if text.isEmpty then ed else ed.grouped fun ed => ed.insertStr text).core.Locked front gutter
      split
      · exact h
      · exact grouped_locked h fun ed h => insertStr_locked h text
  | backspace =>
      show (Editor.backspace ed).core.Locked front gutter
      unfold backspace
      dsimp only
      split
      · exact h
      · exact deleteChars_locked h _ _
  | deleteBackInLine n =>
      show (Editor.deleteBackInLine ed n).core.Locked front gutter
      unfold deleteBackInLine
      dsimp only
      split
      · exact h
      · exact deleteChars_locked h _ _
  | deleteCharAtCursor => exact deleteUnderCaret_locked h false
  | deleteForwardInInsert => exact deleteUnderCaret_locked h true
  | replaceCharAtCursor ch => exact replaceCharAtCursor_locked h ch
  | replaceCharUndoable charIdx ch => exact replaceCharUndoable_locked h charIdx ch
  | deleteCurrentLine => exact deleteCurrentLine_locked h
  | openLineBelow nl => exact openLineBelow_locked h nl
  | openLineAbove nl => exact openLineAbove_locked h nl
  | deleteSelection => exact deleteSelection_locked h
  | undo => exact historyStep_locked h .undo
  | redo => exact historyStep_locked h .redo
  | programmaticInsert charIdx text => exact programmaticInsert_locked h (hstart ▸ hallowed _ rfl) text
  | programmaticDelete delS delE => exact programmaticDelete_locked h (hstart ▸ hallowed _ rfl) delE

theorem run_locked {acts : List (Act α)} {ed' : Editor α μ} (h : ed.core.Locked front gutter)
    (hobeys : (editing α μ).Obeys Allowed ed acts) (hrun : (editing α μ).run ed acts = some ed') :
    ed'.core.Locked front gutter := by
  induction acts generalizing ed with
  | nil =>
      cases hrun
      exact h
  | cons act acts ih =>
      obtain ⟨hallowed, hrest⟩ := hobeys
      exact ih (perform_locked h hallowed) (hrest _ rfl) hrun

/-- A first line that is locked, and a caret on it. -/
def lockedEditor : Editor Char Nat :=
  ⟨(EditorCore.new ['a', '\n', 'b'] "").setLockableThroughLine 1, ⟨⟨0, 0⟩, none, false⟩⟩

/-- Typed on both lines, taken back across their border, and written between. -/
def typingRun : List (Act Char) :=
  [.insertChar 'x', .view ⟨1, 0⟩ none, .beginInsert, .backspace, .insertChar 'y', .insertChar '\n',
    .endInsert, .programmaticInsert 2 ['z'], .undo, .redo, .deleteCurrentLine]

end Editor

end Yaldabaoth
