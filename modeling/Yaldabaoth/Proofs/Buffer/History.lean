import Yaldabaoth.Model.Authorship

/-!
# `Yaldabaoth.Proofs.Buffer.History`: recorded edits and the texts between them

What the operations of a document do to the path that undo goes back
through. Recording an edit, folded into the last one or not, puts one
step in front of the path. A programmatic edit moves the steps. A step
through the history goes along the path, where the path fits the text.
-/

set_option autoImplicit false

namespace Yaldabaoth

open Rope Swaps

variable {α : Type}

/-! ### Moving the recorded edits -/

/-- No splice starts behind the bound of its entry. -/
def UndoEntry.Bounded (entry : UndoEntry α) : Prop := ∀ sp ∈ entry.splices, sp.start ≤ entry.hi

theorem le_foldl_max (starts : List Nat) (base : Nat) :
    base ≤ starts.foldl max base ∧ ∀ start ∈ starts, start ≤ starts.foldl max base := by
  induction starts generalizing base with
  | nil => exact ⟨Nat.le_refl _, nofun⟩
  | cons first rest ih =>
      obtain ⟨hbase, hrest⟩ := ih (max base first)
      refine ⟨Nat.le_trans (Nat.le_max_left _ _) hbase, ?_⟩
      intro start hstart
      rcases List.mem_cons.1 hstart with rfl | hstart
      · exact Nat.le_trans (Nat.le_max_right _ _) hbase
      · exact hrest start hstart

theorem UndoEntry.Bounded.shift {entry : UndoEntry α} (h : entry.Bounded) (pos : Nat)
    (drift : Drift) : (entry.shift pos drift).Bounded := by
  unfold UndoEntry.shift
  split
  · exact h
  · intro sp hsp
    exact (le_foldl_max _ 0).2 _ (List.mem_map_of_mem hsp)

/-- The shortcut for entries in front of the edit changes nothing. -/
theorem swaps_shift {entry : UndoEntry α} (h : entry.Bounded) (pos : Nat) (drift : Drift)
    (dir : HistoryDir) :
    (entry.shift pos drift).swaps dir = (entry.swaps dir).map (Swap.moved (drift.remap pos)) := by
  have hmapped : ({ entry with
      splices := entry.splices.map fun sp => { sp with start := drift.remap pos sp.start } } :
        UndoEntry α).swaps dir = (entry.swaps dir).map (Swap.moved (drift.remap pos)) := by
    cases dir <;>
      simp only [UndoEntry.swaps, UndoEntry.ordered, List.map_map, ← List.map_reverse] <;> rfl
  rw [← hmapped]
  unfold UndoEntry.shift
  split
  · rename_i hfront
    have hsame : (entry.splices.map fun sp => { sp with start := drift.remap pos sp.start })
        = entry.splices := by
      refine (List.map_congr_left fun sp hsp => ?_).trans (List.map_id _)
      have := h sp hsp
      simp [Drift.remap, show sp.start < pos by omega]
    rw [hsame]
  · rfl

theorem remap_inserted (pos count : Nat) : (Drift.inserted count).remap pos = pushed pos count := by
  funext start
  rfl

/-! ### Recording an edit -/

theorem swaps_snoc (entry : UndoEntry α) (splices : List (Splice α)) (sp : Splice α) :
    ({ entry with splices := splices ++ [sp] } : UndoEntry α).swaps .undo
      = sp.swap .undo :: ({ entry with splices } : UndoEntry α).swaps .undo := by
  simp [UndoEntry.swaps, UndoEntry.ordered]

section recording

variable [Glyph α]

/-- What two splices are folded into, and when. -/
theorem coalesce_cases {last merged : Splice α} {start : Nat} {removed inserted : List α}
    (h : coalesceSplice last start removed inserted = some merged) :
    (removed = [] ∧ last.removed = [] ∧ start = last.start + last.inserted.length ∧
      merged = { last with inserted := last.inserted ++ inserted }) ∨
    (inserted = [] ∧ last.inserted = [] ∧ start + removed.length = last.start ∧
      merged = { last with removed := removed ++ last.removed, start }) ∨
    (inserted = [] ∧ last.inserted = [] ∧ start = last.start ∧
      merged = { last with removed := last.removed ++ removed }) ∨
    (inserted = [] ∧ last.removed = [] ∧ last.start ≤ start ∧
      start + removed.length = last.start + last.inserted.length ∧
      merged = { last with
        inserted := last.inserted.take (last.inserted.length - removed.length) }) := by
  unfold coalesceSplice at h
  split at h
  · cases h
  split at h
  · cases h
  split at h
  · -- One more character typed.
    rename_i hadds
    split at h
    · rename_i hnext
      simp only [Bool.and_eq_true, List.isEmpty_iff, beq_iff_eq] at hadds hnext
      exact .inl ⟨hadds.1, hnext.1, hnext.2, (Option.some.inj h).symm⟩
    · cases h
  split at h
  · cases h
  rename_i hdeletes
  have hinserted : inserted = [] := by
    simp only [Bool.or_eq_true, Bool.not_eq_true', not_or, Bool.not_eq_false,
      List.isEmpty_iff] at hdeletes
    exact hdeletes.1
  split at h
  · rename_i hlast
    simp only [Bool.and_eq_true, List.isEmpty_iff] at hlast
    split at h
    · rename_i hfront
      exact .inr (.inl ⟨hinserted, hlast.1, hfront, (Option.some.inj h).symm⟩)
    split at h
    · rename_i hsame
      exact .inr (.inr (.inl ⟨hinserted, hlast.1, hsame, (Option.some.inj h).symm⟩))
    · cases h
  split at h
  · rename_i htail
    simp only [Bool.and_eq_true, List.isEmpty_iff, decide_eq_true_eq] at htail
    exact .inr (.inr (.inr ⟨hinserted, htail.1.1, htail.1.2, htail.2, (Option.some.inj h).symm⟩))
  · cases h

theorem coalesce_start {last merged : Splice α} {start : Nat} {removed inserted : List α}
    (h : coalesceSplice last start removed inserted = some merged) :
    merged.start ≤ last.start := by
  rcases coalesce_cases h with ⟨_, _, _, rfl⟩ | ⟨_, _, hstart, rfl⟩ | ⟨_, _, _, rfl⟩ |
    ⟨_, _, _, _, rfl⟩
  · exact Nat.le_refl _
  · show start ≤ last.start
    omega
  · exact Nat.le_refl _
  · exact Nat.le_refl _

/-- The folded splice leads back to where the two of them led. -/
theorem coalesce_fits {last merged : Splice α} {start : Nat} {removed inserted text text' : List α}
    (h : coalesceSplice last start removed inserted = some merged)
    (hlast : (last.swap .undo).Fits text)
    (hfits : (⟨start, inserted, removed⟩ : Swap α).Fits text')
    (htext : (⟨start, inserted, removed⟩ : Swap α).apply text' = text) :
    (merged.swap .undo).Fits text' ∧
      (merged.swap .undo).apply text' = (last.swap .undo).apply text := by
  obtain ⟨before, after, rfl, hstart⟩ := hfits
  rw [Swap.apply_of_parts _ hstart] at htext
  obtain ⟨u, v, huv, hu⟩ := hlast
  have hlastApply : (last.swap .undo).apply text = u ++ last.removed ++ v := by
    rw [huv, Swap.apply_of_parts _ hu]
    rfl
  rw [hlastApply]
  have hu : u.length = last.start := hu
  have hstart : before.length = start := hstart
  have huv : before ++ removed ++ after = u ++ last.inserted ++ v := htext.trans huv
  -- Each case names the parts of the text for the folded splice.
  suffices hparts : ∃ w x, before ++ inserted ++ after = w ++ merged.inserted ++ x ∧
      w.length = merged.start ∧ w ++ merged.removed ++ x = u ++ last.removed ++ v by
    obtain ⟨w, x, hwx, hw, hresult⟩ := hparts
    refine ⟨⟨w, x, hwx, hw⟩, ?_⟩
    show (merged.swap .undo).apply (before ++ inserted ++ after) = _
    rw [hwx, ← hresult]
    exact Swap.apply_of_parts (merged.swap .undo) hw
  rcases coalesce_cases h with ⟨hremoved, _, hnext, rfl⟩ | ⟨hinserted, hnone, hfront, rfl⟩ |
    ⟨hinserted, hnone, hsame, rfl⟩ | ⟨hinserted, hnone, hle, hends, rfl⟩
  · -- Typed on.
    subst hremoved
    have hlength : before.length = (u ++ last.inserted).length := by
      rw [List.length_append]
      omega
    rw [List.append_nil] at huv
    obtain ⟨rfl, rfl⟩ := List.append_inj huv hlength
    refine ⟨u, after, by simp, hu, rfl⟩
  · -- Deleted what is in front of the last deletion.
    subst hinserted
    rw [hnone, List.append_nil] at huv
    have hlength : (before ++ removed).length = u.length := by
      rw [List.length_append]
      omega
    obtain ⟨rfl, rfl⟩ := List.append_inj huv hlength
    exact ⟨before, after, by simp [hnone], hstart, by simp⟩
  · -- Deleted what is behind it.
    subst hinserted
    rw [hnone, List.append_nil, List.append_assoc] at huv
    obtain ⟨rfl, rfl⟩ := List.append_inj huv (by omega)
    exact ⟨before, after, by simp [hnone], hu, by simp⟩
  · -- Deleted the end of what was typed last.
    subst hinserted
    have hlength : (before ++ removed).length = (u ++ last.inserted).length := by
      simp only [List.length_append]
      omega
    obtain ⟨hfirst, rfl⟩ := List.append_inj huv hlength
    have hbefore : before = u ++ last.inserted.take (last.inserted.length - removed.length) := by
      have htake := congrArg (List.take before.length) hfirst
      rw [List.take_left, List.take_append] at htake
      rw [htake, List.take_of_length_le (by omega)]
      congr 2
      omega
    refine ⟨u, after, ?_, hu, rfl⟩
    show before ++ [] ++ after = _
    rw [List.append_nil, ← hbefore]

/-- One more edit in the entry: from the text after it the way back leads
over the text before it. -/
theorem record_walks {entry : UndoEntry α} {start : Nat} {removed inserted text text' : List α}
    (h : Walks (entry.swaps .undo) text)
    (hfits : (⟨start, inserted, removed⟩ : Swap α).Fits text')
    (htext : (⟨start, inserted, removed⟩ : Swap α).apply text' = text) :
    Walks ((entry.record start removed inserted).swaps .undo) text' ∧
      walk ((entry.record start removed inserted).swaps .undo) text'
        = walk (entry.swaps .undo) text := by
  unfold UndoEntry.record
  split
  · rename_i merged hmerged
    obtain ⟨last, hlast, hmerged⟩ := Option.bind_eq_some_iff.1 hmerged
    have hsplices : entry.splices = entry.splices.dropLast ++ [last] :=
      (List.dropLast_append_getLast? last hlast).symm
    have hentry : entry.swaps .undo = last.swap .undo ::
        ({ entry with splices := entry.splices.dropLast } : UndoEntry α).swaps .undo := by
      rw [← swaps_snoc, ← hsplices]
    rw [hentry] at h ⊢
    obtain ⟨hlast', hrest⟩ := h
    obtain ⟨hmergedFits, hmergedApply⟩ := coalesce_fits hmerged hlast' hfits htext
    rw [← hmergedApply] at hrest
    show _ ∧ _ = walk _ ((last.swap .undo).apply text)
    rw [← hmergedApply]
    split
    · -- The two cancel each other.
      rename_i hnothing
      simp only [Bool.and_eq_true, List.isEmpty_iff] at hnothing
      have hsame : (merged.swap .undo).apply text' = text' := by
        simp [Swap.apply, Splice.swap, Splice.sides, hnothing]
      rw [hsame] at hrest ⊢
      exact ⟨hrest, rfl⟩
    · rw [swaps_snoc]
      exact ⟨⟨hmergedFits, hrest⟩, rfl⟩
  · show Walks (UndoEntry.swaps _ { entry with
        splices := entry.splices ++ [⟨start, removed, inserted⟩] }) text' ∧
      walk (UndoEntry.swaps _ { entry with
        splices := entry.splices ++ [⟨start, removed, inserted⟩] }) text' = _
    rw [swaps_snoc]
    exact ⟨⟨hfits, htext ▸ h⟩, congrArg (walk _) htext⟩

theorem UndoEntry.Bounded.record {entry : UndoEntry α} (h : entry.Bounded) (start : Nat)
    (removed inserted : List α) : (entry.record start removed inserted).Bounded := by
  unfold UndoEntry.record
  split
  · rename_i merged hmerged
    obtain ⟨last, hlast, hmerged⟩ := Option.bind_eq_some_iff.1 hmerged
    have hinit : ∀ sp ∈ entry.splices.dropLast, sp.start ≤ entry.hi :=
      fun sp hsp => h sp (List.dropLast_subset _ hsp)
    split
    · exact hinit
    · intro sp hsp
      rcases List.mem_append.1 hsp with hsp | hsp
      · exact hinit sp hsp
      · obtain rfl := List.mem_singleton.1 hsp
        exact Nat.le_trans (coalesce_start hmerged) (h last (List.mem_of_getLast? hlast))
  · intro sp hsp
    rcases List.mem_append.1 hsp with hsp | hsp
    · exact Nat.le_trans (h sp hsp) (Nat.le_max_left _ _)
    · obtain rfl := List.mem_singleton.1 hsp
      exact Nat.le_max_right _ _

end recording

/-! ### A step through the history -/

theorem remove_insert (sw : Swap α) {text : List α} (h : sw.Fits text) :
    Rope.insert (Rope.remove text sw.start (sw.start + sw.out.length)) sw.start sw.inn
      = sw.apply text := by
  obtain ⟨before, after, rfl, hstart⟩ := h
  have htake : (before ++ sw.out ++ after).take sw.start = before := by
    rw [List.append_assoc, ← hstart, List.take_left]
  have hdrop : (before ++ sw.out ++ after).drop (sw.start + sw.out.length) = after := by
    rw [← hstart, ← List.length_append, List.drop_left]
  rw [Swap.apply_of_parts sw hstart, Rope.remove, htake, hdrop, Rope.insert, ← hstart,
    List.take_left, List.drop_left]

/-- The steps on are the steps back, taken back. -/
theorem swaps_redo (entry : UndoEntry α) : entry.swaps .redo = back (entry.swaps .undo) := by
  simp only [UndoEntry.swaps, UndoEntry.ordered, Swaps.back, List.map_map, List.map_reverse,
    List.reverse_reverse]
  rfl

theorem swaps_undo (entry : UndoEntry α) : entry.swaps .undo = back (entry.swaps .redo) := by
  simp only [UndoEntry.swaps, UndoEntry.ordered, Swaps.back, List.map_map, List.map_reverse]
  rfl

theorem UndoEntry.swaps_congr {entry mirror : UndoEntry α} (h : mirror.splices = entry.splices)
    (dir : HistoryDir) : mirror.swaps dir = entry.swaps dir := by
  cases dir <;> simp [UndoEntry.swaps, UndoEntry.ordered, h]

section replaying

variable [Glyph α]

/-- The text after one splice of a step, whatever there was to take out. -/
theorem applySplice_fst (dir : HistoryDir) (sp : Splice α) (rope : List α)
    (ops : List AnchorShift) :
    let rmEnd := min (sp.start + (sp.sides dir).1.length) rope.length
    let left := Rope.remove rope (min sp.start rmEnd) rmEnd
    (applySplice dir (rope, ops) sp).1
      = Rope.insert left (min sp.start left.length) (sp.sides dir).2 := by
  intro rmEnd left
  by_cases hlt : min sp.start rmEnd < rmEnd
  · by_cases hput : (sp.sides dir).2 = []
    · simp [applySplice, rmEnd, left, hlt, hput, Rope.insert]
    · simp [applySplice, rmEnd, left, hlt, hput]
  · have hsame : left = rope := by
      have heq : min sp.start rmEnd = rmEnd := by omega
      show Rope.remove rope (min sp.start rmEnd) rmEnd = rope
      rw [heq, Rope.remove, List.take_append_drop]
    rw [hsame]
    by_cases hput : (sp.sides dir).2 = []
    · simp [applySplice, rmEnd, hlt, hput, Rope.insert]
    · simp [applySplice, rmEnd, hlt, hput]

/-- A splice that fits is replayed as it was recorded: no end of it has
to be cut. -/
theorem applySplice_rope {dir : HistoryDir} {sp : Splice α} {rope : List α}
    (h : (sp.swap dir).Fits rope) (ops : List AnchorShift) :
    (applySplice dir (rope, ops) sp).1 = (sp.swap dir).apply rope := by
  have hremove := remove_insert _ h
  obtain ⟨before, after, htext, hstart⟩ := h
  have hlength : (sp.swap dir).start + (sp.swap dir).out.length ≤ rope.length := by
    rw [htext, ← hstart]
    simp
  have hend : min (sp.start + (sp.sides dir).1.length) rope.length
      = sp.start + (sp.sides dir).1.length := Nat.min_eq_left hlength
  have hbegin : min sp.start (sp.start + (sp.sides dir).1.length) = sp.start :=
    Nat.min_eq_left (Nat.le_add_right _ _)
  have hpos : min sp.start (Rope.remove rope sp.start (sp.start + (sp.sides dir).1.length)).length
      = sp.start := by
    have : sp.start + (sp.sides dir).1.length ≤ rope.length := hlength
    simp only [Rope.remove, List.length_append, List.length_take, List.length_drop]
    omega
  rw [applySplice_fst, hend, hbegin, hpos, ← hremove]
  rfl

theorem applySplices_rope {entry : UndoEntry α} {dir : HistoryDir} {rope : List α}
    (h : Walks (entry.swaps dir) rope) :
    (applySplices rope entry dir).1 = walk (entry.swaps dir) rope := by
  have key : ∀ (splices : List (Splice α)) (rope : List α) (ops : List AnchorShift),
      Walks (splices.map (Splice.swap dir)) rope →
        (splices.foldl (applySplice dir) (rope, ops)).1
          = walk (splices.map (Splice.swap dir)) rope := by
    intro splices
    induction splices with
    | nil => intro rope ops _; rfl
    | cons sp splices ih =>
        intro rope ops hwalks
        obtain ⟨hfits, hrest⟩ := hwalks
        have hstep := applySplice_rope hfits ops
        rw [← hstep] at hrest
        have hih := ih _ (applySplice dir (rope, ops) sp).2 hrest
        rw [List.foldl_cons, List.map_cons, walk, ← hstep]
        exact hih
  exact key (entry.ordered dir) rope [] h

end replaying

/-! ### What the operations do -/

namespace Document

/-- A push changes the undo stack and where the saved text is on it. -/
theorem pushUndo_frame (d : Document α) (entry : UndoEntry α) :
    ∃ undoStack savedDepth, d.pushUndo entry = { d with undoStack, savedDepth } := by
  have hevict (n : Nat) : ∀ d : Document α,
      ∃ undoStack savedDepth, evictOldest^[n] d = { d with undoStack, savedDepth } := by
    induction n with
    | zero => intro d; exact ⟨d.undoStack, d.savedDepth, rfl⟩
    | succ n ih => intro d; exact ih (evictOldest d)
  exact hevict _ { d with undoStack := entry :: d.undoStack }

/-- The oldest groups are evicted, nothing else changes. -/
theorem pushUndo_fields (d : Document α) (entry : UndoEntry α) :
    (d.pushUndo entry).undoStack = (entry :: d.undoStack).take undoCap ∧
      (d.pushUndo entry).rope = d.rope ∧ (d.pushUndo entry).pendingUndo = d.pendingUndo ∧
      (d.pushUndo entry).redoStack = d.redoStack := by
  have hevict (n : Nat) : ∀ d : Document α,
      (evictOldest^[n] d).undoStack = d.undoStack.take (d.undoStack.length - n) ∧
        (evictOldest^[n] d).rope = d.rope ∧ (evictOldest^[n] d).pendingUndo = d.pendingUndo ∧
        (evictOldest^[n] d).redoStack = d.redoStack := by
    induction n with
    | zero => intro d; simp
    | succ n ih =>
        intro d
        obtain ⟨hstack, hrest⟩ := ih (evictOldest d)
        rw [Function.iterate_succ_apply]
        refine ⟨?_, hrest⟩
        rw [hstack]
        show d.undoStack.dropLast.take (d.undoStack.dropLast.length - n) = _
        rw [List.dropLast_eq_take, List.take_take, List.length_take]
        congr 1
        omega
  obtain ⟨hstack, hrest⟩ := hevict ((entry :: d.undoStack).length - undoCap)
    { d with undoStack := entry :: d.undoStack }
  rw [pushUndo]
  refine ⟨?_, hrest⟩
  rw [hstack]
  show (entry :: d.undoStack).take ((entry :: d.undoStack).length - _) = _
  rcases Nat.le_total undoCap (entry :: d.undoStack).length with hle | hle
  · rw [Nat.sub_sub_self hle]
  · rw [List.take_of_length_le hle, Nat.sub_eq_zero_of_le hle, Nat.sub_zero, List.take_length]

variable [Glyph α]

/-- The document after a step back. -/
theorem undo_fields {d : Document α} {entry : UndoEntry α} {rest : List (UndoEntry α)}
    (hstack : d.undoStack = entry :: rest) :
    d.undo.1.rope = (applySplices d.rope entry .undo).1 ∧ d.undo.1.pendingUndo = d.pendingUndo ∧
      d.undo.1.undoStack = rest ∧
      ∃ mirror : UndoEntry α, d.undo.1.redoStack = mirror :: d.redoStack ∧
        mirror.splices = entry.splices ∧ mirror.hi = entry.hi := by
  rw [Document.undo, Document.historyStep]
  simp only [hstack]
  exact ⟨trivial, trivial, trivial, _, rfl, rfl, rfl⟩

/-- The document after a step on. -/
theorem redo_fields {d : Document α} {entry : UndoEntry α} {rest : List (UndoEntry α)}
    (hstack : d.redoStack = entry :: rest) :
    d.redo.1.rope = (applySplices d.rope entry .redo).1 ∧ d.redo.1.pendingUndo = d.pendingUndo ∧
      d.redo.1.redoStack = rest ∧
      ∃ mirror : UndoEntry α, d.redo.1.undoStack = (mirror :: d.undoStack).take undoCap ∧
        mirror.splices = entry.splices ∧ mirror.hi = entry.hi := by
  rw [Document.redo, Document.historyStep]
  simp only [hstack]
  obtain ⟨hundo, hrope, hpending, hredo⟩ :=
    ({ d with
      rope := (applySplices d.rope entry .redo).1
      pendingEdit := none
      pendingSpliceCount := 2
      redoStack := rest } : Document α).pushUndo_fields
      { entry with cursorBefore := entry.cursorAfter, cursorAfter := entry.cursorBefore }
  generalize Document.pushUndo _ _ = pushed at hundo hrope hpending hredo
  exact ⟨hrope, hpending, hredo, _, hundo, rfl, rfl⟩

/-- An edit of the user: a stretch of the text is replaced, the edit is
recorded in the open group, and there is nothing to redo. -/
def Edited (d d' : Document α) (removed inserted : List α) : Prop :=
  ∃ before after, d.rope = before ++ removed ++ after ∧ d'.rope = before ++ inserted ++ after ∧
    d'.pendingUndo = d.pendingUndo.map (·.record before.length removed inserted) ∧
    d'.undoStack = d.undoStack ∧ d'.redoStack = []

theorem recordSplice_fields (d : Document α) (start removedChars : Nat) (inserted : List α) :
    let d' := d.recordSplice start removedChars inserted
    let s := min start d.rope.length
    let e := min (start + removedChars) d.rope.length
    d'.rope = d.rope ∧ d'.undoStack = d.undoStack ∧
      d'.pendingUndo = d.pendingUndo.map (·.record s (slice d.rope s e) inserted) := by
  intro d' s e
  show (d.recordSplice start removedChars inserted).rope = _ ∧
    (d.recordSplice start removedChars inserted).undoStack = _ ∧
    (d.recordSplice start removedChars inserted).pendingUndo = _
  rw [recordSplice]
  cases hpending : d.pendingUndo with
  | none => simp [notePendingEdit, hpending]
  | some entry => simp [notePendingEdit, hpending, s, e]

/-- What the user types comes in. -/
theorem edited_insert (d : Document α) (start : Nat) (text : List α) :
    d.Edited (({ d.recordSplice start 0 text with
      rope := Rope.insert (d.recordSplice start 0 text).rope start text } : Document α).touch).clearRedo
      [] text := by
  obtain ⟨hrope, hundo, hpending⟩ := d.recordSplice_fields start 0 text
  refine ⟨d.rope.take start, d.rope.drop start, by simp, ?_, ?_, hundo, rfl⟩
  · show Rope.insert (d.recordSplice start 0 text).rope start text = _
    rw [hrope]
    rfl
  · refine hpending.trans ?_
    have hnothing : slice d.rope (min start d.rope.length) (min (start + 0) d.rope.length) = [] := by
      simp [slice]
    rw [hnothing, List.length_take]

/-- What the user deletes goes. -/
theorem edited_delete (d : Document α) {first last : Nat} (hlt : first < last)
    (hlast : last ≤ d.rope.length) :
    d.Edited (({ d.recordSplice first (last - first) [] with
      rope := Rope.remove (d.recordSplice first (last - first) []).rope first last } :
        Document α).touch).clearRedo (slice d.rope first last) [] := by
  obtain ⟨hrope, hundo, hpending⟩ := d.recordSplice_fields first (last - first) []
  have hfirst : min first d.rope.length = first := by omega
  have hend : min (first + (last - first)) d.rope.length = last := by omega
  rw [hfirst, hend] at hpending
  refine ⟨d.rope.take first, d.rope.drop last, ?_, ?_, ?_, hundo, rfl⟩
  · have hsplit : d.rope.take last = d.rope.take first ++ slice d.rope first last := by
      conv_lhs => rw [← List.take_append_drop first (d.rope.take last)]
      rw [List.take_take, Nat.min_eq_left (Nat.le_of_lt hlt)]
      rfl
    rw [← hsplit, List.take_append_drop]
  · show Rope.remove (d.recordSplice first (last - first) []).rope first last = _
    rw [hrope, List.append_nil]
    rfl
  · refine hpending.trans ?_
    rw [List.length_take, hfirst]

theorem edited_deleteRange (d : Document α) (startChar endChar : Nat) :
    d.deleteRange startChar endChar = d ∨
      ∃ removed, d.Edited (d.deleteRange startChar endChar) removed [] := by
  rw [deleteRange]
  by_cases hlt : min startChar d.rope.length < min endChar d.rope.length
  · simp only [hlt, if_true]
    exact .inr ⟨_, d.edited_delete hlt (Nat.min_le_right _ _)⟩
  · simp only [hlt, if_false, true_or]

theorem edited_deleteChar (d : Document α) (line col : Nat) :
    d.deleteChar line col = d ∨ ∃ removed, d.Edited (d.deleteChar line col) removed [] := by
  rw [deleteChar]
  by_cases hlt : lineColToChar d.rope line col < d.rope.length
  · have hedited := d.edited_delete (Nat.lt_add_one (lineColToChar d.rope line col)) hlt
    rw [Nat.add_sub_cancel_left] at hedited
    simp only [hlt, if_true]
    exact .inr ⟨_, hedited⟩
  · simp only [hlt, if_false, true_or]

end Document

end Yaldabaoth
