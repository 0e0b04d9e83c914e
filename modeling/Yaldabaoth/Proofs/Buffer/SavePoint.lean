import Yaldabaoth.Proofs.Buffer.LineEndings
import Yaldabaoth.Proofs.Buffer.Timeline

/-!
# `Yaldabaoth.Proofs.Buffer.SavePoint`: the flag of an unmodified document

The texts along the record stand still while undo and redo go along them:
`past.reverse ++ start :: future` is the same list before and after a
step through the history, and the depth of the undo stack is the place in
it. That is what makes one number enough to remember the text that was
saved (`Document.Remembers`).

What the one number does not notice is a change of the text that the
recorded edits know nothing of. `Filed.clean_flag_wrong` has an undo in
the middle of a group.
-/

set_option autoImplicit false

namespace Yaldabaoth

open Rope Swaps

variable {α : Type} [Glyph α]

/-! ### The depth that was saved -/

namespace Document

omit [Glyph α] in
/-- The saved depth goes down with the group that is evicted. -/
theorem savedDepth_pushUndo {d : Document α} (hkept : d.undoStack.length ≤ undoCap)
    (entry : UndoEntry α) :
    (d.pushUndo entry).savedDepth = if d.undoStack.length < undoCap then d.savedDepth
      else d.savedDepth.bind fun depth => if 0 < depth then some (depth - 1) else none := by
  rw [pushUndo]
  dsimp only
  rw [List.length_cons]
  by_cases hlt : d.undoStack.length < undoCap
  · rw [if_pos hlt, Nat.sub_eq_zero_of_le hlt, Function.iterate_zero_apply]
  · have heq : d.undoStack.length = undoCap := by omega
    rw [if_neg hlt, heq, Nat.add_sub_cancel_left, Function.iterate_one, evictOldest]

/-- What a document remembers of a text that `W` holds of: the depth that
was saved is where such a text is, and an unmodified text is one. -/
structure Remembers (d : Document α) (W : List α → Prop) (start : List α)
    (past future : List (List α)) : Prop where
  follows : d.Follows start past future
  fresh : d.recording = true → future = []
  depth : ∀ k, d.savedDepth = some k →
    ∃ text, (past.reverse ++ start :: future)[k]? = some text ∧ W text
  clean : d.modified = false → W d.rope

section remembers

variable {d : Document α} {W : List α → Prop} {start : List α} {past future : List (List α)}

omit [Glyph α] in
/-- The texts behind a group that is pushed, and the depth that goes with
them. -/
theorem depth_pushUndo (entry : UndoEntry α) (hlength : d.undoStack.length = past.length)
    (hkept : d.undoStack.length ≤ undoCap)
    (hdepth : ∀ k, d.savedDepth = some k →
      ∃ text, (past.reverse ++ start :: future)[k]? = some text ∧ W text) :
    ∀ k, (d.pushUndo entry).savedDepth = some k →
      ∃ text, (((start :: past).take undoCap).reverse ++ future)[k]? = some text ∧ W text := by
  intro k hk
  rw [savedDepth_pushUndo hkept entry] at hk
  by_cases hlt : d.undoStack.length < undoCap
  · rw [if_pos hlt] at hk
    obtain ⟨text, htext, hW⟩ := hdepth k hk
    have hall : (start :: past).take undoCap = start :: past :=
      List.take_of_length_le (by rw [List.length_cons, ← hlength]; exact hlt)
    refine ⟨text, ?_, hW⟩
    rw [hall, List.reverse_cons, List.append_assoc]
    exact htext
  · -- The oldest text is lost, and all others are one place further down.
    have hfull : past.length = undoCap := by omega
    rw [if_neg hlt] at hk
    obtain ⟨depth, hsome, hdown⟩ := Option.bind_eq_some_iff.1 hk
    obtain ⟨hpos, hdown⟩ := Option.ite_none_right_eq_some.1 hdown
    obtain ⟨text, htext, hW⟩ := hdepth depth hsome
    have hreverse : ((start :: past).take undoCap).reverse = (past.reverse ++ [start]).tail := by
      rw [← List.reverse_cons, List.tail_reverse, List.dropLast_eq_take, List.length_cons, hfull,
        Nat.add_sub_cancel]
    have hne : past.reverse ++ [start] ≠ [] :=
      List.append_ne_nil_of_right_ne_nil _ (List.cons_ne_nil _ _)
    refine ⟨text, ?_, hW⟩
    obtain rfl : depth - 1 = k := Option.some.inj hdown
    rw [hreverse, ← List.tail_append_of_ne_nil hne, List.getElem?_tail, Nat.sub_add_cancel hpos,
      List.append_assoc]
    exact htext

omit [Glyph α] in
theorem Remembers.start_idle (h : d.Remembers W start past future) (hidle : d.recording = false) :
    d.Remembers W d.rope past future := by
  obtain rfl := h.follows.start_eq hidle
  exact h

omit [Glyph α] in
/-- An edit in a group. -/
theorem Remembers.logged {mid : Document α} (h : d.Remembers W start past future)
    (hopen : d.undoGroupOpen = true) (hlogged : d.Logged mid) :
    mid.touch.clearRedo.Remembers W start past [] where
  follows := h.follows.logged hopen hlogged
  fresh _ := rfl
  depth k hk := by
    obtain ⟨entry, hentry⟩ := Option.isSome_iff_exists.1 hopen
    obtain ⟨hdepth, -⟩ := hlogged.grouped entry hentry
    obtain ⟨hundos, hredos⟩ := h.follows.lengths
    change (if !mid.redoStack.isEmpty && mid.savedDepth.any fun depth =>
      mid.undoStack.length < depth then none else mid.savedDepth) = some k at hk
    rw [hdepth, hlogged.redoStack, hlogged.undoStack] at hk
    obtain ⟨hkeeps, hk⟩ := Option.ite_none_left_eq_some.1 hk
    obtain ⟨text, htext, hW⟩ := h.depth k hk
    refine ⟨text, ?_, hW⟩
    -- With something to redo, a depth above the undo stack is forgotten.
    have hle : k ≤ past.length := by
      rw [hk, Option.any_some] at hkeeps
      have hbound := (List.getElem?_eq_some_iff.1 htext).1
      rw [List.length_append, List.length_reverse, List.length_cons] at hbound
      cases hstack : d.redoStack with
      | nil =>
          rw [hstack] at hredos
          have : future.length = 0 := hredos.symm
          omega
      | cons next rest =>
          rw [hstack] at hkeeps
          have hnot : ¬ d.undoStack.length < k := by simpa using hkeeps
          omega
    have hshort : k < (past.reverse ++ [start]).length := by
      rw [List.length_append, List.length_reverse, List.length_singleton]
      omega
    have hsplit : past.reverse ++ start :: future = (past.reverse ++ [start]) ++ future := by
      rw [List.append_assoc, List.singleton_append]
    rw [hsplit, List.getElem?_append_left hshort] at htext
    exact htext
  clean hmodified := by cases hmodified

omit [Glyph α] in
/-- A change of the text beside the record, after which the record still
leads through texts. -/
theorem remembers_anew (hreplay : d.Replayable) (hkept : d.undoStack.length ≤ undoCap)
    (hfresh : d.recording = true → d.redoStack = []) (hdepth : d.savedDepth = none)
    (hmodified : d.modified = true) : ∃ start past future, d.Remembers W start past future := by
  obtain ⟨hback, hforth⟩ := hreplay
  obtain ⟨future, hfuture⟩ := visits_of_walks hforth
  rw [undoGroups, List.map_append, List.flatten_append, walks_append] at hback
  obtain ⟨hpending, hback⟩ := hback
  obtain ⟨past, hpast⟩ := visits_of_walks hback
  refine ⟨_, past, future, {
    follows := {
      pending := fun entry hentry => ?_
      closed := fun hnone => ?_
      back := hpast
      forth := hfuture
      kept := hkept }
    fresh := fun hrecording => ?_
    depth := fun k hk => ?_
    clean := fun hclean => ?_ }⟩
  · rw [hentry] at hpending ⊢
    simp only [Option.toList_some, List.map_cons, List.map_nil, List.flatten_cons,
      List.flatten_nil, List.append_nil] at hpending ⊢
    exact ⟨hpending, trivial⟩
  · rw [hnone]
    rfl
  · have hlength := hfuture.length
    rw [redoGroups, hfresh hrecording] at hlength
    exact List.length_eq_zero_iff.1 hlength.symm
  · rw [hdepth] at hk
    cases hk
  · rw [hmodified] at hclean
    cases hclean

omit [Glyph α] in
theorem Remembers.beginGroup (h : d.Remembers W start past future) (line col : Nat) :
    (d.beginUndoGroup line col).1.Remembers W start past future := by
  have hfollows := h.follows.beginGroup line col
  rw [beginUndoGroup] at hfollows ⊢
  cases hpending : d.pendingUndo with
  | some entry => exact h
  | none =>
      rw [hpending] at hfollows
      exact ⟨hfollows, fun hrecording => (by cases hrecording), h.depth, h.clean⟩

omit [Glyph α] in
theorem Remembers.endGroup (h : d.Remembers W start past future) (line col : Nat) :
    ∃ start' past' future', (d.endUndoGroup line col).Remembers W start' past' future' := by
  cases hrecording : d.recording with
  | false =>
      obtain ⟨hdoc, hdrop⟩ := h.follows.dropGroup hrecording line col
      rw [hdoc]
      exact ⟨start, past, future, hdrop, fun hrecording => (by cases hrecording), h.depth, h.clean⟩
  | true =>
      cases hentry : d.pendingUndo with
      | none =>
          rw [recording, hentry] at hrecording
          cases hrecording
      | some entry =>
          obtain rfl := h.fresh hrecording
          rw [d.endUndoGroup_recorded hrecording hentry line col]
          have hpush := h.follows.pushGroup hentry (line, col)
          have hdepth := depth_pushUndo (d := { d with pendingUndo := none })
            { entry with cursorAfter := (line, col) } h.follows.lengths.1 h.follows.kept h.depth
          obtain ⟨-, hrope, hpending, -⟩ :=
            ({ d with pendingUndo := none } : Document α).pushUndo_fields
              { entry with cursorAfter := (line, col) }
          obtain ⟨-, hmodified⟩ := lineEnding_pushUndo ({ d with pendingUndo := none } : Document α)
            { entry with cursorAfter := (line, col) }
          generalize pushUndo _ _ = pushed at hpush hdepth hrope hpending hmodified
          refine ⟨d.rope, _, [], hpush, fun _ => rfl, fun k hk => ?_, fun hclean => ?_⟩
          · obtain ⟨text, htext, hW⟩ := hdepth k hk
            rw [List.append_nil] at htext
            exact ⟨text, List.getElem?_append_left (List.getElem?_eq_some_iff.1 htext).1 ▸ htext, hW⟩
          · rw [hrope]
            exact h.clean (hmodified.symm.trans hclean)

omit [Glyph α] in
/-- After a step through the history the flag says whether the depth is
the one that was saved. -/
theorem clean_of_depth (hlength : d.undoStack.length = past.length) (hstart : start = d.rope)
    (hmodified : d.modified = decide (d.savedDepth ≠ some d.undoStack.length))
    (hdepth : ∀ k, d.savedDepth = some k →
      ∃ text, (past.reverse ++ start :: future)[k]? = some text ∧ W text) :
    d.modified = false → W d.rope := by
  intro hclean
  rw [hmodified] at hclean
  obtain ⟨text, htext, hW⟩ := hdepth _ (not_not.1 (of_decide_eq_false hclean))
  have hreverse : past.reverse.length = past.length := List.length_reverse
  rw [hlength, ← hreverse, List.getElem?_append_right (Nat.le_refl _), Nat.sub_self] at htext
  obtain rfl : start = text := Option.some.inj htext
  exact hstart ▸ hW

theorem undo_flags {entry : UndoEntry α} {rest : List (UndoEntry α)}
    (hstack : d.undoStack = entry :: rest) :
    d.undo.1.savedDepth = d.savedDepth ∧
      d.undo.1.modified = decide (d.undo.1.savedDepth ≠ some d.undo.1.undoStack.length) := by
  rw [undo, historyStep]
  simp only [hstack]
  exact ⟨trivial, trivial⟩

theorem redo_flags {entry : UndoEntry α} {rest : List (UndoEntry α)}
    (hstack : d.redoStack = entry :: rest) (hkept : d.undoStack.length ≤ undoCap) :
    d.redo.1.savedDepth = (d.pushUndo entry).savedDepth ∧
      d.redo.1.modified = decide (d.redo.1.savedDepth ≠ some d.redo.1.undoStack.length) := by
  rw [redo, historyStep]
  simp only [hstack]
  refine ⟨?_, trivial⟩
  rw [savedDepth_pushUndo hkept, savedDepth_pushUndo]
  exact hkept

theorem Remembers.undo (h : d.Remembers W start past future)
    (hidle : d.recording = false ∨ d.undoStack = []) :
    ∃ start' past' future', d.undo.1.Remembers W start' past' future' := by
  cases hstack : d.undoStack with
  | nil =>
      rw [undo_nothing hstack]
      exact ⟨start, past, future, h⟩
  | cons entry rest =>
      have hidle : d.recording = false := by
        refine hidle.resolve_right fun hnil => ?_
        rw [hstack] at hnil
        cases hnil
      have h := h.start_idle hidle
      cases past with
      | nil =>
          have hlength := h.follows.lengths.1
          rw [hstack] at hlength
          cases hlength
      | cons text past =>
          obtain ⟨hrope, hfollows⟩ := h.follows.undo hidle
          obtain ⟨hsaved, hmodified⟩ := undo_flags hstack
          have hdepth : ∀ k, d.undo.1.savedDepth = some k → ∃ saved,
              (past.reverse ++ text :: d.rope :: future)[k]? = some saved ∧ W saved := by
            intro k hk
            rw [hsaved] at hk
            have hfound := h.depth k hk
            rw [List.reverse_cons, List.append_assoc] at hfound
            exact hfound
          refine ⟨text, past, d.rope :: future, hfollows, fun hrecording => ?_, hdepth,
            clean_of_depth hfollows.lengths.1 hrope.symm hmodified hdepth⟩
          rw [recording, undo_pending] at hrecording
          exact absurd (hidle.symm.trans hrecording) Bool.false_ne_true

theorem Remembers.redo (h : d.Remembers W start past future)
    (hidle : d.recording = false ∨ d.redoStack = []) :
    ∃ start' past' future', d.redo.1.Remembers W start' past' future' := by
  cases hstack : d.redoStack with
  | nil =>
      rw [redo_nothing hstack]
      exact ⟨start, past, future, h⟩
  | cons entry rest =>
      have hidle : d.recording = false := by
        refine hidle.resolve_right fun hnil => ?_
        rw [hstack] at hnil
        cases hnil
      have h := h.start_idle hidle
      cases future with
      | nil =>
          have hlength := h.follows.lengths.2
          rw [hstack] at hlength
          cases hlength
      | cons text future =>
          obtain ⟨hrope, hfollows⟩ := h.follows.redo hidle
          obtain ⟨hsaved, hmodified⟩ := redo_flags hstack h.follows.kept
          have hdepth : ∀ k, d.redo.1.savedDepth = some k → ∃ saved,
              (((d.rope :: past).take undoCap).reverse ++ text :: future)[k]? = some saved ∧
                W saved := by
            rw [hsaved]
            exact depth_pushUndo entry h.follows.lengths.1 h.follows.kept h.depth
          refine ⟨text, _, future, hfollows, fun hrecording => ?_, hdepth,
            clean_of_depth hfollows.lengths.1 hrope.symm hmodified hdepth⟩
          rw [recording, redo_pending] at hrecording
          exact absurd (hidle.symm.trans hrecording) Bool.false_ne_true

omit [Glyph α] in
theorem recording_map_shift (pending : Option (UndoEntry α)) (pos : Nat) (drift : Drift) :
    (pending.map fun entry => entry.shift pos drift).any (fun entry => !entry.splices.isEmpty)
      = pending.any fun entry => !entry.splices.isEmpty := by
  cases pending with
  | none => rfl
  | some entry =>
      show (!(entry.shift pos drift).splices.isEmpty) = !entry.splices.isEmpty
      rw [UndoEntry.shift]
      split
      · rfl
      · cases hsplices : entry.splices with
        | nil => rfl
        | cons sp rest => rfl

omit [Glyph α] in
/-- A change of the text by the program, after which the recorded edits
are of use. -/
theorem Remembers.shifted {d' : Document α} {pos : Nat} {drift : Drift}
    (h : d.Remembers W start past future) (hreplay : (d'.shiftRecordedSplices pos drift).Replayable)
    (hpending : d'.pendingUndo = d.pendingUndo) (hundo : d'.undoStack = d.undoStack)
    (hredo : d'.redoStack = d.redoStack) (hdepth : d'.savedDepth = none)
    (hmodified : d'.modified = true) :
    ∃ start' past' future',
      (d'.shiftRecordedSplices pos drift).Remembers W start' past' future' := by
  refine remembers_anew hreplay ?_ ?_ hdepth hmodified
  · show (d'.undoStack.map _).length ≤ undoCap
    rw [List.length_map, hundo]
    exact h.follows.kept
  · intro hrecording
    change (d'.pendingUndo.map _).any _ = true at hrecording
    rw [recording_map_shift, hpending] at hrecording
    have hlength := h.follows.lengths.2
    rw [h.fresh hrecording] at hlength
    show d'.redoStack.map _ = []
    rw [hredo, List.length_eq_zero_iff.1 hlength, List.map_nil]

/-- An edit of the user, grouped or leaving the recorded edits of use. -/
theorem Remembers.typed (h : d.Remembers W start past future) {edit : Edit α}
    (huser : edit.byUser = true) (hkept : d.undoGroupOpen = true ∨ (d.apply edit).Replayable) :
    ∃ start' past' future', (d.apply edit).Remembers W start' past' future' := by
  obtain ⟨hacts, hsame⟩ := d.apply_byUser huser
  cases hact : d.acts edit with
  | false =>
      rw [hsame hact]
      exact ⟨start, past, future, h⟩
  | true =>
      obtain ⟨mid, hlogged, hdoc⟩ := hacts hact
      rw [hdoc] at hkept ⊢
      cases hopen : d.undoGroupOpen with
      | true => exact ⟨start, past, [], h.logged hopen hlogged⟩
      | false =>
          have hreplay := hkept.resolve_left (by rw [hopen]; exact Bool.false_ne_true)
          have hnone : d.pendingUndo = none :=
            Option.isNone_iff_eq_none.1 (Option.isSome_eq_false_iff.1 hopen)
          obtain ⟨-, hdepth⟩ := hlogged.closed hnone
          refine remembers_anew hreplay ?_ (fun _ => rfl) ?_ rfl
          · show mid.undoStack.length ≤ undoCap
            rw [hlogged.undoStack]
            exact h.follows.kept
          · show (if _ then none else mid.savedDepth) = none
            rw [hdepth, ite_self]

end remembers

end Document

/-! ### The flag -/

namespace Filed

/-- A text that would be written as the file is. -/
def Written (s : Filed) (text : List Char) : Prop :=
  ({ s.doc with rope := text } : Document Char).savedText = s.disk

/-- The recorded edits are of use, and what the document remembers of the
file is right. -/
def Sound (s : Filed) : Prop :=
  ∃ start past future, s.doc.Remembers s.Written start past future

theorem Sound.cleanFlag {s : Filed} (h : s.Sound) : s.CleanFlag := by
  obtain ⟨start, past, future, hremembers⟩ := h
  exact hremembers.clean

theorem written_edit (s : Filed) (edit : Document.Edit Char) :
    (s.step (.edit edit)).Written = s.Written := by
  funext text
  show (Document.savedText { s.doc.apply edit with rope := text } = s.disk) = (_ = s.disk)
  have hending := s.doc.lineEnding_apply edit
  rw [Document.savedText, Document.savedText]
  simp only [hending]

theorem sound_opening (text : List Char) (filePath : String) : (opening text filePath).Sound := by
  have hloaded : (opening text filePath).Written (Document.fromText text filePath).rope :=
    Document.savedText_fromText text filePath
  refine ⟨_, [], [], Document.follows_fromText text filePath, fun _ => rfl, fun k hk => ?_,
    fun _ => hloaded⟩
  obtain rfl : 0 = k := Option.some.inj hk
  exact ⟨_, rfl, hloaded⟩

/-- What is saved is the text at the depth of now. -/
theorem Sound.saved {s : Filed} (h : s.Sound) (path : String) :
    Sound { doc := s.doc.savedTo path, disk := s.doc.savedText } := by
  obtain ⟨start, past, future, hremembers⟩ := h
  have hfollows := hremembers.follows
  refine ⟨start, past, future, ?_, hremembers.fresh, fun k hk => ?_, fun _ => rfl⟩
  · exact ⟨hfollows.pending, hfollows.closed, hfollows.back, hfollows.forth, hfollows.kept⟩
  · change (if s.doc.recording then none else some s.doc.undoStack.length) = some k at hk
    obtain ⟨hidle, hk⟩ := Option.ite_none_left_eq_some.1 hk
    obtain rfl := Option.some.inj hk
    obtain rfl := hfollows.start_eq (Bool.eq_false_iff.2 hidle)
    refine ⟨s.doc.rope, ?_, rfl⟩
    rw [hfollows.lengths.1, List.getElem?_append_right (Nat.le_of_eq List.length_reverse),
      List.length_reverse, Nat.sub_self]
    rfl

theorem Sound.step {s : Filed} (h : s.Sound) {action : Action} (hkept : s.Kept action) :
    (s.step action).Sound := by
  cases action with
  | save path succeeds =>
      cases succeeds with
      | true => exact h.saved path
      | false => exact h
  | edit edit =>
      obtain ⟨start, past, future, hremembers⟩ := h
      show ∃ start past future, (s.doc.apply edit).Remembers (s.step (.edit edit)).Written _ _ _
      rw [written_edit]
      cases edit with
      | insertChar line col ch => exact hremembers.typed rfl (hkept.imp_left And.right)
      | insertStr line col text => exact hremembers.typed rfl (hkept.imp_left And.right)
      | insertStrAtChar charIdx text => exact hremembers.typed rfl (hkept.imp_left And.right)
      | deleteChar line col => exact hremembers.typed rfl (hkept.imp_left And.right)
      | deleteRange startChar endChar => exact hremembers.typed rfl (hkept.imp_left And.right)
      | deleteLine line => exact hremembers.typed rfl (hkept.imp_left And.right)
      | replaceLineText line newText => exact hremembers.typed rfl (hkept.imp_left And.right)
      | insertStrAtCharNoUndo charIdx text =>
          have hreplay := hkept.resolve_left fun h => Bool.false_ne_true h.1
          exact hremembers.shifted hreplay rfl rfl rfl rfl rfl
      | deleteRangeNoUndo startChar endChar =>
          have hreplay := hkept.resolve_left fun h => Bool.false_ne_true h.1
          change (s.doc.deleteRangeNoUndo startChar endChar).Replayable at hreplay
          show ∃ start past future,
            (s.doc.deleteRangeNoUndo startChar endChar).Remembers s.Written start past future
          rw [Document.deleteRangeNoUndo] at hreplay ⊢
          dsimp only at hreplay ⊢
          split
          · rename_i hlt
            rw [if_pos hlt] at hreplay
            exact hremembers.shifted hreplay rfl rfl rfl rfl rfl
          · exact ⟨start, past, future, hremembers⟩
      | beginUndoGroup line col => exact ⟨start, past, future, hremembers.beginGroup line col⟩
      | endUndoGroup line col => exact hremembers.endGroup line col
      | undo => exact hremembers.undo hkept
      | redo => exact hremembers.redo hkept

/-- While the recorded edits stay of use, a document that counts as
unmodified has the text of its file. -/
theorem clean_flag_right {s : Filed} (h : machine.Reaches Kept s) : s.CleanFlag := by
  refine Sound.cleanFlag (h.invariant ?_ ?_)
  · rintro s ⟨text, filePath, rfl⟩
    exact sound_opening text filePath
  · intro s action s' hsound hkept hstep
    obtain rfl := Option.some.inj hstep
    exact hsound.step hkept

/-- An edit in a group, an edit of the program behind it, saves that
succeed and that fail, an edit outside of any group behind both, and
steps through the history to the text that was saved. -/
def saving : List Action :=
  [.edit (.beginUndoGroup 0 0), .edit (.insertChar 0 0 'x'), .edit (.endUndoGroup 0 0),
    .edit (.insertStrAtCharNoUndo 2 ['z']), .edit (.insertChar 0 3 'y'), .save "f" true,
    .edit .undo, .save "g" false, .edit .redo]

theorem clean_flag_right_sample :
    ∃ s, machine.run (opening ['a'] "f") saving = some s ∧ s.CleanFlag ∧
      s.doc.modified = false ∧ s.disk = ['x', 'a', 'z', 'y'] := by
  have hrun : (machine.run (opening ['a'] "f") saving).map (fun s => (s.doc.modified, s.disk))
      = some (false, ['x', 'a', 'z', 'y']) := by decide
  obtain ⟨s, hs, hdata⟩ := Option.map_eq_some_iff.1 hrun
  have hreach : machine.Reaches Kept s := .of_run (.start ⟨_, _, rfl⟩) (by decide) hs
  obtain ⟨hmodified, hdisk⟩ := Prod.mk.inj hdata
  exact ⟨s, hs, clean_flag_right hreach, hmodified, hdisk⟩

/-- Undo in the middle of a group. The depth is that of the loaded text,
and what the group has typed so far stands in the text. -/
theorem clean_flag_wrong : ¬ ∀ s, machine.Reachable s → s.CleanFlag := by
  intro h
  have hrun : (machine.run (opening ['a'] "f")
      [.edit (.beginUndoGroup 0 0), .edit (.insertChar 0 1 'b'), .edit (.endUndoGroup 0 2),
        .edit (.beginUndoGroup 0 2), .edit (.insertChar 0 2 'c'), .edit .undo]).map
        (fun s => (s.doc.modified, decide (s.doc.savedText = s.disk))) = some (false, false) := by
    decide
  obtain ⟨s, hs, hdata⟩ := Option.map_eq_some_iff.1 hrun
  obtain ⟨hmodified, hwrong⟩ := Prod.mk.inj hdata
  have hreach : machine.Reachable s := Machine.reachable_of_run ⟨_, _, rfl⟩ hs
  exact of_decide_eq_false hwrong (h s hreach hmodified)

end Filed

end Yaldabaoth
