import Yaldabaoth.Proofs.Buffer.History

/-!
# `Yaldabaoth.Proofs.Buffer.LineEndings`: line breaks from the file and back to it

A file whose line breaks are all CRLF is kept with LF line breaks, and
written with CRLF again, chunk after chunk of the rope. Loading and
saving is the identity, and edits in between leave a file whose line
breaks are all CRLF (`Document.line_endings_round_trip`).
-/

set_option autoImplicit false

namespace Yaldabaoth

open Rope

/-- A character as it is written to a file with CRLF line breaks. -/
def crLf (ch : Char) : List Char := if ch = '\n' then ['\r', '\n'] else [ch]

/-! ### Out of the rope -/

namespace Document

theorem joinCrLf_cons (piece : List Char) (pieces : List (List Char)) :
    joinCrLf (piece :: pieces) = piece ++ pieces.flatMap (['\r', '\n'] ++ ·) := by
  have htail (pieces : List (List Char)) : ∀ k, (pieces.zipIdx (k + 1)).flatMap
      (fun piece => if 0 < piece.2 then ['\r', '\n'] ++ piece.1 else piece.1)
        = pieces.flatMap (['\r', '\n'] ++ ·) := by
    induction pieces with
    | nil => intro k; rfl
    | cons next rest ih =>
        intro k
        rw [List.zipIdx_cons, List.flatMap_cons, List.flatMap_cons, ih (k + 1)]
        show (if 0 < k + 1 then ['\r', '\n'] ++ next else next) ++ _ = _
        rw [if_pos (Nat.succ_pos k)]
  rw [joinCrLf, List.zipIdx_cons, List.flatMap_cons, htail pieces 0]
  rfl

/-- A chunk is split at its line breaks and joined again. -/
theorem joinCrLf_splitOn (chunk : List Char) : joinCrLf (chunk.splitOn '\n') = chunk.flatMap crLf := by
  induction chunk with
  | nil => rfl
  | cons ch rest ih =>
      obtain ⟨piece, pieces, hpieces⟩ := List.exists_cons_of_ne_nil (List.splitOn_ne_nil '\n' rest)
      rw [hpieces, joinCrLf_cons] at ih
      rw [List.splitOn_cons_eq_if_modifyHead, hpieces, List.flatMap_cons, ← ih]
      by_cases hnl : ch = '\n'
      · rw [if_pos (beq_iff_eq.2 hnl), joinCrLf_cons, crLf, if_pos hnl]
        rfl
      · rw [if_neg (fun h => hnl (beq_iff_eq.1 h)), List.modifyHead_cons, joinCrLf_cons, crLf,
          if_neg hnl]
        rfl

/-- However the rope is cut into chunks, the same text is written. -/
theorem writtenText_eq (d : Document Char) {chunks : List (List Char)}
    (hchunks : chunks.flatten = d.rope) : d.writtenText chunks = d.savedText := by
  rw [writtenText, savedText]
  cases d.lineEnding with
  | lf => rfl
  | crLf =>
      show chunks.flatMap _ = d.rope.flatMap crLf
      rw [← hchunks, List.flatten_eq_flatMap, List.flatMap_assoc]
      exact List.flatMap_congr fun chunk _ => joinCrLf_splitOn chunk

end Document

/-! ### Into the rope and out again -/

/-- The line breaks of a text whose line breaks are all CRLF, restored.
A text that starts with a line break has its carriage return in front of
it, where `after` says it is. -/
theorem crLf_dropCrs (text : List Char) : ∀ after, allCrLf after text = true →
    (dropCrs text).flatMap crLf = if text.head? = some '\n' then '\r' :: text else text := by
  induction text using dropCrs.induct with
  | case1 a b rest hboth ih =>
      intro after hall
      have hrest : allCrLf (isCr a) (b :: rest) = true := (Bool.and_eq_true_iff.1 hall).2
      rw [Bool.and_eq_true, isCr, isNl, beq_iff_eq, beq_iff_eq] at hboth
      obtain ⟨ha, hb⟩ := hboth
      change a = '\r' at ha
      change b = '\n' at hb
      subst ha hb
      show (dropCrs ('\n' :: rest)).flatMap crLf = _
      rw [ih _ hrest]
      rfl
  | case2 a b rest hnot ih =>
      intro after hall
      obtain ⟨hhead, hrest⟩ := Bool.and_eq_true_iff.1 hall
      rw [dropCrs, if_neg hnot, List.flatMap_cons, ih _ hrest]
      -- A line break behind `a` would need `a` to be a carriage return.
      have hb : b ≠ '\n' := by
        rintro rfl
        obtain ⟨hcr, -⟩ := Bool.and_eq_true_iff.1 hrest
        rw [Bool.and_eq_true, not_and] at hnot
        rw [Bool.or_eq_true, Bool.not_eq_true'] at hcr
        rcases hcr with hcr | hcr
        · cases hcr
        · exact hnot hcr rfl
      rw [List.head?_cons, List.head?_cons, if_neg (fun h => hb (Option.some.inj h)), crLf]
      by_cases ha : a = '\n'
      · rw [if_pos ha, if_pos (congrArg some ha), ha]
        rfl
      · rw [if_neg ha, if_neg (fun h => ha (Option.some.inj h))]
        rfl
  | case3 text hshort =>
      intro after hall
      rw [dropCrs]
      · rcases text with _ | ⟨a, _ | ⟨b, rest⟩⟩
        · rfl
        · rw [List.flatMap_cons, List.flatMap_nil, List.append_nil, List.head?_cons, crLf]
          by_cases ha : a = '\n'
          · rw [if_pos ha, if_pos (congrArg some ha), ha]
          · rw [if_neg ha, if_neg (fun h => ha (Option.some.inj h))]
        · exact absurd rfl (hshort a b rest)
      · exact hshort

namespace Document

theorem savedText_lf {d : Document Char} (h : d.lineEnding = .lf) : d.savedText = d.rope := by
  rw [savedText, h]

theorem savedText_crLf {d : Document Char} (h : d.lineEnding = .crLf) :
    d.savedText = d.rope.flatMap crLf := by
  rw [savedText, h]
  rfl

theorem savedText_fromText (text : List Char) (filePath : String) :
    (fromText text filePath).savedText = text := by
  by_cases hall : (allCrLf false text && text.any isNl) = true
  · have hnormal : normalizeLineEndings text = (dropCrs text, .crLf) := by
      rw [normalizeLineEndings, if_pos hall]
    have hcr := (Bool.and_eq_true_iff.1 hall).1
    rw [savedText_crLf (congrArg Prod.snd hnormal)]
    show (normalizeLineEndings text).1.flatMap crLf = text
    rw [hnormal]
    refine (crLf_dropCrs text false hcr).trans (if_neg fun hhead => ?_)
    -- The first line break has a carriage return before it.
    cases text with
    | nil => cases hhead
    | cons a rest =>
        obtain rfl := Option.some.inj hhead
        cases hcr
  · have hnormal : normalizeLineEndings text = (text, .lf) := by
      rw [normalizeLineEndings, if_neg hall]
    rw [savedText_lf (congrArg Prod.snd hnormal)]
    exact congrArg Prod.fst hnormal

end Document

/-! ### Where the characters come from -/

section only

variable {α : Type} {p : α → Prop}

def Splice.Only (p : α → Prop) (sp : Splice α) : Prop := ∀ a ∈ sp.removed ++ sp.inserted, p a

def UndoEntry.Only (p : α → Prop) (entry : UndoEntry α) : Prop := ∀ sp ∈ entry.splices, sp.Only p

/-- All characters of the text and of the recorded edits have a property. -/
structure Document.Only (p : α → Prop) (d : Document α) : Prop where
  rope : ∀ a ∈ d.rope, p a
  entries : ∀ entry ∈ d.pendingUndo.toList ++ d.undoStack ++ d.redoStack, entry.Only p

theorem UndoEntry.Only.shift {entry : UndoEntry α} (h : entry.Only p) (pos : Nat) (drift : Drift) :
    (entry.shift pos drift).Only p := by
  unfold UndoEntry.shift
  split
  · exact h
  · intro sp hsp
    obtain ⟨old, hold, rfl⟩ := List.mem_map.1 hsp
    exact h old hold

variable [Glyph α]

theorem coalesce_only {last merged : Splice α} {start : Nat} {removed inserted : List α}
    (h : coalesceSplice last start removed inserted = some merged) (hlast : last.Only p)
    (hnew : ∀ a ∈ removed ++ inserted, p a) : merged.Only p := by
  intro a ha
  have hlast := hlast a
  have hnew := hnew a
  rcases coalesce_cases h with ⟨_, _, _, rfl⟩ | ⟨_, _, _, rfl⟩ | ⟨_, _, _, rfl⟩ | ⟨_, _, _, _, rfl⟩
  · simp only [List.mem_append] at ha hlast hnew
    tauto
  · simp only [List.mem_append] at ha hlast hnew
    tauto
  · simp only [List.mem_append] at ha hlast hnew
    tauto
  · have htake : a ∈ last.inserted.take (last.inserted.length - removed.length) →
      a ∈ last.inserted := List.mem_of_mem_take
    simp only [List.mem_append] at ha hlast
    tauto

theorem UndoEntry.Only.record {entry : UndoEntry α} (h : entry.Only p) {removed inserted : List α}
    (hnew : ∀ a ∈ removed ++ inserted, p a) (start : Nat) :
    (entry.record start removed inserted).Only p := by
  unfold UndoEntry.record
  split
  · rename_i merged hmerged
    obtain ⟨last, hlast, hmerged⟩ := Option.bind_eq_some_iff.1 hmerged
    have hinit : ∀ sp ∈ entry.splices.dropLast, sp.Only p :=
      fun sp hsp => h sp (List.dropLast_subset _ hsp)
    split
    · exact hinit
    · intro sp hsp
      rcases List.mem_append.1 hsp with hsp | hsp
      · exact hinit sp hsp
      · obtain rfl := List.mem_singleton.1 hsp
        exact coalesce_only hmerged (h last (List.mem_of_getLast? hlast)) hnew
  · intro sp hsp
    rcases List.mem_append.1 hsp with hsp | hsp
    · exact h sp hsp
    · obtain rfl := List.mem_singleton.1 hsp
      exact hnew

omit [Glyph α] in
theorem mem_rope_insert {text added : List α} {idx : Nat} {a : α}
    (h : a ∈ Rope.insert text idx added) : a ∈ text ∨ a ∈ added := by
  rw [Rope.insert] at h
  rcases List.mem_append.1 h with h | h
  · rcases List.mem_append.1 h with h | h
    · exact .inl (List.mem_of_mem_take h)
    · exact .inr h
  · exact .inl (List.mem_of_mem_drop h)

omit [Glyph α] in
theorem mem_rope_remove {text : List α} {s e : Nat} {a : α} (h : a ∈ Rope.remove text s e) :
    a ∈ text := by
  rw [Rope.remove] at h
  rcases List.mem_append.1 h with h | h
  · exact List.mem_of_mem_take h
  · exact List.mem_of_mem_drop h

theorem applySplice_only (dir : HistoryDir) {acc : List α × List AnchorShift} {sp : Splice α}
    (hacc : ∀ a ∈ acc.1, p a) (hsp : sp.Only p) : ∀ a ∈ (applySplice dir acc sp).1, p a := by
  have hput : ∀ a ∈ (sp.sides dir).2, p a := by
    intro a ha
    refine hsp a (List.mem_append.2 ?_)
    cases dir with
    | undo => exact .inl ha
    | redo => exact .inr ha
  intro a ha
  obtain ⟨rope, ops⟩ := acc
  rw [applySplice_fst] at ha
  rcases mem_rope_insert ha with ha | ha
  · exact hacc a (mem_rope_remove ha)
  · exact hput a ha

theorem applySplices_only (rope : List α) {entry : UndoEntry α} (dir : HistoryDir)
    (hrope : ∀ a ∈ rope, p a) (hentry : entry.Only p) :
    ∀ a ∈ (applySplices rope entry dir).1, p a := by
  have key (splices : List (Splice α)) : ∀ acc : List α × List AnchorShift,
      (∀ sp ∈ splices, sp.Only p) → (∀ a ∈ acc.1, p a) →
        ∀ a ∈ (splices.foldl (applySplice dir) acc).1, p a := by
    induction splices with
    | nil => intro acc _ hacc; exact hacc
    | cons sp rest ih =>
        intro acc hsplices hacc
        refine ih _ (fun sp' hsp' => hsplices sp' (List.mem_cons_of_mem _ hsp')) ?_
        exact applySplice_only dir hacc (hsplices sp List.mem_cons_self)
  refine key (entry.ordered dir) (rope, []) (fun sp hsp => hentry sp ?_) hrope
  cases dir with
  | undo => exact List.mem_reverse.1 hsp
  | redo => exact hsp

namespace Document

omit [Glyph α] in
/-- The text changes, and one entry at most is new. -/
theorem Only.of_entries {d d' : Document α} (h : d.Only p) (hrope : ∀ a ∈ d'.rope, p a)
    (hentries : ∀ entry ∈ d'.pendingUndo.toList ++ d'.undoStack ++ d'.redoStack,
      entry.Only p ∨ entry ∈ d.pendingUndo.toList ++ d.undoStack ++ d.redoStack) : d'.Only p where
  rope := hrope
  entries entry hentry := by
    rcases hentries entry hentry with hentry | hentry
    · exact hentry
    · exact h.entries entry hentry

theorem Only.recordSplice {d : Document α} (h : d.Only p) (start removedChars : Nat)
    {inserted : List α} (hnew : ∀ a ∈ inserted, p a) {rope : List α} (hrope : ∀ a ∈ rope, p a) :
    ({ d.recordSplice start removedChars inserted with rope } : Document α).Only p := by
  obtain ⟨-, hundo, hpending⟩ := d.recordSplice_fields start removedChars inserted
  have hredo : (d.recordSplice start removedChars inserted).redoStack = d.redoStack := by
    rw [Document.recordSplice]
    cases hpending : d.pendingUndo with
    | none => simp [notePendingEdit, hpending]
    | some entry => simp [notePendingEdit, hpending]
  refine h.of_entries hrope fun entry hentry => ?_
  change entry ∈ (d.recordSplice start removedChars inserted).pendingUndo.toList ++
    (d.recordSplice start removedChars inserted).undoStack ++
    (d.recordSplice start removedChars inserted).redoStack at hentry
  rw [hundo, hpending, hredo] at hentry
  cases hopen : d.pendingUndo with
  | none =>
      rw [hopen] at hentry
      exact .inr hentry
  | some open' =>
      rw [hopen] at hentry
      rcases List.mem_cons.1 hentry with rfl | hentry
      · refine .inl (UndoEntry.Only.record (h.entries open' (by rw [hopen]; exact List.mem_cons_self)) ?_ _)
        intro a ha
        rcases List.mem_append.1 ha with ha | ha
        · exact h.rope a (List.mem_of_mem_take (List.mem_of_mem_drop ha))
        · exact hnew a ha
      · exact .inr (List.mem_cons_of_mem _ hentry)

omit [Glyph α] in
theorem Only.touch_clearRedo {d : Document α} (h : d.Only p) : d.touch.clearRedo.Only p := by
  refine h.of_entries h.rope fun entry hentry => .inr ?_
  change entry ∈ d.pendingUndo.toList ++ d.undoStack ++ [] at hentry
  rw [List.append_nil] at hentry
  exact List.mem_append_left _ hentry

theorem Only.insertion {d : Document α} (h : d.Only p) (idx : Nat) {text : List α}
    (htext : ∀ a ∈ text, p a) : ({ d.recordSplice idx 0 text with
      rope := Rope.insert (d.recordSplice idx 0 text).rope idx text } : Document α).Only p := by
  refine h.recordSplice idx 0 htext fun a ha => ?_
  rw [(d.recordSplice_fields idx 0 text).1] at ha
  rcases mem_rope_insert ha with ha | ha
  · exact h.rope a ha
  · exact htext a ha

theorem Only.removal {d : Document α} (h : d.Only p) (first last count : Nat) :
    ({ d.recordSplice first count [] with
      rope := Rope.remove (d.recordSplice first count []).rope first last } : Document α).Only p := by
  refine h.recordSplice first count (List.forall_mem_nil _) fun a ha => ?_
  rw [(d.recordSplice_fields first count []).1] at ha
  exact h.rope a (mem_rope_remove ha)

theorem Only.deleteRange {d : Document α} (h : d.Only p) (startChar endChar : Nat) :
    (d.deleteRange startChar endChar).Only p := by
  rw [Document.deleteRange]
  dsimp only
  split
  · exact (h.removal _ _ _).touch_clearRedo
  · exact h

omit [Glyph α] in
theorem Only.shifted {d : Document α} (h : d.Only p) (pos : Nat) (drift : Drift) :
    (d.shiftRecordedSplices pos drift).Only p where
  rope := h.rope
  entries entry hentry := by
    change entry ∈ (d.pendingUndo.map fun entry => entry.shift pos drift).toList ++
      d.undoStack.map (fun entry => entry.shift pos drift) ++
      d.redoStack.map (fun entry => entry.shift pos drift) at hentry
    rw [Option.toList_map, ← List.map_append, ← List.map_append] at hentry
    obtain ⟨old, hold, rfl⟩ := List.mem_map.1 hentry
    exact (h.entries old hold).shift pos drift

omit [Glyph α] in
theorem Only.pushUndo {d : Document α} (h : d.Only p) (entry : UndoEntry α) (hentry : entry.Only p) :
    (d.pushUndo entry).Only p := by
  obtain ⟨hundo, hrope, hpending, hredo⟩ := d.pushUndo_fields entry
  refine h.of_entries (fun a ha => h.rope a (hrope ▸ ha)) fun other hother => ?_
  rw [hundo, hpending, hredo] at hother
  rcases List.mem_append.1 hother with hother | hother
  · rcases List.mem_append.1 hother with hother | hother
    · exact .inr (List.mem_append_left _ (List.mem_append_left _ hother))
    · rcases List.mem_cons.1 (List.mem_of_mem_take hother) with rfl | hother
      · exact .inl hentry
      · exact .inr (List.mem_append_left _ (List.mem_append_right _ hother))
  · exact .inr (List.mem_append_right _ hother)

theorem Only.historyStep {d : Document α} (h : d.Only p) (dir : HistoryDir) :
    (d.historyStep dir).1.Only p := by
  cases dir with
  | undo =>
      rw [Document.historyStep]
      cases hstack : d.undoStack with
      | nil => exact h
      | cons entry rest =>
          have hmem : entry ∈ d.pendingUndo.toList ++ d.undoStack ++ d.redoStack := by
            rw [hstack]
            simp
          have hentry := h.entries entry hmem
          refine h.of_entries (applySplices_only d.rope .undo h.rope hentry) fun other hother => ?_
          rcases List.mem_append.1 hother with hother | hother
          · rcases List.mem_append.1 hother with hother | hother
            · exact .inr (List.mem_append_left _ (List.mem_append_left _ hother))
            · refine .inr (List.mem_append_left _ (List.mem_append_right _ ?_))
              rw [hstack]
              exact List.mem_cons_of_mem _ hother
          · rcases List.mem_cons.1 hother with rfl | hother
            · exact .inl hentry
            · exact .inr (List.mem_append_right _ hother)
  | redo =>
      rw [Document.historyStep]
      cases hstack : d.redoStack with
      | nil => exact h
      | cons entry rest =>
          have hentry := h.entries entry (by rw [hstack]; simp)
          have htaken : Document.Only p { d with
              rope := (applySplices d.rope entry .redo).1
              pendingEdit := none
              pendingSpliceCount := 2
              redoStack := rest } := by
            refine h.of_entries (applySplices_only d.rope .redo h.rope hentry)
              fun other hother => .inr ?_
            rcases List.mem_append.1 hother with hother | hother
            · exact List.mem_append_left _ hother
            · refine List.mem_append_right _ ?_
              rw [hstack]
              exact List.mem_cons_of_mem _ hother
          have hpushed := htaken.pushUndo
            { entry with cursorBefore := entry.cursorAfter, cursorAfter := entry.cursorBefore } hentry
          dsimp only
          generalize Document.pushUndo _ _ = pushed at hpushed
          exact ⟨hpushed.rope, hpushed.entries⟩

/-- Characters come into a document through the edits that bring them. -/
theorem Only.apply {d : Document α} (h : d.Only p) (edit : Edit α) (hadded : ∀ a ∈ edit.added, p a) :
    (d.apply edit).Only p := by
  cases edit with
  | insertChar line col ch => exact (h.insertion _ hadded).touch_clearRedo
  | insertStr line col text => exact (h.insertion _ hadded).touch_clearRedo
  | insertStrAtChar charIdx text => exact (h.insertion _ hadded).touch_clearRedo
  | deleteChar line col =>
      show (d.deleteChar line col).Only p
      rw [Document.deleteChar]
      dsimp only
      split
      · exact (h.removal _ _ _).touch_clearRedo
      · exact h
  | deleteRange startChar endChar => exact h.deleteRange startChar endChar
  | deleteLine line =>
      show (d.deleteLine line).Only p
      rw [Document.deleteLine]
      cases d.lineDeleteRange line with
      | none => exact h
      | some range => exact h.deleteRange range.1 range.2
  | replaceLineText line newText =>
      show (d.replaceLineText line newText).Only p
      rw [Document.replaceLineText]
      split
      · exact h
      · refine (Only.insertion ?_ _ hadded).touch_clearRedo
        dsimp only
        split
        · exact h.removal _ _ _
        · exact h
  | insertStrAtCharNoUndo charIdx text =>
      apply Only.shifted
      refine ⟨fun a ha => ?_, h.entries⟩
      rcases mem_rope_insert ha with ha | ha
      · exact h.rope a ha
      · exact hadded a ha
  | deleteRangeNoUndo startChar endChar =>
      show (d.deleteRangeNoUndo startChar endChar).Only p
      rw [Document.deleteRangeNoUndo]
      dsimp only
      split
      · apply Only.shifted
        exact ⟨fun a ha => h.rope a (mem_rope_remove ha), h.entries⟩
      · exact h
  | beginUndoGroup line col =>
      show (d.beginUndoGroup line col).1.Only p
      rw [Document.beginUndoGroup]
      cases hpending : d.pendingUndo with
      | some entry => exact h
      | none =>
          refine h.of_entries h.rope fun entry hentry => ?_
          rcases List.mem_cons.1 hentry with rfl | hentry
          · exact .inl (List.forall_mem_nil _)
          · rw [hpending]
            exact .inr hentry
  | endUndoGroup line col =>
      show (d.endUndoGroup line col).Only p
      rw [Document.endUndoGroup]
      cases hpending : d.pendingUndo with
      | none => exact h
      | some entry =>
          have hclosed : Document.Only p { d with pendingUndo := none } := by
            refine h.of_entries h.rope fun other hother => .inr ?_
            rw [List.append_assoc]
            exact List.mem_append_right _ hother
          have hentry := h.entries entry (by rw [hpending]; exact List.mem_cons_self)
          dsimp only
          split
          · exact hclosed
          · exact hclosed.pushUndo { entry with cursorAfter := (line, col) } hentry
  | undo => exact h.historyStep .undo
  | redo => exact h.historyStep .redo

end Document

end only

namespace Document

/-! ### The kind of the line breaks -/

section kept

variable {α : Type} [Glyph α]

omit [Glyph α] in
theorem lineEnding_pushUndo (d : Document α) (entry : UndoEntry α) :
    (d.pushUndo entry).lineEnding = d.lineEnding ∧ (d.pushUndo entry).modified = d.modified := by
  obtain ⟨undoStack, savedDepth, hpush⟩ := d.pushUndo_frame entry
  rw [hpush]
  exact ⟨rfl, rfl⟩

theorem lineEnding_recordSplice (d : Document α) (start removedChars : Nat) (inserted : List α) :
    (d.recordSplice start removedChars inserted).lineEnding = d.lineEnding := by
  rw [recordSplice]
  cases hpending : d.pendingUndo with
  | none => simp [notePendingEdit, hpending]
  | some entry => simp [notePendingEdit, hpending]

theorem lineEnding_deleteRange (d : Document α) (startChar endChar : Nat) :
    (d.deleteRange startChar endChar).lineEnding = d.lineEnding := by
  rw [deleteRange]
  dsimp only
  split
  · exact lineEnding_recordSplice ..
  · rfl

/-- How the file is written does not change. -/
theorem lineEnding_apply (d : Document α) (edit : Edit α) :
    (d.apply edit).lineEnding = d.lineEnding := by
  cases edit with
  | insertChar line col ch => exact lineEnding_recordSplice ..
  | insertStr line col text => exact lineEnding_recordSplice ..
  | insertStrAtChar charIdx text => exact lineEnding_recordSplice ..
  | deleteChar line col =>
      show (d.deleteChar line col).lineEnding = _
      rw [deleteChar]
      dsimp only
      split
      · exact lineEnding_recordSplice ..
      · rfl
  | deleteRange startChar endChar => exact d.lineEnding_deleteRange startChar endChar
  | deleteLine line =>
      show (d.deleteLine line).lineEnding = _
      rw [deleteLine]
      cases d.lineDeleteRange line with
      | none => rfl
      | some range => exact d.lineEnding_deleteRange range.1 range.2
  | replaceLineText line newText =>
      show (d.replaceLineText line newText).lineEnding = _
      rw [replaceLineText]
      split
      · rfl
      · refine (lineEnding_recordSplice ..).trans ?_
        dsimp only
        split
        · exact lineEnding_recordSplice ..
        · rfl
  | insertStrAtCharNoUndo charIdx text => rfl
  | deleteRangeNoUndo startChar endChar =>
      show (d.deleteRangeNoUndo startChar endChar).lineEnding = _
      rw [deleteRangeNoUndo]
      dsimp only
      split <;> rfl
  | beginUndoGroup line col =>
      show (d.beginUndoGroup line col).1.lineEnding = _
      rw [beginUndoGroup]
      cases d.pendingUndo <;> rfl
  | endUndoGroup line col =>
      show (d.endUndoGroup line col).lineEnding = _
      rw [endUndoGroup]
      cases d.pendingUndo with
      | none => rfl
      | some entry =>
          dsimp only
          split
          · rfl
          · exact (lineEnding_pushUndo _ _).1
  | undo =>
      show d.undo.1.lineEnding = _
      rw [undo, historyStep]
      cases hstack : d.undoStack <;> rfl
  | redo =>
      show d.redo.1.lineEnding = _
      rw [redo, historyStep]
      cases hstack : d.redoStack with
      | nil => rfl
      | cons entry rest =>
          dsimp only
          rw [(lineEnding_pushUndo _ _).1]

end kept

/-! ### Loading, editing, saving -/

/-- What is written with CRLF line breaks has no others. -/
theorem allCrLf_crLf (text : List Char) : ∀ after, allCrLf after (text.flatMap crLf) = true := by
  induction text with
  | nil => intro after; rfl
  | cons a text ih =>
      intro after
      rw [List.flatMap_cons, crLf]
      by_cases ha : a = '\n'
      · rw [if_pos ha]
        exact ih false
      · rw [if_neg ha]
        show ((!isNl a || after) && allCrLf (isCr a) (text.flatMap crLf)) = true
        have hnl : isNl a = false := beq_eq_false_iff_ne.2 ha
        rw [hnl, ih]
        rfl

theorem dropCrs_cons {a : Char} {text : List Char} (h : a = '\r' → text.head? ≠ some '\n') :
    dropCrs (a :: text) = a :: dropCrs text := by
  cases text with
  | nil => rfl
  | cons b rest =>
      rw [dropCrs, if_neg]
      intro hboth
      obtain ⟨ha, hb⟩ := Bool.and_eq_true_iff.1 hboth
      exact h (beq_iff_eq.1 ha) (congrArg some (beq_iff_eq.1 hb))

theorem head_crLf_ne (text : List Char) : (text.flatMap crLf).head? ≠ some '\n' := by
  cases text with
  | nil =>
      intro h
      cases h
  | cons a text =>
      rw [List.flatMap_cons, crLf]
      by_cases ha : a = '\n'
      · rw [if_pos ha]
        intro h
        exact absurd (Option.some.inj h) (by decide)
      · rw [if_neg ha]
        exact fun h => ha (Option.some.inj h)

/-- What is written with CRLF line breaks is read as what it was written
from. -/
theorem dropCrs_crLf (text : List Char) : dropCrs (text.flatMap crLf) = text := by
  induction text with
  | nil => rfl
  | cons a text ih =>
      rw [List.flatMap_cons, crLf]
      by_cases ha : a = '\n'
      · rw [if_pos ha]
        show dropCrs ('\n' :: text.flatMap crLf) = a :: text
        rw [dropCrs_cons (fun h => absurd h (by decide)), ih, ha]
      · rw [if_neg ha]
        show dropCrs (a :: text.flatMap crLf) = a :: text
        rw [dropCrs_cons (fun _ => head_crLf_ne text), ih]

theorem lineEnding_foldl {α : Type} [Glyph α] (edits : List (Edit α)) : ∀ d : Document α,
    (edits.foldl apply d).lineEnding = d.lineEnding := by
  induction edits with
  | nil => intro d; rfl
  | cons edit edits ih => intro d; exact (ih _).trans (d.lineEnding_apply edit)

theorem Only.foldl {α : Type} [Glyph α] {p : α → Prop} (edits : List (Edit α)) :
    ∀ {d : Document α}, d.Only p → (∀ edit ∈ edits, ∀ a ∈ edit.added, p a) →
      (edits.foldl Document.apply d).Only p := by
  induction edits with
  | nil => intro d h _; exact h
  | cons edit edits ih =>
      intro d h hadded
      refine ih (h.apply edit (hadded edit List.mem_cons_self)) ?_
      exact fun edit' hmem => hadded edit' (List.mem_cons_of_mem _ hmem)

theorem only_fromText {α : Type} [Glyph α] {p : α → Prop} {text : List α} {filePath : String}
    (h : ∀ a ∈ (fromText text filePath).rope, p a) : (fromText text filePath).Only p :=
  ⟨h, List.forall_mem_nil _⟩

/-- A text that is loaded and saved is written as it was read, however
the rope cuts it into chunks. A text with CRLF line breaks that is edited
in between is written with CRLF for each line break of the buffer and all
else as it stands there: no line break is written otherwise, and what is
written is read as the buffer. Unless carriage returns were loaded
besides, there are none but those of the line breaks. -/
theorem line_endings_round_trip :
    (∀ (text : List Char) (filePath : String) (chunks : List (List Char)),
      chunks.flatten = (fromText text filePath).rope →
        (fromText text filePath).writtenText chunks = text) ∧
    ∀ (text : List Char) (filePath : String) (edits : List (Edit Char)),
      (fromText text filePath).lineEnding = .crLf → (∀ edit ∈ edits, '\r' ∉ edit.added) →
        let d := edits.foldl apply (fromText text filePath)
        ∀ chunks : List (List Char), chunks.flatten = d.rope →
          d.writtenText chunks = d.rope.flatMap crLf ∧
            allCrLf false (d.writtenText chunks) = true ∧
            dropCrs (d.writtenText chunks) = d.rope ∧
            ('\r' ∉ (fromText text filePath).rope → '\r' ∉ d.rope) := by
  constructor
  · intro text filePath chunks hchunks
    rw [writtenText_eq _ hchunks, savedText_fromText]
  · intro text filePath edits hcrLf hadded d chunks hchunks
    have hending : d.lineEnding = .crLf := (lineEnding_foldl edits _).trans hcrLf
    rw [writtenText_eq d hchunks, savedText_crLf hending]
    refine ⟨rfl, allCrLf_crLf _ false, dropCrs_crLf _, fun hloaded hcr => ?_⟩
    have honly : d.Only (· ≠ '\r') :=
      Only.foldl edits (only_fromText fun a ha => ne_of_mem_of_not_mem ha hloaded)
        fun edit hedit a ha => ne_of_mem_of_not_mem ha (hadded edit hedit)
    exact honly.rope _ hcr rfl

/-- A document that is edited and whose rope parts a line break from what
is in front of it. -/
theorem line_endings_round_trip_sample :
    (fromText ['a', '\r', '\r', '\n', '\r', '\n'] "f").writtenText [['a', '\r'], ['\n', '\n']]
      = ['a', '\r', '\r', '\n', '\r', '\n'] ∧
    (let d := [Edit.insertStr 0 1 ['x', '\n'], .deleteLine 1].foldl apply
      (fromText ['a', '\r', '\n', 'b', '\r', '\n'] "f")
    d.rope = ['a', 'x', '\n', 'b', '\n'] ∧ d.writtenText [['a', 'x', '\n'], ['b', '\n']]
      = ['a', 'x', '\n', 'b', '\n'].flatMap crLf) := by
  refine ⟨line_endings_round_trip.1 _ "f" [['a', '\r'], ['\n', '\n']] (by decide),
    by decide, ?_⟩
  have hrope : ([Edit.insertStr 0 1 ['x', '\n'], .deleteLine 1].foldl apply
      (fromText ['a', '\r', '\n', 'b', '\r', '\n'] "f")).rope = ['a', 'x', '\n', 'b', '\n'] := by
    decide
  have hwritten := (line_endings_round_trip.2 ['a', '\r', '\n', 'b', '\r', '\n'] "f"
    [.insertStr 0 1 ['x', '\n'], .deleteLine 1] (by decide) (by decide)
    [['a', 'x', '\n'], ['b', '\n']] hrope.symm).1
  rw [hrope] at hwritten
  exact hwritten

end Document

end Yaldabaoth
