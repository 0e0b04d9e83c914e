import Yaldabaoth.Proofs.Buffer.History
import Yaldabaoth.Proofs.Buffer.Rows

/-!
# `Yaldabaoth.Proofs.Buffer.ParseEdits`: the edit that the next parse is told of

The parser sees bytes. `InputEdit.Describes` says, of the bytes of the
text at the last parse and those of the text now, what an edit that is
handed to the parser has to be. A document hands out an edit where one
splice was made since, which the edit was computed for in characters and
before the splice.
-/

set_option autoImplicit false

namespace Yaldabaoth

open Rope

variable {α : Type} [Glyph α]

/-! ### Bytes -/

def bytes (text : List α) : List UInt8 :=
  text.flatMap fun a => String.utf8EncodeChar (Glyph.char a)

/-- Where a sequence of bytes ends: how many line breaks are in it, and
how many bytes are behind the last of them. -/
def endPoint (bs : List UInt8) : Point where
  row := bs.count 10
  column := (bs.reverse.takeWhile fun b => b != 10).length

/-- The row and the byte column of an offset. -/
def pointAt (bs : List UInt8) (offset : Nat) : Point := endPoint (bs.take offset)

/-- An offset between two characters. -/
def Boundary (text : List α) (offset : Nat) : Prop :=
  ∃ before after, text = before ++ after ∧ (bytes before).length = offset

/-- The new text is the old one with a range of bytes replaced by a range
of the new text, and the points are those of the offsets. -/
structure InputEdit.Describes (edit : InputEdit) (old new : List α) : Prop where
  old_range : edit.startByte ≤ edit.oldEndByte ∧ edit.oldEndByte ≤ (bytes old).length
  new_range : edit.startByte ≤ edit.newEndByte ∧ edit.newEndByte ≤ (bytes new).length
  replaced : bytes new = (bytes old).take edit.startByte ++
    ((bytes new).take edit.newEndByte).drop edit.startByte ++ (bytes old).drop edit.oldEndByte
  start_boundary : Boundary old edit.startByte ∧ Boundary new edit.startByte
  end_boundary : Boundary old edit.oldEndByte ∧ Boundary new edit.newEndByte
  startPosition : edit.startPosition = pointAt (bytes old) edit.startByte
  oldEndPosition : edit.oldEndPosition = pointAt (bytes old) edit.oldEndByte
  newEndPosition : edit.newEndPosition = pointAt (bytes new) edit.newEndByte

theorem bytes_append (text rest : List α) : bytes (text ++ rest) = bytes text ++ bytes rest :=
  List.flatMap_append

theorem length_bytes (text : List α) : (bytes text).length = utf8Len text := by
  rw [bytes, List.length_flatMap, utf8Len]
  simp only [String.length_utf8EncodeChar]

theorem utf8Len_append (text rest : List α) : utf8Len (text ++ rest) = utf8Len text + utf8Len rest := by
  rw [← length_bytes, bytes_append, List.length_append, length_bytes, length_bytes]

theorem utf8Len_reverse (text : List α) : utf8Len text.reverse = utf8Len text := by
  rw [utf8Len, List.map_reverse, List.sum_reverse]
  rfl

/-- A line break is one byte, and that byte is in no other character. -/
theorem newline_mem_utf8EncodeChar {c : Char} (h : 10 ∈ String.utf8EncodeChar c) : c = '\n' := by
  have hbyte (n : Nat) (hn : n < 256) (h : 10 = UInt8.ofNat n) : n = 10 := by
    have hnat := congrArg UInt8.toNat h
    rw [UInt8.toNat_ofNat', Nat.mod_eq_of_lt hn] at hnat
    exact hnat.symm
  unfold String.utf8EncodeChar at h
  dsimp only at h
  split at h
  · rename_i hascii
    have hten := hbyte _ (by omega) (List.mem_singleton.1 h)
    exact Char.toNat_inj.1 hten
  -- The bytes of all other characters have their highest bit set.
  exfalso
  split at h
  · simp only [List.mem_cons, List.not_mem_nil, or_false] at h
    rcases h with h | h
    · have := hbyte _ (by omega) h
      omega
    · have := hbyte _ (by omega) h
      omega
  split at h
  · simp only [List.mem_cons, List.not_mem_nil, or_false] at h
    rcases h with h | h | h
    · have := hbyte _ (by omega) h
      omega
    · have := hbyte _ (by omega) h
      omega
    · have := hbyte _ (by omega) h
      omega
  · simp only [List.mem_cons, List.not_mem_nil, or_false] at h
    rcases h with h | h | h | h
    · have := hbyte _ (by omega) h
      omega
    · have := hbyte _ (by omega) h
      omega
    · have := hbyte _ (by omega) h
      omega
    · have := hbyte _ (by omega) h
      omega

theorem count_bytes (text : List α) : (bytes text).count 10 = countNl text := by
  induction text with
  | nil => rfl
  | cons a rest ih =>
      have hcons : bytes (a :: rest) = String.utf8EncodeChar (Glyph.char a) ++ bytes rest := rfl
      rw [hcons, List.count_append, ih, countNl_cons, Nat.add_comm]
      congr 1
      by_cases ha : Glyph.char a = '\n'
      · rw [ha, isNl, ha]
        rfl
      · have hnone : (10 : UInt8) ∉ String.utf8EncodeChar (Glyph.char a) :=
          fun h => ha (newline_mem_utf8EncodeChar h)
        rw [List.count_eq_zero_of_not_mem hnone, isNl, beq_eq_false_iff_ne.2 ha]
        rfl

/-- Where the bytes of a text end, read off its last row. -/
theorem endPoint_lastRow {front tail : List α} (hfront : EndsRow front)
    (htail : ∀ a ∈ tail, isNl a = false) :
    endPoint (bytes (front ++ tail)) = ⟨countNl front, utf8Len tail⟩ := by
  have hnone : ∀ b ∈ bytes tail, (b != 10) = true := by
    intro b hb
    obtain ⟨a, ha, hb⟩ := List.mem_flatMap.1 hb
    rw [bne_iff_ne]
    rintro rfl
    have hnl : isNl a = true := beq_iff_eq.2 (newline_mem_utf8EncodeChar hb)
    rw [htail a ha] at hnl
    cases hnl
  have hbehind : ((bytes (front ++ tail)).reverse.takeWhile fun b => b != 10)
      = (bytes tail).reverse := by
    have hall : ∀ b ∈ (bytes tail).reverse, (b != 10) = true :=
      fun b hb => hnone b (List.mem_reverse.1 hb)
    rw [bytes_append, List.reverse_append, List.takeWhile_append_of_pos hall]
    rcases hfront with rfl | ⟨init, a, rfl, ha⟩
    · show _ ++ [] = _
      rw [List.append_nil]
    · have hlast : bytes (init ++ [a]) = bytes init ++ [10] := by
        have hchar : Glyph.char a = '\n' := beq_iff_eq.1 ha
        rw [bytes_append]
        show bytes init ++ (String.utf8EncodeChar (Glyph.char a) ++ []) = _
        rw [hchar]
        rfl
      rw [hlast, List.reverse_append]
      show _ ++ [] = _
      rw [List.append_nil]
  rw [endPoint, hbehind, count_bytes, countNl_append, countNl_eq_zero htail, List.length_reverse,
    length_bytes, Nat.add_zero]

/-- The point of a position in the rope. -/
theorem charPoint_eq (before after : List α) :
    charPoint (before ++ after) before.length = endPoint (bytes before) := by
  obtain ⟨front, tail, rfl, hfront, htail⟩ := exists_lastRow before
  have hmin : min (front ++ tail).length (front ++ tail ++ after).length
      = (front ++ tail).length := by
    simp only [List.length_append]
    omega
  have hrow : lineToChar (front ++ tail ++ after) (countNl front) = front.length := by
    have := lineToChar_append hfront (tail ++ after) 0
    rw [Nat.add_zero, ← List.append_assoc] at this
    exact this.trans (by cases tail ++ after <;> rfl)
  rw [endPoint_lastRow hfront htail, charPoint, hmin, charToLine, List.take_left, countNl_append, countNl_eq_zero htail, Nat.add_zero, hrow,
    List.append_assoc front tail after, List.take_left, utf8Len_append, Nat.add_sub_cancel_left]

/-- The point behind a text that is put in. -/
theorem advancePoint_eq (before inserted : List α) :
    advancePoint (endPoint (bytes before)) inserted = endPoint (bytes (before ++ inserted)) := by
  obtain ⟨front, tail, rfl, hfront, htail⟩ := exists_lastRow before
  obtain ⟨front', tail', rfl, hfront', htail'⟩ := exists_lastRow inserted
  rw [endPoint_lastRow hfront htail, advancePoint]
  rcases hfront' with rfl | ⟨init, a, rfl, ha⟩
  · -- The row goes on.
    have hrow : ∀ a ∈ tail ++ tail', isNl a = false := by
      intro a ha
      rcases List.mem_append.1 ha with ha | ha
      · exact htail a ha
      · exact htail' a ha
    rw [List.nil_append, if_pos (countNl_eq_zero htail'), List.append_assoc,
      endPoint_lastRow hfront hrow, utf8Len_append]
  · -- A row that begins in the new text.
    have hfront' : EndsRow (front ++ tail ++ (init ++ [a])) :=
      .inr ⟨front ++ tail ++ init, a, by simp, ha⟩
    have hone : countNl (init ++ [a] ++ tail') ≠ 0 := by
      rw [countNl_append, countNl_append, countNl_cons, ha, if_pos rfl]
      omega
    have hbehind : ((init ++ [a] ++ tail').reverse.takeWhile fun a => !isNl a) = tail'.reverse := by
      have hall : ∀ b ∈ tail'.reverse, (!isNl b) = true := by
        intro b hb
        rw [htail' b (List.mem_reverse.1 hb)]
        rfl
      rw [List.reverse_append, List.takeWhile_append_of_pos hall, List.reverse_append]
      show _ ++ ((a :: init.reverse).takeWhile fun a => !isNl a) = _
      rw [List.takeWhile_cons, ha]
      exact List.append_nil _
    rw [if_neg hone, hbehind, ← List.append_assoc, endPoint_lastRow hfront' htail']
    rw [utf8Len_reverse, countNl_append _ tail', countNl_eq_zero htail', countNl_append (front ++ tail),
      countNl_append front tail, countNl_eq_zero htail, Nat.add_zero, Nat.add_zero]

/-! ### One splice -/

/-- The edit that is computed for a splice, of a text that has the
characters to remove where the splice starts. -/
theorem notePendingEdit_eq {d : Document α} {start count : Nat} {inserted : List α}
    (before removed after : List α) (hrope : d.rope = before ++ removed ++ after)
    (hstart : min start d.rope.length = before.length)
    (hend : min (start + count) d.rope.length = (before ++ removed).length) :
    d.notePendingEdit start count inserted = { d with
      pendingSpliceCount := d.pendingSpliceCount + 1
      pendingEdit := if d.pendingSpliceCount + 1 = 1 then some {
        startByte := utf8Len before
        oldEndByte := utf8Len (before ++ removed)
        newEndByte := utf8Len before + utf8Len inserted
        startPosition := endPoint (bytes before)
        oldEndPosition := endPoint (bytes (before ++ removed))
        newEndPosition := endPoint (bytes (before ++ inserted)) } else none } := by
  have hfirst : d.rope.take before.length = before := by
    rw [hrope, List.append_assoc, List.take_left]
  have hlast : d.rope.take (before ++ removed).length = before ++ removed := by
    rw [hrope, List.take_left]
  have hpoint : charPoint d.rope before.length = endPoint (bytes before) := by
    rw [hrope, List.append_assoc]
    exact charPoint_eq before (removed ++ after)
  have hpoint' : charPoint d.rope (before ++ removed).length = endPoint (bytes (before ++ removed)) := by
    rw [hrope]
    exact charPoint_eq (before ++ removed) after
  rw [Document.notePendingEdit]
  simp only [hstart, hend, hfirst, hlast, hpoint, hpoint', advancePoint_eq]

/-- It describes the splice. -/
theorem describes_splice (before removed inserted after : List α) :
    InputEdit.Describes {
      startByte := utf8Len before
      oldEndByte := utf8Len (before ++ removed)
      newEndByte := utf8Len before + utf8Len inserted
      startPosition := endPoint (bytes before)
      oldEndPosition := endPoint (bytes (before ++ removed))
      newEndPosition := endPoint (bytes (before ++ inserted)) }
      (before ++ removed ++ after) (before ++ inserted ++ after) := by
  have hold : (bytes (before ++ removed ++ after)).take (utf8Len (before ++ removed))
      = bytes (before ++ removed) := by
    rw [bytes_append (before ++ removed), ← length_bytes, List.take_left]
  have hnew : (bytes (before ++ inserted ++ after)).take (utf8Len before + utf8Len inserted)
      = bytes (before ++ inserted) := by
    rw [bytes_append (before ++ inserted), ← utf8Len_append, ← length_bytes, List.take_left]
  have hstart : (bytes (before ++ removed ++ after)).take (utf8Len before) = bytes before := by
    rw [List.append_assoc, bytes_append before, ← length_bytes, List.take_left]
  refine {
    old_range := ⟨?_, ?_⟩
    new_range := ⟨Nat.le_add_right _ _, ?_⟩
    replaced := ?_
    start_boundary := ⟨⟨before, removed ++ after, List.append_assoc .., length_bytes _⟩,
      ⟨before, inserted ++ after, List.append_assoc .., length_bytes _⟩⟩
    end_boundary := ⟨⟨before ++ removed, after, rfl, length_bytes _⟩,
      ⟨before ++ inserted, after, rfl, by rw [length_bytes, utf8Len_append]⟩⟩
    startPosition := by rw [pointAt, hstart]
    oldEndPosition := by rw [pointAt, hold]
    newEndPosition := by rw [pointAt, hnew] }
  · rw [utf8Len_append]
    exact Nat.le_add_right _ _
  · rw [length_bytes, utf8Len_append _ after]
    exact Nat.le_add_right _ _
  · show utf8Len before + utf8Len inserted ≤ _
    rw [length_bytes, utf8Len_append _ after, utf8Len_append before]
    exact Nat.le_add_right _ _
  · have hrest : (bytes (before ++ removed ++ after)).drop (utf8Len (before ++ removed))
        = bytes after := by
      rw [bytes_append (before ++ removed), ← length_bytes, List.drop_left]
    have hmiddle : (bytes (before ++ inserted)).drop (utf8Len before) = bytes inserted := by
      rw [bytes_append, ← length_bytes, List.drop_left]
    rw [hnew, hstart, hrest, hmiddle, bytes_append, bytes_append]

/-! ### A window between two parses -/

/-- What a document hands out describes how its text came about from the
one at the last parse. -/
structure Document.Window (old : List α) (d : Document α) : Prop where
  untouched : d.pendingSpliceCount = 0 → d.rope = old
  once : d.pendingSpliceCount = 1 → ∃ edit, d.pendingEdit = some edit ∧ edit.Describes old d.rope

namespace Document

/-- A change of the text that was noted. -/
theorem Window.splice {old : List α} {d d' : Document α} (h : d.Window old) {start count : Nat}
    (before removed inserted after : List α) (hrope : d.rope = before ++ removed ++ after)
    (hstart : min start d.rope.length = before.length)
    (hend : min (start + count) d.rope.length = (before ++ removed).length)
    (hnew : d'.rope = before ++ inserted ++ after)
    (hcount : d'.pendingSpliceCount = (d.notePendingEdit start count inserted).pendingSpliceCount)
    (hedit : d'.pendingEdit = (d.notePendingEdit start count inserted).pendingEdit) :
    d'.Window old := by
  rw [notePendingEdit_eq before removed after hrope hstart hend] at hcount hedit
  refine ⟨fun hzero => ?_, fun hone => ?_⟩
  · rw [hcount] at hzero
    exact absurd hzero (Nat.succ_ne_zero _)
  · have hfirst : d.pendingSpliceCount = 0 := Nat.succ.inj (hcount.symm.trans hone)
    dsimp only at hedit
    rw [hfirst, if_pos (Nat.zero_add 1)] at hedit
    refine ⟨_, hedit, ?_⟩
    rw [hnew, ← h.untouched hfirst, hrope]
    exact describes_splice before removed inserted after

/-- The text and what is pending for the parser stay as they are. -/
theorem Window.same {old : List α} {d d' : Document α} (h : d.Window old) (hrope : d'.rope = d.rope)
    (hcount : d'.pendingSpliceCount = d.pendingSpliceCount)
    (hedit : d'.pendingEdit = d.pendingEdit) : d'.Window old where
  untouched hzero := hrope.trans (h.untouched (hcount.symm.trans hzero))
  once hone := by
    obtain ⟨edit, hsome, hdescribes⟩ := h.once (hcount.symm.trans hone)
    exact ⟨edit, hedit.trans hsome, hrope ▸ hdescribes⟩

theorem recordSplice_pending (d : Document α) (start removedChars : Nat) (inserted : List α) :
    (d.recordSplice start removedChars inserted).pendingSpliceCount
        = (d.notePendingEdit start removedChars inserted).pendingSpliceCount ∧
      (d.recordSplice start removedChars inserted).pendingEdit
        = (d.notePendingEdit start removedChars inserted).pendingEdit := by
  rw [recordSplice]
  cases hpending : d.pendingUndo with
  | none => simp [notePendingEdit, hpending]
  | some entry => simp [notePendingEdit, hpending]

/-- A text comes in, noted where it comes in. -/
theorem Window.insertion {old : List α} {d d' : Document α} (h : d.Window old) (idx : Nat)
    (text : List α) (hnew : d'.rope = Rope.insert d.rope idx text)
    (hcount : d'.pendingSpliceCount = (d.notePendingEdit idx 0 text).pendingSpliceCount)
    (hedit : d'.pendingEdit = (d.notePendingEdit idx 0 text).pendingEdit) : d'.Window old := by
  refine h.splice (d.rope.take idx) [] text (d.rope.drop idx) ?_ ?_ ?_ hnew hcount hedit
  · rw [List.append_nil, List.take_append_drop]
  · rw [List.length_take]
  · rw [List.append_nil, List.length_take, Nat.add_zero]

theorem Window.removal {old : List α} {d d' : Document α} (h : d.Window old) {first last : Nat}
    (hlt : first < last) (hlast : last ≤ d.rope.length)
    (hnew : d'.rope = Rope.remove d.rope first last)
    (hcount : d'.pendingSpliceCount
      = (d.notePendingEdit first (last - first) []).pendingSpliceCount)
    (hedit : d'.pendingEdit = (d.notePendingEdit first (last - first) []).pendingEdit) :
    d'.Window old := by
  have hsplit : d.rope.take last = d.rope.take first ++ slice d.rope first last := by
    conv_lhs => rw [← List.take_append_drop first (d.rope.take last)]
    rw [List.take_take, Nat.min_eq_left (Nat.le_of_lt hlt)]
    rfl
  refine h.splice (d.rope.take first) (slice d.rope first last) [] (d.rope.drop last) ?_ ?_ ?_ ?_
    hcount hedit
  · rw [← hsplit, List.take_append_drop]
  · rw [List.length_take]
  · rw [← hsplit, List.length_take]
    omega
  · rw [hnew, List.append_nil]
    rfl

/-- Edits of the user. -/
theorem Window.typed {old : List α} {d : Document α} (h : d.Window old) (idx : Nat) (text : List α) :
    ({ d.recordSplice idx 0 text with
      rope := Rope.insert (d.recordSplice idx 0 text).rope idx text } : Document α).Window old := by
  obtain ⟨hcount, hedit⟩ := d.recordSplice_pending idx 0 text
  refine h.insertion idx text ?_ hcount hedit
  show Rope.insert (d.recordSplice idx 0 text).rope idx text = _
  rw [(d.recordSplice_fields idx 0 text).1]

theorem Window.deleted {old : List α} {d : Document α} (h : d.Window old) {first last : Nat}
    (hlt : first < last) (hlast : last ≤ d.rope.length) :
    ({ d.recordSplice first (last - first) [] with
      rope := Rope.remove (d.recordSplice first (last - first) []).rope first last } :
        Document α).Window old := by
  obtain ⟨hcount, hedit⟩ := d.recordSplice_pending first (last - first) []
  refine h.removal hlt hlast ?_ hcount hedit
  show Rope.remove (d.recordSplice first (last - first) []).rope first last = _
  rw [(d.recordSplice_fields first (last - first) []).1]

theorem Window.deleteRange {old : List α} {d : Document α} (h : d.Window old)
    (startChar endChar : Nat) : (d.deleteRange startChar endChar).Window old := by
  rw [Document.deleteRange]
  dsimp only
  split
  · rename_i hlt
    exact (h.deleted hlt (Nat.min_le_right _ _)).same rfl rfl rfl
  · exact h

theorem Window.historyStep {old : List α} {d : Document α} (h : d.Window old) (dir : HistoryDir) :
    (d.historyStep dir).1.Window old := by
  -- Behind a step through the history nothing is handed out.
  have htwice {d' : Document α} (hcount : d'.pendingSpliceCount = 2) : d'.Window old := by
    refine ⟨fun hzero => ?_, fun hone => ?_⟩
    · cases hcount.symm.trans hzero
    · cases hcount.symm.trans hone
  cases dir with
  | undo =>
      rw [Document.historyStep]
      cases d.undoStack with
      | nil => exact h
      | cons entry rest => exact htwice rfl
  | redo =>
      rw [Document.historyStep]
      cases d.redoStack with
      | nil => exact h
      | cons entry rest =>
          refine htwice ?_
          dsimp only
          obtain ⟨undoStack, savedDepth, hpush⟩ := pushUndo_frame
            ({ d with
              rope := (applySplices d.rope entry .redo).1
              pendingEdit := none
              pendingSpliceCount := 2
              redoStack := rest } : Document α)
            { entry with cursorBefore := entry.cursorAfter, cursorAfter := entry.cursorBefore }
          rw [hpush]

theorem Window.apply {old : List α} {d : Document α} (h : d.Window old) (edit : Edit α) :
    (d.apply edit).Window old := by
  cases edit with
  | insertChar line col ch => exact (h.typed _ [ch]).same rfl rfl rfl
  | insertStr line col text => exact (h.typed _ text).same rfl rfl rfl
  | insertStrAtChar charIdx text => exact (h.typed _ text).same rfl rfl rfl
  | deleteChar line col =>
      show (d.deleteChar line col).Window old
      rw [Document.deleteChar]
      dsimp only
      split
      · rename_i hlt
        have hdeleted := h.deleted (Nat.lt_add_one (lineColToChar d.rope line col)) hlt
        rw [Nat.add_sub_cancel_left] at hdeleted
        exact hdeleted.same rfl rfl rfl
      · exact h
  | deleteRange startChar endChar => exact h.deleteRange startChar endChar
  | deleteLine line =>
      show (d.deleteLine line).Window old
      rw [Document.deleteLine]
      cases d.lineDeleteRange line with
      | none => exact h
      | some range => exact h.deleteRange range.1 range.2
  | replaceLineText line newText =>
      show (d.replaceLineText line newText).Window old
      rw [Document.replaceLineText]
      split
      · exact h
      · refine (Window.typed ?_ _ newText).same rfl rfl rfl
        dsimp only
        split
        · rename_i hlt
          exact h.deleted hlt (lineToChar_add_lineLenChars_le d.rope line)
        · exact h
  | insertStrAtCharNoUndo charIdx text => exact h.insertion _ text rfl rfl rfl
  | deleteRangeNoUndo startChar endChar =>
      show (d.deleteRangeNoUndo startChar endChar).Window old
      rw [Document.deleteRangeNoUndo]
      dsimp only
      split
      · rename_i hlt
        exact h.removal hlt (Nat.min_le_right _ _) rfl rfl rfl
      · exact h
  | beginUndoGroup line col =>
      show (d.beginUndoGroup line col).1.Window old
      rw [Document.beginUndoGroup]
      cases d.pendingUndo with
      | some entry => exact h
      | none => exact h.same rfl rfl rfl
  | endUndoGroup line col =>
      show (d.endUndoGroup line col).Window old
      rw [Document.endUndoGroup]
      cases d.pendingUndo with
      | none => exact h
      | some entry =>
          dsimp only
          split
          · exact h.same rfl rfl rfl
          · obtain ⟨undoStack, savedDepth, hpush⟩ := pushUndo_frame
              ({ d with pendingUndo := none } : Document α) { entry with cursorAfter := (line, col) }
            rw [hpush]
            exact h.same rfl rfl rfl
  | undo => exact h.historyStep .undo
  | redo => exact h.historyStep .redo

/-- An edit that is handed out describes how the text came about from the
one at the last parse, whatever was done to the document since. -/
theorem parse_edit_exact (d : Document α) (edits : List (Edit α)) (edit : InputEdit)
    (htaken : (edits.foldl apply d.takePendingEdit.2).takePendingEdit.1 = some edit) :
    edit.Describes d.rope (edits.foldl apply d.takePendingEdit.2).rope := by
  have hrun (edits : List (Edit α)) : ∀ {d' : Document α}, d'.Window d.rope →
      (edits.foldl Document.apply d').Window d.rope := by
    induction edits with
    | nil => intro d' h; exact h
    | cons edit edits ih => intro d' h; exact ih (h.apply edit)
  have hstart : d.takePendingEdit.2.Window d.rope := by
    refine ⟨fun _ => rfl, fun hone => ?_⟩
    cases hone
  have hwindow := hrun edits hstart
  obtain ⟨hcount, hsome⟩ := Option.ite_none_right_eq_some.1 htaken
  obtain ⟨edit', hsome', hdescribes⟩ := hwindow.once hcount
  obtain rfl := Option.some.inj (hsome'.symm.trans hsome)
  exact hdescribes

/-- A character of two bytes on the second row is replaced by one of
three bytes and a line break. -/
theorem parse_edit_exact_sample :
    let d := fromText ['a', '\n', 'é', 'b'] "f"
    let d' := [Edit.insertStr 1 1 ['€', '\n'], .beginUndoGroup 0 0].foldl apply d.takePendingEdit.2
    let edit : InputEdit := ⟨4, 4, 8, ⟨1, 2⟩, ⟨1, 2⟩, ⟨2, 0⟩⟩
    d'.takePendingEdit.1 = some edit ∧ edit.Describes d.rope d'.rope := by
  intro d d' edit
  have htaken : d'.takePendingEdit.1 = some edit := by decide
  exact ⟨htaken, parse_edit_exact d _ edit htaken⟩

end Document

end Yaldabaoth
