import Yaldabaoth.Model.ViewMemo

/-!
# `Yaldabaoth.Proofs.View.Floors`: the line that a tool call is put on

The line break for a tool call comes in behind everything that is frozen:
at the end of the transcript, or above the draft of the user, where no line
is frozen any more. So the frozen lines stay what they are
(`Editor.KeepsFrozen`).
-/

set_option autoImplicit false

namespace Yaldabaoth

open Rope Spans

/-! ### Lines of a text that is added to -/

theorem line_append {front : List Char} (rest : List Char) {i : Nat} (h : i < countNl front) :
    line (front ++ rest) i = line front i := by
  rw [line, line, lineToChar_append_front front rest h,
    lineToChar_append_front front rest (Nat.le_of_lt h),
    List.take_append_of_le_length (lineToChar_le_length front _)]

theorem displayLine_append {front : List Char} (rest : List Char) {i : Nat}
    (h : i < countNl front) : displayLine (front ++ rest) i = displayLine front i := by
  rw [displayLine, displayLine, line_append rest h]

/-- A line break at the end of the last line is not shown. -/
theorem displayLine_concat (text : List Char) :
    displayLine (text ++ ['\n']) (countNl text) = displayLine text (countNl text) := by
  have hstart : lineToChar (text ++ ['\n']) (countNl text) = lineToChar text (countNl text) :=
    lineToChar_append_front text ['\n'] (le_refl _)
  have hstop : lineToChar (text ++ ['\n']) (countNl text + 1) = text.length + 1 :=
    lineToChar_append_back text ['\n'] 0
  have hline : line (text ++ ['\n']) (countNl text) = line text (countNl text) ++ ['\n'] := by
    rw [line, line, hstart, hstop, lineToChar_end, List.take_length,
      List.take_of_length_le (by simp),
      List.drop_append_of_le_length (lineToChar_le_length text _)]
  rw [displayLine, hline, List.flatMap_append]
  exact List.rdropWhile_concat_pos _ _ _ (by decide)

/-- What stands above a line has as many line breaks as there are lines above. -/
theorem countNl_take_lineToChar (text : List Char) {l : Nat} (h : l ≤ countNl text) :
    countNl (text.take (lineToChar text l)) = l := by
  induction text generalizing l with
  | nil => rw [Nat.le_zero.1 h]; rfl
  | cons c text ih =>
      cases l with
      | zero => rw [lineToChar_zero]; rfl
      | succ l =>
          rw [countNl_cons] at h
          rw [lineToChar_cons_succ, Nat.add_comm, List.take_succ_cons, countNl_cons]
          cases hc : isNl c with
          | true =>
              rw [hc] at h
              simp only [if_true] at h ⊢
              rw [ih (by omega)]
          | false =>
              rw [hc] at h
              simp only [Bool.false_eq_true, if_false, Nat.add_zero] at h ⊢
              exact ih h

namespace Editor

variable {μ : Type}

/-- The same lines are frozen, they are shown as they were, and no line went. -/
structure KeepsFrozen (ed ed' : Editor Char μ) : Prop where
  lenLines : lenLines ed.rope ≤ lenLines ed'.rope
  frozen : ed'.core.frozenLines = ed.core.frozenLines
  text : ∀ r ∈ ed.core.frozenLines, ∀ i, r.1 ≤ i → i < r.2 →
    displayLine ed'.rope i = displayLine ed.rope i

theorem KeepsFrozen.refl (ed : Editor Char μ) : KeepsFrozen ed ed :=
  ⟨le_refl _, rfl, fun _ _ _ _ _ => rfl⟩

theorem KeepsFrozen.trans {ed ed' ed'' : Editor Char μ} (h : KeepsFrozen ed ed')
    (h' : KeepsFrozen ed' ed'') : KeepsFrozen ed ed'' where
  lenLines := le_trans h.lenLines h'.lenLines
  frozen := h'.frozen.trans h.frozen
  text r hr i hlo hhi := by
    rw [← h.text r hr i hlo hhi]
    exact h'.text r (by rw [h.frozen]; exact hr) i hlo hhi

/-! ### Splices behind the frozen lines -/

/-- Ranges above the line where line breaks come in stay. -/
theorem flatMap_insertedRange {ranges : List (Nat × Nat)} {effLine : Nat} (effCol insertedNl : Nat)
    (h : ∀ r ∈ ranges, r.2 ≤ effLine) :
    ranges.flatMap (insertedRange effLine effCol insertedNl) = ranges := by
  induction ranges with
  | nil => rfl
  | cons r ranges ih =>
      rw [List.flatMap_cons, ih fun r' hr' => h r' (List.mem_cons_of_mem _ hr'), insertedRange,
        if_pos (h r List.mem_cons_self)]
      rfl

theorem frozenLines_spliceInsert (ed : Editor Char μ) {charIdx : Nat} (text : List Char)
    (h : ∀ r ∈ ed.core.frozenLines, r.2 ≤ (lineColOfChar ed.rope charIdx).1) :
    (ed.spliceInsert charIdx text).core.frozenLines = ed.core.frozenLines := by
  rw [spliceInsert_core]
  have hfrozen := EditorCore.insert_frozenLines ed.core charIdx text
  dsimp only at hfrozen
  refine hfrozen.trans ?_
  split
  · rfl
  · split
    · exact flatMap_insertedRange 0 _ fun r hr => Nat.le_succ_of_le (h r hr)
    · exact flatMap_insertedRange _ _ h

theorem rope_spliceInsert_eof (ed : Editor Char μ) (text : List Char) :
    (ed.spliceInsert ed.eof text).rope = ed.rope ++ text := by
  rw [rope_spliceInsert, eof, Nat.min_self, Rope.insert, List.take_length, List.drop_length,
    List.append_nil]

theorem frozenLines_spliceInsert_eof (ed : Editor Char μ) (h : ed.Fits) (text : List Char) :
    (ed.spliceInsert ed.eof text).core.frozenLines = ed.core.frozenLines := by
  rw [spliceInsert_core]
  have hfrozen := EditorCore.insert_frozenLines ed.core ed.eof text
  dsimp only at hfrozen
  refine hfrozen.trans ?_
  -- behind the last line there is no line any more
  have hpos : lineColOfChar ed.core.document.rope ed.eof =
      (countNl ed.rope, ed.rope.length - lineToChar ed.rope (countNl ed.rope)) := by
    show lineColOfChar ed.rope ed.rope.length = _
    rw [lineColOfChar, Nat.min_self, charToLine, List.take_length]
  have hbehind : lineLenChars ed.rope (countNl ed.rope) ≤
      ed.rope.length - lineToChar ed.rope (countNl ed.rope) := by
    have := lineToChar_add_lineLenChars_le ed.rope (countNl ed.rope)
    omega
  split
  · rfl
  · rw [hpos]
    refine (if_pos hbehind).trans ?_
    exact flatMap_insertedRange 0 _ h.frozen_bounds

/-- A line break at the end. -/
theorem Fits.keeps_eof {ed : Editor Char μ} (h : ed.Fits) :
    KeepsFrozen ed (ed.spliceInsert ed.eof ['\n']) where
  lenLines := by
    rw [lenLines_spliceInsert]
    exact Nat.le_add_right _ _
  frozen := frozenLines_spliceInsert_eof ed h ['\n']
  text r hr i _ hhi := by
    have hbound := h.frozen_bounds r hr
    rw [Rope.lenLines] at hbound
    rw [rope_spliceInsert_eof]
    rcases Nat.lt_or_ge i (countNl ed.rope) with hlt | hge
    · exact displayLine_append ['\n'] hlt
    · obtain rfl : i = countNl ed.rope := by omega
      exact displayLine_concat ed.rope

theorem Fits.keeps_endedByNl {ed : Editor Char μ} (h : ed.Fits) : KeepsFrozen ed ed.endedByNl := by
  rw [Editor.endedByNl]
  split
  · exact h.keeps_eof
  · exact .refl ed

/-- A line break at the start of a line with nothing frozen from there on. -/
theorem keeps_above {ed : Editor Char μ} {l : Nat} (hl : l ≤ countNl ed.rope)
    (h : ∀ r ∈ ed.core.frozenLines, r.2 ≤ l) :
    KeepsFrozen ed (ed.spliceInsert (lineToChar ed.rope l) ['\n']) := by
  have hle := lineToChar_le_length ed.rope l
  have hcount := countNl_take_lineToChar ed.rope hl
  constructor
  · rw [lenLines_spliceInsert]
    exact Nat.le_add_right _ _
  · refine frozenLines_spliceInsert ed ['\n'] fun r hr => ?_
    rw [lineColOfChar_fst _ hle, charToLine, hcount]
    exact h r hr
  · intro r hr i _ hhi
    have hlt : i < countNl (ed.rope.take (lineToChar ed.rope l)) := by
      have := h r hr
      omega
    have hsplit := List.take_append_drop (lineToChar ed.rope l) ed.rope
    rw [rope_spliceInsert, Nat.min_eq_left hle, Rope.insert, List.append_assoc,
      displayLine_append _ hlt, ← displayLine_append (ed.rope.drop (lineToChar ed.rope l)) hlt,
      hsplit]

/-! ### The draft of the user -/

theorem looseTail_le (ed : Editor Char μ) : ed.looseTail.length ≤ lenLines ed.rope := by
  have hle := (List.takeWhile_sublist ed.isLoose
    (l := (List.range (lenLines ed.rope)).reverse)).length_le
  simpa [looseTail] using hle

/-- From the floor on no line is frozen. -/
theorem isLoose_of_floor (ed : Editor Char μ) {l : Nat}
    (hlo : lenLines ed.rope - ed.looseTail.length ≤ l) (hhi : l < lenLines ed.rope) :
    ed.isLoose l = true := by
  have hget : (List.range (lenLines ed.rope)).reverse[lenLines ed.rope - 1 - l]? = some l := by
    rw [List.getElem?_reverse (by simp; omega), List.length_range,
      List.getElem?_range (by omega)]
    congr 1
    omega
  obtain ⟨behind, hsplit⟩ := List.takeWhile_prefix ed.isLoose
    (l := (List.range (lenLines ed.rope)).reverse)
  rw [← hsplit, List.getElem?_append_left (by
    show _ < ed.looseTail.length
    have := ed.looseTail_le
    omega)] at hget
  exact List.mem_takeWhile_imp (List.mem_of_getElem? hget)

theorem Fits.frozen_above_floor {ed : Editor Char μ} (h : ed.Fits) :
    ∀ r ∈ ed.core.frozenLines, r.2 ≤ lenLines ed.rope - ed.looseTail.length := by
  intro r hr
  by_contra hover
  have hnonempty := h.frozen_sorted.nonempty r hr
  have hbound := h.frozen_bounds r hr
  have hloose := ed.isLoose_of_floor (l := r.2 - 1) (by omega) (by omega)
  have hfrozen : ed.core.isFrozenLine (r.2 - 1) = true :=
    (containing_isSome h.frozen_sorted _).2 ⟨r, hr, by omega, by omega⟩
  rw [isLoose, hfrozen] at hloose
  cases hloose

/-- The floor is the end, or the start of a line below everything frozen. -/
theorem agentTailFloorChar_cases (ed : Editor Char μ) :
    ed.agentTailFloorChar = ed.eof ∨
      lenLines ed.rope - ed.looseTail.length < lenLines ed.rope ∧
        ed.agentTailFloorChar =
          lineToChar ed.rope (lenLines ed.rope - ed.looseTail.length) := by
  simp only [agentTailFloorChar]
  split
  · exact .inl rfl
  · rename_i hfloor
    simp only [Bool.or_eq_true, decide_eq_true_eq, not_or] at hfloor
    refine .inr ⟨by omega, ?_⟩
    rw [lineColToChar, Nat.zero_min, Nat.add_zero, Nat.min_eq_left (by omega)]

/-! ### The line of the call -/

theorem Fits.keeps_lineForNewToolCall {ed : Editor Char μ} (h : ed.Fits) :
    KeepsFrozen ed (ed.lineForNewToolCall ed.agentTailFloorChar).2 ∧
      lenLines ed.rope < lenLines (ed.lineForNewToolCall ed.agentTailFloorChar).2.rope := by
  have hnl : countNl ['\n'] = 1 := rfl
  rw [Editor.lineForNewToolCall]
  split
  · rename_i hfloor
    rcases ed.agentTailFloorChar_cases with heof | ⟨hlt, hstart⟩
    · omega
    · rw [hstart]
      refine ⟨keeps_above ?_ h.frozen_above_floor, ?_⟩
      · rw [Rope.lenLines] at hlt ⊢
        omega
      · dsimp only
        rw [lenLines_spliceInsert]
        omega
  · refine ⟨h.keeps_endedByNl.trans h.endedByNl.keeps_eof, ?_⟩
    have := lenLines_endedByNl ed
    dsimp only
    rw [lenLines_spliceInsert]
    omega

end Editor

end Yaldabaoth
