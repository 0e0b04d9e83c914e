import Yaldabaoth.Model.Document

/-!
# `Yaldabaoth.Proofs.Buffer.Rows`: rows and columns of a text

Where the rows of a text start and end.
-/

set_option autoImplicit false

namespace Yaldabaoth.Rope

variable {α : Type} [Glyph α]

theorem lineToChar_le_length (text : List α) (line : Nat) : lineToChar text line ≤ text.length := by
  induction text generalizing line with
  | nil =>
      cases line with
      | zero => exact Nat.le_refl 0
      | succ line => exact Nat.le_refl 0
  | cons a rest ih =>
      cases line with
      | zero => exact Nat.zero_le _
      | succ line =>
          show 1 + lineToChar rest _ ≤ rest.length + 1
          have := ih (if isNl a then line else line + 1)
          omega

theorem lineLenChars_le_line (text : List α) (i : Nat) :
    lineLenChars text i ≤ (line text i).length := by
  rw [lineLenChars]
  split
  · exact Nat.zero_le _
  rcases hline : (line text i).reverse with _ | ⟨a, _ | ⟨b, rest⟩⟩
  · exact Nat.zero_le _
  · have hlength := congrArg List.length hline
    simp only [List.length_reverse, List.length_cons, List.length_nil] at hlength
    show (if isNl a then 0 else 1) ≤ _
    split <;> omega
  · have hlength := congrArg List.length hline
    simp only [List.length_reverse, List.length_cons] at hlength
    show (if isNl a then (if isCr b then rest.length else rest.length + 1) else rest.length + 2) ≤ _
    split
    · split <;> omega
    · omega

/-- A row with something in it ends within the text. -/
theorem lineToChar_add_lineLenChars_le (text : List α) (i : Nat) :
    lineToChar text i + lineLenChars text i ≤ text.length := by
  have hline := lineLenChars_le_line text i
  have hstart := lineToChar_le_length text i
  have hlength : (line text i).length
      = min (lineToChar text (i + 1)) text.length - lineToChar text i := by
    rw [line, List.length_drop, List.length_take]
  omega

/-! ### The last row -/

/-- A text that ends where a row begins. -/
def EndsRow (text : List α) : Prop := text = [] ∨ ∃ init a, text = init ++ [a] ∧ isNl a = true

/-- A text is rows up to a line break, and a last row without one. -/
theorem exists_lastRow (text : List α) : ∃ front tail, text = front ++ tail ∧ EndsRow front ∧
    ∀ a ∈ tail, isNl a = false := by
  induction text with
  | nil => exact ⟨[], [], rfl, .inl rfl, List.forall_mem_nil _⟩
  | cons a text ih =>
      obtain ⟨front, tail, rfl, hfront, htail⟩ := ih
      rcases hfront with rfl | ⟨init, b, rfl, hb⟩
      · cases ha : isNl a with
        | true => exact ⟨[a], tail, rfl, .inr ⟨[], a, rfl, ha⟩, htail⟩
        | false =>
            refine ⟨[], a :: tail, rfl, .inl rfl, fun b hb => ?_⟩
            rcases List.mem_cons.1 hb with rfl | hb
            · exact ha
            · exact htail b hb
      · exact ⟨a :: (init ++ [b]), tail, rfl, .inr ⟨a :: init, b, rfl, hb⟩, htail⟩

theorem countNl_append (text rest : List α) : countNl (text ++ rest) = countNl text + countNl rest :=
  List.countP_append

theorem countNl_cons (a : α) (rest : List α) :
    countNl (a :: rest) = countNl rest + if isNl a then 1 else 0 :=
  List.countP_cons

theorem countNl_eq_zero {text : List α} (h : ∀ a ∈ text, isNl a = false) : countNl text = 0 :=
  List.countP_eq_zero.2 fun a ha => by rw [h a ha]; exact Bool.false_ne_true

theorem lineToChar_cons_succ (a : α) (rest : List α) (line : Nat) :
    lineToChar (a :: rest) (line + 1) = 1 + lineToChar rest (if isNl a then line else line + 1) :=
  rfl

/-- The row behind a line break begins there. -/
theorem lineToChar_append {front : List α} (h : EndsRow front) (rest : List α) (k : Nat) :
    lineToChar (front ++ rest) (countNl front + k) = front.length + lineToChar rest k := by
  rcases h with rfl | ⟨init, a, rfl, ha⟩
  · simp [countNl]
  induction init with
  | nil =>
      have hone : countNl ([] ++ [a]) + k = k + 1 := by
        rw [List.nil_append, countNl_cons, ha]
        show 0 + 1 + k = k + 1
        omega
      rw [hone]
      show lineToChar (a :: rest) (k + 1) = 1 + _
      rw [lineToChar_cons_succ, ha, if_pos rfl]
  | cons b init ih =>
      -- The last character makes for at least one row behind `b`.
      obtain ⟨m, hm⟩ : ∃ m, countNl (init ++ [a]) = m + 1 := by
        refine ⟨countNl init, ?_⟩
        rw [countNl_append, countNl_cons, ha]
        rfl
      rw [hm] at ih
      show lineToChar (b :: (init ++ [a] ++ rest)) (countNl (b :: (init ++ [a])) + k)
        = (b :: (init ++ [a])).length + lineToChar rest k
      rw [countNl_cons, hm, List.length_cons]
      cases hb : isNl b with
      | true =>
          have hline : m + 1 + (if true = true then 1 else 0) + k = (m + 1 + k) + 1 := by
            rw [if_pos rfl]
            omega
          rw [hline, lineToChar_cons_succ, hb, if_pos rfl, ih]
          omega
      | false =>
          have hline : m + 1 + (if false = true then 1 else 0) + k = (m + k) + 1 := by
            rw [if_neg Bool.false_ne_true]
            omega
          have hnext : m + k + 1 = m + 1 + k := by omega
          rw [hline, lineToChar_cons_succ, hb, if_neg Bool.false_ne_true, hnext, ih]
          omega

/-! ### The row of a character -/

theorem charToLine_succ (text : List α) (i : Nat) :
    charToLine text (i + 1) = charToLine text i + if text[i]?.any isNl then 1 else 0 := by
  rw [charToLine, charToLine, List.take_add_one, countNl_append]
  congr 1
  cases text[i]? with
  | none => rfl
  | some a =>
      show countNl [a] = if isNl a then 1 else 0
      rw [countNl_cons]
      exact Nat.zero_add _

theorem lineColOfChar_fst (text : List α) {i : Nat} (h : i ≤ text.length) :
    (lineColOfChar text i).1 = charToLine text i := by
  rw [lineColOfChar, Nat.min_eq_left h]

theorem charToLine_mono (text : List α) {i j : Nat} (h : i ≤ j) :
    charToLine text i ≤ charToLine text j := by
  induction h with
  | refl => exact Nat.le_refl _
  | step _ ih =>
      rw [charToLine_succ]
      omega

theorem charToLine_lt_lenLines (text : List α) (i : Nat) : charToLine text i < lenLines text := by
  have hle : charToLine text i ≤ countNl text := (List.take_sublist i text).countP_le
  exact Nat.lt_succ_of_le hle

/-- Between two characters on different rows there is every line break
that leads from the one row to the other. -/
theorem exists_break (text : List α) {i j line : Nat} (hle : i ≤ j)
    (hlo : charToLine text i < line) (hhi : line ≤ charToLine text j) :
    ∃ k, i ≤ k ∧ k < j ∧ text[k]?.any isNl = true ∧ charToLine text k + 1 = line := by
  induction hle with
  | refl => omega
  | @step j hij ih =>
      by_cases hbefore : line ≤ charToLine text j
      · obtain ⟨k, hik, hkj, hk⟩ := ih hbefore
        exact ⟨k, hik, Nat.lt_succ_of_lt hkj, hk⟩
      · rw [charToLine_succ] at hhi
        cases hnl : text[j]?.any isNl with
        | true =>
            rw [hnl, if_pos rfl] at hhi
            exact ⟨j, hij, Nat.lt_succ_self j, hnl, by omega⟩
        | false =>
            rw [hnl, if_neg Bool.false_ne_true] at hhi
            omega

/-! ### Rows of a text and of its parts -/

theorem lineToChar_zero (text : List α) : lineToChar text 0 = 0 := by
  cases text <;> rfl

/-- The rows that begin in the front of a text begin where they do in the
front alone. -/
theorem lineToChar_append_front (front rest : List α) {i : Nat} (h : i ≤ countNl front) :
    lineToChar (front ++ rest) i = lineToChar front i := by
  induction front generalizing i with
  | nil =>
      rw [Nat.le_zero.1 h, lineToChar_zero, lineToChar_zero]
  | cons a front ih =>
      cases i with
      | zero => rw [lineToChar_zero, lineToChar_zero]
      | succ i =>
          rw [countNl_cons] at h
          rw [List.cons_append, lineToChar_cons_succ, lineToChar_cons_succ, ih]
          cases ha : isNl a with
          | true =>
              rw [ha, if_pos rfl] at h
              exact Nat.le_of_succ_le_succ h
          | false =>
              rw [ha, if_neg Bool.false_ne_true] at h
              exact h

/-- The rows behind the first one of the rest begin where they do in the
rest, behind the front. -/
theorem lineToChar_append_back (front rest : List α) (k : Nat) :
    lineToChar (front ++ rest) (countNl front + (k + 1))
      = front.length + lineToChar rest (k + 1) := by
  induction front generalizing k with
  | nil =>
      show lineToChar rest (0 + (k + 1)) = 0 + _
      rw [Nat.zero_add, Nat.zero_add]
  | cons a front ih =>
      rw [countNl_cons, List.cons_append, List.length_cons]
      cases ha : isNl a with
      | true =>
          have hline : countNl front + (if true = true then 1 else 0) + (k + 1)
              = (countNl front + (k + 1)) + 1 := by
            rw [if_pos rfl]
            omega
          rw [hline, lineToChar_cons_succ, ha, if_pos rfl, ih]
          omega
      | false =>
          have hline : countNl front + (if false = true then 1 else 0) + (k + 1)
              = (countNl front + k) + 1 := by
            rw [if_neg Bool.false_ne_true]
            omega
          have hnext : countNl front + k + 1 = countNl front + (k + 1) := by omega
          rw [hline, lineToChar_cons_succ, ha, if_neg Bool.false_ne_true, hnext, ih]
          omega

theorem lineToChar_succ_pos {text : List α} (h : text ≠ []) (i : Nat) :
    0 < lineToChar text (i + 1) := by
  cases text with
  | nil => exact absurd rfl h
  | cons a text =>
      rw [lineToChar_cons_succ]
      omega

/-- A row that exists begins before the next one. -/
theorem lineToChar_lt_succ (text : List α) {i : Nat} (h : i < countNl text) :
    lineToChar text i < lineToChar text (i + 1) := by
  induction text generalizing i with
  | nil => exact absurd h (Nat.not_lt_zero i)
  | cons a text ih =>
      rw [countNl_cons] at h
      cases i with
      | zero =>
          rw [lineToChar_zero, lineToChar_cons_succ]
          omega
      | succ i =>
          rw [lineToChar_cons_succ, lineToChar_cons_succ]
          cases ha : isNl a with
          | true =>
              rw [ha, if_pos rfl] at h
              rw [if_pos rfl, if_pos rfl]
              exact Nat.add_lt_add_left (ih (by omega)) 1
          | false =>
              rw [ha, if_neg Bool.false_ne_true] at h
              rw [if_neg Bool.false_ne_true, if_neg Bool.false_ne_true]
              exact Nat.add_lt_add_left (ih h) 1

theorem lineToChar_lt (text : List α) {i j : Nat} (hlt : i < j) (hj : j ≤ countNl text) :
    lineToChar text i < lineToChar text j := by
  induction hlt with
  | refl => exact lineToChar_lt_succ text hj
  | @step j _ ih => exact Nat.lt_trans (ih (Nat.le_of_succ_le hj)) (lineToChar_lt_succ text hj)

theorem lineToChar_mono (text : List α) {i j : Nat} (hle : i ≤ j) (hj : j ≤ countNl text) :
    lineToChar text i ≤ lineToChar text j := by
  rcases Nat.eq_or_lt_of_le hle with rfl | hlt
  · exact Nat.le_refl _
  · exact Nat.le_of_lt (lineToChar_lt text hlt hj)

/-- A row is known by where it begins. -/
theorem lineToChar_inj (text : List α) {i j : Nat} (hi : i ≤ countNl text) (hj : j ≤ countNl text)
    (h : lineToChar text i = lineToChar text j) : i = j := by
  rcases Nat.lt_trichotomy i j with hlt | rfl | hlt
  · have := lineToChar_lt text hlt hj
    omega
  · rfl
  · have := lineToChar_lt text hlt hi
    omega

/-- Behind the last row there is the end of the text. -/
theorem lineToChar_end (text : List α) : lineToChar text (countNl text + 1) = text.length := by
  have h := lineToChar_append_back text [] 0
  rw [List.append_nil] at h
  exact h.trans (Nat.add_zero _)

theorem endsRow_iff (text : List α) :
    EndsRow text ↔ lineToChar text (countNl text) = text.length := by
  constructor
  · intro h
    have := lineToChar_append h [] 0
    rwa [List.append_nil, lineToChar_zero] at this
  · intro h
    rcases List.eq_nil_or_concat' text with rfl | ⟨init, a, rfl⟩
    · exact .inl rfl
    · cases ha : isNl a with
      | true => exact .inr ⟨init, a, rfl, ha⟩
      | false =>
          -- The last row begins in front of `a`.
          have hcount : countNl (init ++ [a]) = countNl init := by
            rw [countNl_append, countNl_cons, ha]
            rfl
          rw [hcount, lineToChar_append_front init _ (Nat.le_refl _), List.length_append] at h
          have := lineToChar_le_length init (countNl init)
          rw [h, List.length_singleton] at this
          omega

theorem endsRow_append {rest : List α} (front : List α) (hrest : rest ≠ []) :
    EndsRow (front ++ rest) ↔ EndsRow rest := by
  obtain ⟨init, a, rfl⟩ := (List.eq_nil_or_concat' rest).resolve_left hrest
  rw [← List.append_assoc]
  have hends : ∀ init : List α, EndsRow (init ++ [a]) ↔ isNl a = true := by
    intro init
    constructor
    · rintro (hnil | ⟨init', b, heq, hb⟩)
      · exact absurd hnil (List.concat_ne_nil a init)
      · rwa [(List.append_inj_right' heq rfl |> List.singleton_inj.1)]
    · intro ha
      exact .inr ⟨init, a, rfl, ha⟩
  rw [hends, hends]

end Yaldabaoth.Rope
