import Yaldabaoth.Model.AgentTranscript
import Yaldabaoth.Model.CharCase

/-!
# `Yaldabaoth.Proofs.Keys.CharCase`: what a change of case keeps

Lower case is stable (`toLowercase_stable`), and no character becomes white
space. Both are read off the tables, row by row.
-/

set_option autoImplicit false

namespace Yaldabaoth

open RangeTable

namespace CharCase

/-! ### The tables -/

/-- A row leads to characters only. -/
def Valid (row : Row) : Prop := row.top < 0xD800 ∨ 0xE000 ≤ row.base ∧ row.top < 0x110000

instance (row : Row) : Decidable (Valid row) :=
  inferInstanceAs (Decidable (row.top < 0xD800 ∨ 0xE000 ≤ row.base ∧ row.top < 0x110000))

/-- The runs of white space, first and last. -/
def whitespaceRuns : List (Nat × Nat) :=
  [(9, 13), (32, 32), (0x85, 0x85), (0xA0, 0xA0), (0x1680, 0x1680), (0x2000, 0x200A),
    (0x2028, 0x2029), (0x202F, 0x202F), (0x205F, 0x205F), (0x3000, 0x3000)]

/-- No row leads into the runs. -/
def keepsOff (runs : List (Nat × Nat)) (rows : List Row) : Bool :=
  rows.all fun row => runs.all fun run => row.top < run.1 || run.2 < row.base

/-- The rows lead to characters, and to no white space; lower case never leads to one of the two
characters with a case of their own. -/
theorem rows_checked : (∀ row ∈ lowerRows, Valid row) ∧ (∀ row ∈ upperRows, Valid row) ∧
    keepsOff ((0x130, 0x130) :: (0x3A3, 0x3A3) :: whitespaceRuns) lowerRows = true ∧
    keepsOff whitespaceRuns upperRows = true := by
  decide +kernel

theorem lowerRows_valid : ∀ row ∈ lowerRows, Valid row := rows_checked.1

theorem upperRows_valid : ∀ row ∈ upperRows, Valid row := rows_checked.2.1

theorem lowerRows_keepOff :
    keepsOff ((0x130, 0x130) :: (0x3A3, 0x3A3) :: whitespaceRuns) lowerRows = true :=
  rows_checked.2.2.1

theorem upperRows_keepOff : keepsOff whitespaceRuns upperRows = true := rows_checked.2.2.2

theorem lowerRows_apart :
    (lowerRows.all fun row => lowerRows.all fun other => row.apart other) = true :=
  apart_of_blocks (show 0 < 12 by decide) (by decide +kernel)

theorem image_keepsOff {runs : List (Nat × Nat)} {rows : List Row}
    (h : keepsOff runs rows = true) {run : Nat × Nat} (hrun : run ∈ runs) {n : Nat}
    (hn : n < run.1 ∨ run.2 < n) : image rows n < run.1 ∨ run.2 < image rows n := by
  apply image_induction (P := fun m => m < run.1 ∨ run.2 < m) hn
  intro row hrow m hbase htop
  have hrow' := List.all_eq_true.1 (List.all_eq_true.1 h row hrow) run hrun
  simp only [Bool.or_eq_true, decide_eq_true_eq] at hrow'
  omega

theorem image_valid {rows : List Row} (h : ∀ row ∈ rows, Valid row) (c : Char) :
    (Char.ofNat (image rows c.toNat)).toNat = image rows c.toNat := by
  have hvalid : (image rows c.toNat).isValidChar := by
    apply image_induction (P := Nat.isValidChar) c.valid
    intro row hrow m hbase htop
    have hrow' := h row hrow
    simp only [Valid] at hrow'
    simp only [Nat.isValidChar]
    omega
  rw [Char.ofNat, dif_pos hvalid]
  rfl

theorem isWhitespace_runs {c : Char} :
    isWhitespace c = false ↔ ∀ run ∈ whitespaceRuns, c.toNat < run.1 ∨ run.2 < c.toNat := by
  simp only [isWhitespace, whitespaceRuns, List.forall_mem_cons, List.not_mem_nil,
    Bool.or_eq_false_iff, Bool.and_eq_false_iff, decide_eq_false_iff_not, beq_eq_false_iff_ne]
  simp
  omega

/-! ### Characters -/

theorem lowerChar_toNat (c : Char) : (lowerChar c).toNat = image lowerRows c.toNat :=
  image_valid lowerRows_valid c

theorem upperFirst_toNat (c : Char) : (upperFirst c).toNat = image upperRows c.toNat :=
  image_valid upperRows_valid c

theorem lowerChar_ne {c d : Char} (hd : (d.toNat, d.toNat) ∈
    (0x130, 0x130) :: (0x3A3, 0x3A3) :: whitespaceRuns) (hc : c ≠ d) : lowerChar c ≠ d := by
  intro heq
  have hne : c.toNat ≠ d.toNat := fun h => hc (Char.toNat_inj.1 h)
  have hoff := image_keepsOff lowerRows_keepOff hd (n := c.toNat) (by dsimp only; omega)
  rw [← lowerChar_toNat, heq] at hoff
  omega

/-- The lower case of a character. -/
theorem toLowercase_mem {c d : Char} (h : d ∈ toLowercase c) :
    d = 'i' ∨ d = '\u0307' ∨ c ≠ dottedI ∧ d = lowerChar c := by
  rw [toLowercase] at h
  split at h
  · simp only [List.mem_cons, List.not_mem_nil, or_false] at h
    tauto
  · next hc => exact .inr (.inr ⟨hc, List.mem_singleton.1 h⟩)

/-- The characters that lower case leads to beside its rows, and the dash. -/
def selfLower : List Char := ['i', '\u0307', 'ς', 'σ', '-']

theorem selfLower_checked : (selfLower.all fun c => toLowercase c == [c]) = true ∧
    toLowercase capitalSigma ≠ [capitalSigma] := by
  decide +kernel

theorem toLowercase_mark {c : Char} (h : c ∈ selfLower) : toLowercase c = [c] :=
  eq_of_beq (List.all_eq_true.1 selfLower_checked.1 c h)

/-- Lower case is its own lower case. -/
theorem toLowercase_stable {c d : Char} (h : d ∈ toLowercase c) : toLowercase d = [d] := by
  rcases toLowercase_mem h with rfl | rfl | ⟨hc, rfl⟩
  · exact toLowercase_mark (by simp [selfLower])
  · exact toLowercase_mark (by simp [selfLower])
  · have hdotted : lowerChar c ≠ dottedI := lowerChar_ne (by decide) hc
    rw [toLowercase, if_neg hdotted]
    congr 1
    apply Char.toNat_inj.1
    rw [lowerChar_toNat, lowerChar_toNat, image_fixed lowerRows_apart]

theorem toLowercase_visible {c d : Char} (hc : isWhitespace c = false) (h : d ∈ toLowercase c) :
    isWhitespace d = false := by
  rcases toLowercase_mem h with rfl | rfl | ⟨-, rfl⟩
  · decide
  · decide
  · rw [isWhitespace_runs] at hc ⊢
    intro run hrun
    rw [lowerChar_toNat]
    exact image_keepsOff lowerRows_keepOff
      (List.mem_cons_of_mem _ (List.mem_cons_of_mem _ hrun)) (hc run hrun)

theorem upperFirst_visible {c : Char} (hc : isWhitespace c = false) :
    isWhitespace (upperFirst c) = false := by
  rw [isWhitespace_runs] at hc ⊢
  intro run hrun
  rw [upperFirst_toNat]
  exact image_keepsOff upperRows_keepOff hrun (hc run hrun)

/-! ### Texts -/

section text

variable (cased caseIgnorable : Char → Bool)

/-- A text of which every character is its own lower case. -/
def Lower (text : List Char) : Prop := ∀ c ∈ text, toLowercase c = [c]

theorem lower_ne_sigma {c : Char} (h : toLowercase c = [c]) : c ≠ capitalSigma := by
  rintro rfl
  exact selfLower_checked.2 h

/-- A character of a text's lower case is that of a character, and its own. -/
theorem lowerText_mem (before text : List Char) :
    ∀ d ∈ lowerText cased caseIgnorable before text,
      toLowercase d = [d] ∧ ((∀ c ∈ text, isWhitespace c = false) → isWhitespace d = false) := by
  induction text generalizing before with
  | nil =>
      intro d hd
      cases hd
  | cons c text ih =>
      intro d hd
      rw [lowerText, List.mem_append] at hd
      rcases hd with hhere | hlater
      · split at hhere
        · rw [List.mem_singleton.1 hhere, mapUppercaseSigma]
          split
          · exact ⟨toLowercase_mark (by simp [selfLower]), fun _ => by decide⟩
          · exact ⟨toLowercase_mark (by simp [selfLower]), fun _ => by decide⟩
        · refine ⟨toLowercase_stable hhere, ?_⟩
          intro hvisible
          exact toLowercase_visible (hvisible c List.mem_cons_self) hhere
      · obtain ⟨hstable, hvisible⟩ := ih (c :: before) d hlater
        refine ⟨hstable, ?_⟩
        intro hall
        apply hvisible
        intro later hlater
        exact hall later (List.mem_cons_of_mem c hlater)

theorem lowerText_lower (before : List Char) {text : List Char} (h : Lower text) :
    lowerText cased caseIgnorable before text = text := by
  induction text generalizing before with
  | nil => rfl
  | cons c text ih =>
      have hc := h c List.mem_cons_self
      have hrest : Lower text := fun d hd => h d (List.mem_cons_of_mem c hd)
      rw [lowerText, if_neg (lower_ne_sigma hc), hc, ih (c :: before) hrest]
      rfl

theorem strToLowercase_lower {text : List Char} (h : Lower text) :
    strToLowercase cased caseIgnorable text = text := lowerText_lower cased caseIgnorable [] h

end text

end CharCase

end Yaldabaoth
