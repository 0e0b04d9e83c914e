import Mathlib.Data.List.Infix

/-!
# `Yaldabaoth.Lib.TextLines`: texts in lines, and lines in chunks

A text is a list of characters. `lines` cuts it at its line ends and takes
a carriage return before the end away with it; `unlines` ends every line
with a line feed, and `lines_unlines` says what comes back. `chunks` cuts
a list of lines at those that are heads of something. What a test for a
prefix says of a text that begins with a known one is decided by the known
part (`isPrefixOf_append`, `isPrefixOf_apart`).
-/

set_option autoImplicit false

namespace TextLines

/-! ### Definitions -/

/-- What follows the prefix. -/
def afterPrefix (lead text : List Char) : Option (List Char) :=
  if lead.isPrefixOf text then some (text.drop lead.length) else none

/-- `\r` before the end of a line goes with it. -/
def dropCr (line : List Char) : List Char :=
  if line.getLast? = some '\r' then line.dropLast else line

/-- The lines of a text; a last line end starts no line. -/
def lines (text : List Char) : List (List Char) :=
  let pieces := text.splitOn '\n'
  pieces.dropLast.map dropCr ++ (pieces.getLast?.filter fun piece => piece ≠ []).toList

/-- Every line with its end. -/
def unlines (ls : List (List Char)) : List Char := ls.flatMap fun line => line ++ ['\n']

/-- What stands behind the first occurrence of `pat`. -/
def afterFirst (pat : List Char) : List Char → Option (List Char)
  | [] => if pat = [] then some [] else none
  | c :: rest =>
      if pat.isPrefixOf (c :: rest) then some ((c :: rest).drop pat.length) else afterFirst pat rest

/-- What stands before the first occurrence of `pat`, or everything. -/
def beforeFirst (pat : List Char) : List Char → List Char
  | [] => []
  | c :: rest => if pat.isPrefixOf (c :: rest) then [] else c :: beforeFirst pat rest

/-- A text cut at the lines that are heads: what is before the first, and
each head with the lines up to the next one or to a line that stops it. -/
def chunks (head stop : List Char → Bool) :
    List (List Char) → List (List Char) × List (List Char × List (List Char))
  | [] => ([], [])
  | line :: rest =>
      let (front, found) := chunks head stop rest
      if head line then ([], (line, front) :: found)
      else if stop line then ([], found)
      else (line :: front, found)

/-! ### Prefixes -/

theorem isPrefixOf_append {lead known : List Char} (h : lead.length ≤ known.length)
    (rest : List Char) : lead.isPrefixOf (known ++ rest) = lead.isPrefixOf known := by
  rw [Bool.eq_iff_iff, List.isPrefixOf_iff_prefix, List.isPrefixOf_iff_prefix]
  constructor
  · intro hlead
    exact List.prefix_of_prefix_length_le hlead (List.prefix_append known rest) h
  · intro hlead
    exact hlead.trans (List.prefix_append known rest)

/-- Two texts that are not the start of each other start no text both. -/
theorem isPrefixOf_apart {lead known : List Char} (h : ¬ lead <+: known) (h' : ¬ known <+: lead)
    (rest : List Char) : lead.isPrefixOf (known ++ rest) = false := by
  rw [← Bool.not_eq_true, List.isPrefixOf_iff_prefix]
  intro hlead
  rcases List.prefix_or_prefix_of_prefix hlead (List.prefix_append known rest) with hle | hle
  · exact h hle
  · exact h' hle

@[simp] theorem afterPrefix_self (lead rest : List Char) :
    afterPrefix lead (lead ++ rest) = some rest := by
  rw [afterPrefix, if_pos (List.isPrefixOf_iff_prefix.2 (List.prefix_append lead rest)),
    List.drop_left]

theorem afterPrefix_apart {lead known : List Char} (h : ¬ lead <+: known) (h' : ¬ known <+: lead)
    (rest : List Char) : afterPrefix lead (known ++ rest) = none := by
  rw [afterPrefix, isPrefixOf_apart h h' rest]
  rfl

/-! ### Lines -/

/-- The end of a line is not in what it is known to begin with. -/
theorem dropCr_append {known : List Char} (h : known.getLast? ≠ some '\r') (rest : List Char) :
    dropCr (known ++ rest) = known ++ dropCr rest := by
  rcases List.eq_nil_or_concat rest with rfl | ⟨front, last, rfl⟩
  · rw [List.append_nil, dropCr, if_neg h]
    simp [dropCr]
  · rw [List.concat_eq_append, dropCr, dropCr, ← List.append_assoc, List.getLast?_concat,
      List.getLast?_concat]
    split
    · rw [List.dropLast_concat, List.dropLast_concat]
    · rw [List.append_assoc]

theorem dropCr_eq_self {line : List Char} : dropCr line = line ↔ line.getLast? ≠ some '\r' := by
  rw [dropCr]
  split
  · next hcr =>
    refine iff_of_false ?_ (not_not.2 hcr)
    intro hsame
    have hlen := congrArg List.length hsame
    rw [List.length_dropLast] at hlen
    have hne : line ≠ [] := by
      rintro rfl
      cases hcr
    have hpos := List.length_pos_iff.2 hne
    omega
  · next hcr => exact iff_of_true rfl hcr

theorem splitOn_unlines {ls : List (List Char)} (h : ∀ line ∈ ls, '\n' ∉ line) :
    (unlines ls).splitOn '\n' = ls ++ [[]] := by
  induction ls with
  | nil => rfl
  | cons line ls ih =>
      have hline := h line (List.mem_cons_self ..)
      rw [unlines, List.flatMap_cons, List.append_assoc, List.singleton_append,
        List.splitOn_append_cons_self_of_not_mem hline]
      have hrest := ih fun other hother => h other (List.mem_cons_of_mem _ hother)
      rw [unlines] at hrest
      rw [hrest]
      rfl

/-- A text in lines is read back, less the carriage returns. -/
theorem lines_unlines {ls : List (List Char)} (h : ∀ line ∈ ls, '\n' ∉ line) :
    lines (unlines ls) = ls.map dropCr := by
  rw [lines, splitOn_unlines h, List.dropLast_concat, List.getLast?_concat]
  simp

/-! ### The first occurrence -/

/-- No end of the text is also a start of it. -/
def Borderless (pat : List Char) : Prop := ∀ k < pat.length, 0 < k → ¬ pat.drop k <+: pat

instance (pat : List Char) : Decidable (Borderless pat) :=
  inferInstanceAs (Decidable (∀ k < pat.length, 0 < k → ¬ pat.drop k <+: pat))

/-- Two occurrences of a borderless text do not overlap. -/
theorem Borderless.start {pat front rest : List Char} (h : Borderless pat) (hfront : front ≠ [])
    (hlead : pat <+: front ++ (pat ++ rest)) : pat <+: front := by
  by_cases hlen : pat.length ≤ front.length
  · exact List.prefix_of_prefix_length_le hlead (List.prefix_append ..) hlen
  · exfalso
    have hstart : front <+: pat :=
      List.prefix_of_prefix_length_le (List.prefix_append ..) hlead (by omega)
    obtain ⟨back, rfl⟩ := hstart
    rw [List.append_assoc, List.prefix_append_right_inj] at hlead
    have hback : back <+: front ++ back := by
      refine List.prefix_of_prefix_length_le hlead ?_ (by simp)
      rw [← List.append_assoc]
      exact List.prefix_append _ rest
    have hpos := List.length_pos_iff.2 hfront
    have hdrop : (front ++ back).drop front.length = back := List.drop_left
    refine h front.length (Nat.lt_of_not_le hlen) hpos ?_
    rw [hdrop]
    exact hback

/-- The first occurrence is found where none is before it. -/
theorem afterFirst_eq {pat : List Char} (hpat : pat ≠ []) (hborder : Borderless pat)
    (rest : List Char) {front : List Char} (hnone : ¬ pat <:+: front) :
    afterFirst pat (front ++ (pat ++ rest)) = some rest := by
  induction front with
  | nil =>
      obtain ⟨c, tail, rfl⟩ := List.exists_cons_of_ne_nil hpat
      rw [List.nil_append, List.cons_append, afterFirst, ← List.cons_append,
        if_pos (List.isPrefixOf_iff_prefix.2 (List.prefix_append _ rest)), List.drop_left]
  | cons c front ih =>
      have hnot : ¬ pat <+: (c :: front) ++ (pat ++ rest) := fun hlead =>
        hnone (hborder.start (List.cons_ne_nil c front) hlead).isInfix
      rw [List.cons_append] at hnot ⊢
      rw [afterFirst, if_neg (mt List.isPrefixOf_iff_prefix.1 hnot)]
      exact ih fun hinside => hnone (hinside.trans (List.suffix_cons c front).isInfix)

/-- An earlier occurrence leaves more behind it. -/
theorem afterFirst_length {pat : List Char} (hpat : pat ≠ []) (rest : List Char)
    (front : List Char) : ∃ found, afterFirst pat (front ++ (pat ++ rest)) = some found ∧
      (pat <:+: front → pat.length + rest.length ≤ found.length) := by
  induction front with
  | nil =>
      obtain ⟨c, tail, rfl⟩ := List.exists_cons_of_ne_nil hpat
      refine ⟨rest, ?_, fun hinside => ?_⟩
      · rw [List.nil_append, List.cons_append, afterFirst, ← List.cons_append,
          if_pos (List.isPrefixOf_iff_prefix.2 (List.prefix_append _ rest)), List.drop_left]
      · have hlen := hinside.length_le
        simp at hlen
  | cons c front ih =>
      rw [List.cons_append, afterFirst]
      split
      · refine ⟨_, rfl, fun hinside => ?_⟩
        have hlen := hinside.length_le
        rw [List.length_drop, List.length_cons, List.length_append, List.length_append]
        rw [List.length_cons] at hlen
        omega
      · next hnot =>
        obtain ⟨found, hfound, hmore⟩ := ih
        refine ⟨found, hfound, fun hinside => hmore ?_⟩
        rcases List.infix_cons_iff.1 hinside with hlead | hlater
        · exfalso
          apply hnot
          rw [List.isPrefixOf_iff_prefix, ← List.cons_append]
          exact hlead.trans (List.prefix_append _ _)
        · exact hlater

/-! ### Chunks -/

section chunks

variable {head stop : List Char → Bool}

theorem chunks_append {front : List (List Char)} (hhead : ∀ line ∈ front, head line = false)
    (hstop : ∀ line ∈ front, stop line = false) (rest : List (List Char)) :
    chunks head stop (front ++ rest) =
      (front ++ (chunks head stop rest).1, (chunks head stop rest).2) := by
  induction front with
  | nil => rfl
  | cons line front ih =>
      have hmore := ih (fun other hother => hhead other (List.mem_cons_of_mem _ hother))
        fun other hother => hstop other (List.mem_cons_of_mem _ hother)
      rw [List.cons_append, chunks, hmore]
      simp only [hhead line (List.mem_cons_self ..), hstop line (List.mem_cons_self ..),
        Bool.false_eq_true, if_false, List.cons_append]

/-- Heads with their bodies are cut where they were put together. -/
theorem chunks_flatMap {blocks : List (List Char × List (List Char))}
    (hheads : ∀ block ∈ blocks, head block.1 = true)
    (hbodies : ∀ block ∈ blocks, ∀ line ∈ block.2, head line = false)
    (hstops : ∀ block ∈ blocks, ∀ line ∈ block.2, stop line = false) :
    chunks head stop (blocks.flatMap fun block => block.1 :: block.2) = ([], blocks) := by
  induction blocks with
  | nil => rfl
  | cons block blocks ih =>
      have hmore := ih (fun other hother => hheads other (List.mem_cons_of_mem _ hother))
        (fun other hother => hbodies other (List.mem_cons_of_mem _ hother))
        fun other hother => hstops other (List.mem_cons_of_mem _ hother)
      rw [List.flatMap_cons, List.cons_append, chunks,
        chunks_append (hbodies block (List.mem_cons_self ..)) (hstops block (List.mem_cons_self ..)),
        hmore]
      simp only [hheads block (List.mem_cons_self ..), if_true, List.append_nil]

end chunks

end TextLines
