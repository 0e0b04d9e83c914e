import Mathlib.Data.List.TakeWhile
import Yaldabaoth.Model.DiffScript

/-!
# `Yaldabaoth.Proofs.Diff.Headers`: what a hunk header is read as

The four readings of a header agree with the script it was printed from:
`firstLines` and `nextLines` are where the block starts and ends on either
side (`firstLines_hunkAt`, `nextLines_hunkAt`), and `lineNumbers` counts
its lines from there (`lineNumbers_hunkAt`), a side without lines
included.
-/

set_option autoImplicit false

namespace Yaldabaoth

namespace Diff

open TextLines
open DiffText (chars parseUsize secondPiece)

/-! ### Numbers -/

theorem parseUsize_toDigits {n : Nat} (h : n ≤ u64Max) :
    parseUsize (Nat.toDigits 10 n) = some n := by
  have hdigits : ∀ c ∈ Nat.toDigits 10 n, c.isDigit = true := fun c hc =>
    Nat.isDigit_of_mem_toDigits (by decide) (by decide) hc
  have hplus : afterPrefix ['+'] (Nat.toDigits 10 n) = none := by
    rw [afterPrefix, if_neg]
    rw [List.isPrefixOf_iff_prefix]
    intro hlead
    have hmem := hdigits '+' (hlead.subset (List.mem_singleton.2 rfl))
    revert hmem
    decide
  rw [parseUsize, hplus, Option.getD_none, if_neg]
  · have hvalue : (Nat.toDigits 10 n).foldl
        (fun acc digit => 10 * acc + (digit.toNat - '0'.toNat)) 0 = n :=
      Nat.ofDigitChars_ten_toDigits
    rw [hvalue, if_pos h]
  · rw [not_or, not_not]
    exact ⟨Nat.toDigits_ne_nil, List.all_eq_true.2 hdigits⟩

theorem digit_ne {n : Nat} {c d : Char} (hc : c ∈ Nat.toDigits 10 n) (hd : d.isDigit = false) :
    c ≠ d := by
  rintro rfl
  rw [Nat.isDigit_of_mem_toDigits (by decide) (by decide) hc] at hd
  cases hd

/-! ### Operands -/

/-- A text without a blank ends at the first blank, or where it is cut at a
text that starts with one. -/
theorem takeWhile_beforeFirst {p : Char → Bool} {word pat : List Char}
    (hword : ∀ c ∈ word, c ≠ ' ' ∧ p c = true) (hpat : pat.head? = some ' ')
    (hp : p ' ' = false) (rest : List Char) :
    (beforeFirst pat (word ++ ' ' :: rest)).takeWhile p = word := by
  induction word with
  | nil =>
      rw [List.nil_append, beforeFirst]
      split
      · rfl
      · rw [List.takeWhile_cons_of_neg (by rw [hp]; decide)]
  | cons c word ih =>
      have hc := hword c (List.mem_cons_self ..)
      rw [List.cons_append, beforeFirst, if_neg, List.takeWhile_cons_of_pos hc.2,
        ih fun d hd => hword d (List.mem_cons_of_mem _ hd)]
      intro hlead
      obtain ⟨tail, hpat'⟩ : ∃ tail, pat = ' ' :: tail := by
        cases pat with
        | nil => cases hpat
        | cons d tail => exact ⟨tail, by rw [Option.some.inj hpat]⟩
      rw [List.isPrefixOf_iff_prefix, hpat', List.cons_prefix_cons] at hlead
      exact hc.1 hlead.1.symm

namespace Script

theorem operand_plain (first count : Nat) : ∀ c ∈ operand first count, c ≠ ' ' := by
  intro c hc
  rw [operand, List.mem_append] at hc
  rcases hc with hstart | hcount
  · exact digit_ne hstart (by decide)
  · split at hcount
    · cases hcount
    · rcases List.mem_cons.1 hcount with rfl | hdigit
      · decide
      · exact digit_ne hdigit (by decide)

/-- The operand behind the minus sign. -/
theorem secondPiece_old (o n : Nat) (b : Block) : ∃ after,
    secondPiece (chars " -") (hunkHeader o n b) = some after ∧
      after.takeWhile (fun c => c ≠ ' ') = operand o (oldCount b.lines) := by
  refine ⟨beforeFirst (chars " -") (operand o (oldCount b.lines) ++ ' ' :: ('+' ::
    (operand n (newCount b.lines) ++ (chars " @@" ++ b.heading)))), ?_,
    takeWhile_beforeFirst ?_ ?_ (by decide) _⟩
  · rw [secondPiece, hunkHeader, afterFirst_eq (by decide) (by decide) _ (by decide)]
    rfl
  · intro c hc
    have hne := operand_plain o (oldCount b.lines) c hc
    exact ⟨hne, by simpa using hne⟩
  · rfl

/-- The operand behind the plus sign: nothing before it looks like one. -/
theorem secondPiece_new (o n : Nat) (b : Block) : ∃ after,
    secondPiece (chars " +") (hunkHeader o n b) = some after ∧
      after.takeWhile (fun c => c ≠ ' ') = operand n (newCount b.lines) := by
  have hnone : ¬ chars " +" <:+: chars "@@" ++ (chars " -" ++ operand o (oldCount b.lines)) := by
    show ¬ chars " +" <:+: '@' :: '@' :: ' ' :: '-' :: operand o (oldCount b.lines)
    rw [List.infix_cons_iff, List.infix_cons_iff, List.infix_cons_iff, List.infix_cons_iff]
    have hinside : ¬ chars " +" <:+: operand o (oldCount b.lines) := fun hinside =>
      operand_plain o _ ' ' (hinside.subset (by decide)) rfl
    simp [chars] at hinside ⊢
    exact hinside
  refine ⟨beforeFirst (chars " +") (operand n (newCount b.lines) ++ ' ' :: ('@' :: '@' ::
    b.heading)), ?_, takeWhile_beforeFirst ?_ ?_ (by decide) _⟩
  · rw [secondPiece, hunkHeader, ← List.append_assoc (chars " -"), ← List.append_assoc (chars "@@"),
      afterFirst_eq (by decide) (by decide) _ hnone]
    rfl
  · intro c hc
    have hne := operand_plain n (newCount b.lines) c hc
    exact ⟨hne, by simpa using hne⟩
  · rfl

theorem takeWhile_operand (first count : Nat) :
    (operand first count).takeWhile (fun c => c ≠ ',') = Nat.toDigits 10 (startOf first count) := by
  have hdigits : ∀ c ∈ Nat.toDigits 10 (startOf first count), decide (c ≠ ',') = true := by
    intro c hc
    simpa using digit_ne hc (by decide)
  rw [operand, List.takeWhile_append_of_pos hdigits]
  split
  · simp
  · simp

theorem dropWhile_operand (first count : Nat) :
    (operand first count).dropWhile (fun c => c ≠ ',') =
      if count = 1 then [] else ',' :: Nat.toDigits 10 count := by
  have hdigits : ∀ c ∈ Nat.toDigits 10 (startOf first count), decide (c ≠ ',') = true := by
    intro c hc
    simpa using digit_ne hc (by decide)
  rw [operand, List.dropWhile_append_of_pos hdigits]
  split
  · rfl
  · simp

end Script

open Script

section headers

variable {o n : Nat} {b : Block} (hold : startOf o (oldCount b.lines) ≤ u64Max)
  (hnew : startOf n (newCount b.lines) ≤ u64Max) (holds : oldCount b.lines ≤ u64Max)
  (hnews : newCount b.lines ≤ u64Max)

include hold hnew

theorem starts_hunkAt : (hunkAt o n b).starts =
    (startOf o (oldCount b.lines), startOf n (newCount b.lines)) := by
  obtain ⟨after, hafter, hop⟩ := secondPiece_old o n b
  obtain ⟨after', hafter', hop'⟩ := secondPiece_new o n b
  have hstart : after.takeWhile (fun c => c ≠ ',' && c ≠ ' ') =
      Nat.toDigits 10 (startOf o (oldCount b.lines)) := by
    rw [← takeWhile_operand, ← hop, List.takeWhile_takeWhile]
    simp
  have hstart' : after'.takeWhile (fun c => c ≠ ',' && c ≠ ' ') =
      Nat.toDigits 10 (startOf n (newCount b.lines)) := by
    rw [← takeWhile_operand, ← hop', List.takeWhile_takeWhile]
    simp
  rw [Hunk.starts, hunkAt]
  dsimp only
  rw [hafter, hafter']
  show ((parseUsize _).getD 0, (parseUsize _).getD 0) = _
  rw [hstart, hstart', parseUsize_toDigits hold, parseUsize_toDigits hnew]
  rfl

include holds hnews

theorem ranges_hunkAt : (hunkAt o n b).ranges =
    ((startOf o (oldCount b.lines), oldCount b.lines),
      (startOf n (newCount b.lines), newCount b.lines)) := by
  obtain ⟨after, hafter, hop⟩ := secondPiece_old o n b
  obtain ⟨after', hafter', hop'⟩ := secondPiece_new o n b
  have hread := parseUsize_toDigits holds
  have hread' := parseUsize_toDigits hnews
  rw [Hunk.ranges, hunkAt]
  dsimp only
  rw [hafter, hafter']
  simp only [Option.bind_eq_bind, Option.bind_some, hop, hop', takeWhile_operand, dropWhile_operand,
    parseUsize_toDigits hold, parseUsize_toDigits hnew]
  -- a count of one is left out
  by_cases hone : oldCount b.lines = 1
  · by_cases hone' : newCount b.lines = 1
    · simp [hone, hone']
    · simp [hone, hone', hread']
  · by_cases hone' : newCount b.lines = 1
    · simp [hone, hone', hread]
    · simp [hone, hone', hread, hread']

/-- A side without lines names the line before, and is read as one further. -/
theorem firstLines_hunkAt (ho : 0 < o) (hn : 0 < n) : (hunkAt o n b).firstLines = (o, n) := by
  have hfirst : ∀ at' count : Nat, 0 < at' → Hunk.firstOf (startOf at' count) count = at' := by
    intro at' count hpos
    rw [Hunk.firstOf, startOf]
    split <;> omega
  rw [Hunk.firstLines, ranges_hunkAt hold hnew holds hnews]
  exact Prod.ext (hfirst o _ ho) (hfirst n _ hn)

theorem nextLines_hunkAt (ho : 0 < o) (hn : 0 < n) : (hunkAt o n b).nextLines =
    (o + oldCount b.lines, n + newCount b.lines) := by
  have hnext : ∀ at' count : Nat, 0 < at' →
      Hunk.nextOf (startOf at' count) count = at' + count := by
    intro at' count hpos
    rw [Hunk.nextOf, startOf]
    split <;> omega
  rw [Hunk.nextLines, ranges_hunkAt hold hnew holds hnews]
  exact Prod.ext (hnext o _ ho) (hnext n _ hn)

end headers

/-! ### Numbers of lines -/

section count

variable (text : List Char) (lines front back : List DiffLine) (len : Nat)

@[simp] theorem oldCount_context : oldCount (.context text :: lines) = oldCount lines + 1 := rfl

@[simp] theorem oldCount_removed : oldCount (.removed text :: lines) = oldCount lines + 1 := rfl

@[simp] theorem oldCount_added : oldCount (.added text :: lines) = oldCount lines := rfl

@[simp] theorem newCount_context : newCount (.context text :: lines) = newCount lines + 1 := rfl

@[simp] theorem newCount_removed : newCount (.removed text :: lines) = newCount lines := rfl

@[simp] theorem newCount_added : newCount (.added text :: lines) = newCount lines + 1 := rfl

@[simp] theorem oldCount_append : oldCount (front ++ back) = oldCount front + oldCount back := by
  rw [oldCount, List.filterMap_append, List.length_append]
  rfl

@[simp] theorem newCount_append : newCount (front ++ back) = newCount front + newCount back := by
  rw [newCount, List.filterMap_append, List.length_append]
  rfl

@[simp] theorem oldCount_unchanged : oldCount (unchanged len) = len := by
  have hseen : onSide .old (.context []) = some [] := rfl
  rw [oldCount, unchanged, List.filterMap_replicate_of_some hseen, List.length_replicate]

@[simp] theorem newCount_unchanged : newCount (unchanged len) = len := by
  have hseen : onSide .new (.context []) = some [] := rfl
  rw [newCount, unchanged, List.filterMap_replicate_of_some hseen, List.length_replicate]

end count

/-- Lines are numbered on from where the lines before them end. -/
theorem numbersFrom_append (o n : Nat) (front back : List DiffLine) :
    Hunk.numbersFrom o n (front ++ back) =
      Hunk.numbersFrom o n front ++
        Hunk.numbersFrom (o + oldCount front) (n + newCount front) back := by
  induction front generalizing o n with
  | nil => rfl
  | cons line front ih =>
      cases line with
      | context _ =>
          simp only [List.cons_append, Hunk.numbersFrom, ih, oldCount_context, newCount_context]
          rw [Nat.add_right_comm o, Nat.add_right_comm n, Nat.add_assoc o, Nat.add_assoc n]
      | removed _ =>
          simp only [List.cons_append, Hunk.numbersFrom, ih, oldCount_removed, newCount_removed]
          rw [Nat.add_right_comm o, Nat.add_assoc o]
      | added _ =>
          simp only [List.cons_append, Hunk.numbersFrom, ih, oldCount_added, newCount_added]
          rw [Nat.add_right_comm n, Nat.add_assoc n]

/-- A side without lines is not numbered. -/
theorem numbersFrom_congr {o o' n n' : Nat} {lines : List DiffLine}
    (ho : oldCount lines ≠ 0 → o = o') (hn : newCount lines ≠ 0 → n = n') :
    Hunk.numbersFrom o n lines = Hunk.numbersFrom o' n' lines := by
  induction lines generalizing o o' n n' with
  | nil => rfl
  | cons line lines ih =>
      cases line with
      | context _ =>
          have hold : o = o' := ho (by simp)
          have hnew : n = n' := hn (by simp)
          rw [hold, hnew]
      | removed _ =>
          have hold : o = o' := ho (by simp)
          rw [hold, Hunk.numbersFrom, Hunk.numbersFrom, ih (fun _ => rfl) hn]
      | added _ =>
          have hnew : n = n' := hn (by simp)
          rw [hnew, Hunk.numbersFrom, Hunk.numbersFrom, ih ho (fun _ => rfl)]

theorem lineNumbers_hunkAt {o n : Nat} {b : Block} (hold : startOf o (oldCount b.lines) ≤ u64Max)
    (hnew : startOf n (newCount b.lines) ≤ u64Max) :
    (hunkAt o n b).lineNumbers = Hunk.numbersFrom o n b.lines := by
  rw [Hunk.lineNumbers, starts_hunkAt hold hnew]
  refine numbersFrom_congr ?_ ?_
  · intro hne
    exact if_neg hne
  · intro hne
    exact if_neg hne

end Diff

end Yaldabaoth
