import Mathlib.Data.List.Nodup
import Mathlib.Data.List.Perm.Subperm
import Mathlib.Data.Nat.Find
import Yaldabaoth.Model.DiffModel

/-!
# `Yaldabaoth.Model.SlotLabels`: the labels of restored sessions

`unique_label` and `dedupe_slot_labels`. A slot that keeps no label gets
the smallest `claude-N` that nobody has yet; the numbers are counted from
zero here, `claude 0` is `claude-1`.
-/

set_option autoImplicit false

namespace Yaldabaoth

namespace SlotLabels

open DiffText (chars)

abbrev Label := List Char

local instance labelLawful : LawfulBEq Label := List.instLawfulBEq

def claude (n : Nat) : Label := chars "claude-" ++ Nat.toDigits 10 (n + 1)

def blank (label : Label) : Bool := DiffText.trim label = []

theorem claude_injective {m n : Nat} (h : claude m = claude n) : m = n := by
  have hdigits := List.append_cancel_left h
  have hvalue := congrArg (fun digits => Nat.ofDigitChars 10 digits 0) hdigits
  rw [Nat.ofDigitChars_ten_toDigits, Nat.ofDigitChars_ten_toDigits] at hvalue
  exact Nat.succ.inj hvalue

/-- The range of numbers never runs out. -/
theorem exists_free (used : List Label) : ∃ n, claude n ∉ used := by
  by_contra hall
  rw [not_exists] at hall
  have hsub : ((List.range (used.length + 1)).map claude).Subperm used := by
    refine List.subperm_of_subset ?_ ?_
    · exact List.Nodup.map (fun _ _ => claude_injective) List.nodup_range
    · intro label hlabel
      obtain ⟨n, -, rfl⟩ := List.mem_map.1 hlabel
      exact not_not.1 (hall n)
  have hlen := hsub.length_le
  rw [List.length_map, List.length_range] at hlen
  omega

/-- The smallest number that is free. -/
def freeNumber (used : List Label) : Nat := Nat.find (exists_free used)

def uniqueLabel (desired : Label) (used : List Label) : Label :=
  if !blank desired && desired ∉ used then desired else claude (freeNumber used)

/-- A restored slot; `ρ` is what the labels do not depend on. -/
structure PersistedSlot (ρ : Type) where
  label : Label
  rest : ρ

section dedupe

variable {ρ : Type}

/-- A label that is missing in the file is loaded as empty. -/
def slotOf (entry : Option Label × ρ) : PersistedSlot ρ := ⟨entry.1.getD [], entry.2⟩

/-- The loop of `dedupe_slot_labels`, with the labels in use so far. -/
def dedupeFrom (used : List Label) : List (PersistedSlot ρ) → List (PersistedSlot ρ)
  | [] => []
  | s :: slots =>
      { s with label := uniqueLabel s.label used } ::
        dedupeFrom (used ++ [uniqueLabel s.label used]) slots

def dedupeSlotLabels (slots : List (PersistedSlot ρ)) : List (PersistedSlot ρ) :=
  dedupeFrom [] slots

end dedupe

end SlotLabels

end Yaldabaoth
