import Yaldabaoth.Model.Editor
import Yaldabaoth.Proofs.Buffer.Rows

/-!
# `Yaldabaoth.Proofs.Buffer.Guards`: what the guards of the editor let pass

The guard of a deletion asks with one search whether a frozen range meets
the lines from the first to the last that the deletion touches.
`MayDelete` asks of every character that goes, whether it is on a frozen
line and whether its line break joins one.
-/

set_option autoImplicit false

namespace Yaldabaoth

open Rope Spans

variable {α μ : Type} [Glyph α]

/-- A deletion asked for character by character. Where it begins behind
the text, no character goes and its line is asked for all the same. -/
def MayDelete (text : List α) (Frozen : Nat → Prop) (lock delS delE : Nat) : Prop :=
  delE ≤ delS ∨
    lock ≤ (lineColOfChar text delS).1 ∧
    (∀ i, delS ≤ i → i < delE → ∀ a, text[i]? = some a →
      ¬ Frozen (charToLine text i) ∧ (isNl a = true → ¬ Frozen (charToLine text i + 1))) ∧
    (text.length ≤ delS → ¬ Frozen (lineColOfChar text delS).1)

/-- The lines that the characters of a stretch are on or join are those
from its first character to its end. -/
theorem exists_touched_line (text : List α) (P : Nat → Prop) {s e : Nat} (hlt : s < e)
    (hle : e ≤ text.length) :
    (∃ i, s ≤ i ∧ i < e ∧ ∃ a, text[i]? = some a ∧
      (P (charToLine text i) ∨ isNl a = true ∧ P (charToLine text i + 1))) ↔
    ∃ line, charToLine text s ≤ line ∧ line ≤ charToLine text e ∧ P line := by
  constructor
  · rintro ⟨i, hs, he, a, ha, hp | ⟨hnl, hp⟩⟩
    · exact ⟨_, charToLine_mono text hs, charToLine_mono text (Nat.le_of_lt he), hp⟩
    · have hnext : charToLine text (i + 1) = charToLine text i + 1 := by
        rw [charToLine_succ, ha, Option.any_some, hnl, if_pos rfl]
      refine ⟨_, Nat.le_succ_of_le (charToLine_mono text hs), ?_, hp⟩
      show charToLine text i + 1 ≤ _
      rw [← hnext]
      exact charToLine_mono text he
  · rintro ⟨line, hlo, hhi, hp⟩
    rcases Nat.eq_or_lt_of_le hlo with rfl | hlo
    · exact ⟨s, Nat.le_refl s, hlt, _, List.getElem?_eq_getElem (by omega), .inl hp⟩
    · -- A line behind the first one is joined by the line break before it.
      obtain ⟨k, hsk, hke, hnl, rfl⟩ := exists_break text (Nat.le_of_lt hlt) hlo hhi
      obtain ⟨a, ha, hnl⟩ := (Option.any_eq_true ..).1 hnl
      exact ⟨k, hsk, hke, a, ha, .inr ⟨hnl, hp⟩⟩

namespace EditorCore

omit [Glyph α] in
theorem isFrozenLine_iff {core : EditorCore α μ} (h : Sorted core.frozenLines) (line : Nat) :
    core.isFrozenLine line = true ↔ Covers core.frozenLines line :=
  containing_isSome h line

/-- The last line that the guard asks for is the one of the end. -/
theorem guard_hi (text : List α) {s e : Nat} (hlt : s < e) (hle : e ≤ text.length) :
    (if text[e - 1]?.any isNl && decide (charToLine text (e - 1) + 1 < lenLines text) then
      charToLine text (e - 1) + 1 else charToLine text (e - 1)) = charToLine text e := by
  obtain ⟨last, rfl⟩ := Nat.exists_eq_succ_of_ne_zero (Nat.ne_of_gt (Nat.zero_lt_of_lt hlt))
  have hbound := charToLine_lt_lenLines text (last + 1)
  rw [Nat.succ_sub_one, Nat.succ_eq_add_one, charToLine_succ] at *
  cases hnl : text[last]?.any isNl with
  | false => rfl
  | true =>
      rw [hnl, if_pos rfl] at hbound
      rw [decide_eq_true hbound]
      rfl

theorem canDeleteRange_iff {core : EditorCore α μ} (h : Sorted core.frozenLines) (delS delE : Nat) :
    core.canDeleteRange delS delE = true ↔
      MayDelete core.document.rope (Covers core.frozenLines) core.lockableThroughLine delS delE := by
  rw [canDeleteRange, MayDelete]
  generalize core.document.rope = text
  split
  · next hempty => exact iff_of_true rfl (.inl hempty)
  next hsome =>
  dsimp only
  rw [or_iff_right hsome]
  split
  · next hlock => exact iff_of_false Bool.false_ne_true fun hmay => absurd hmay.1 (by omega)
  next hlock =>
  rw [and_iff_right (Nat.le_of_not_lt hlock)]
  split
  · next hbehind =>
    -- Nothing goes: only the line itself is asked for.
    have hlen : text.length ≤ delS := by omega
    rw [Bool.not_eq_true', ← Bool.not_eq_true, isFrozenLine_iff h]
    constructor
    · intro hfrozen
      refine ⟨fun i hs _ a ha => ?_, fun _ => hfrozen⟩
      rw [List.getElem?_eq_none (by omega)] at ha
      cases ha
    · intro hmay
      exact hmay.2 hlen
  · next hreal =>
    have hlt : delS < min delE text.length := by omega
    have hle := Nat.min_le_right delE text.length
    rw [guard_hi text hlt hle, lineColOfChar_fst text (by omega), Bool.not_eq_true',
      ← Bool.not_eq_true, overlap_iff h (charToLine_mono text (Nat.le_of_lt hlt)),
      ← exists_touched_line text (Covers core.frozenLines) hlt hle]
    constructor
    · intro hnone
      refine ⟨fun i hs he a ha => ?_, fun hlen => absurd hlen (by omega)⟩
      have hlen := (List.getElem?_eq_some_iff.1 ha).1
      exact ⟨fun hp => hnone ⟨i, hs, by omega, a, ha, .inl hp⟩,
        fun hnl hp => hnone ⟨i, hs, by omega, a, ha, .inr ⟨hnl, hp⟩⟩⟩
    · rintro ⟨hmay, -⟩ ⟨i, hs, he, a, ha, hp⟩
      obtain ⟨hline, hjoin⟩ := hmay i hs (by omega) a ha
      rcases hp with hp | ⟨hnl, hp⟩
      · exact hline hp
      · exact hjoin hnl hp

def freeze (core : EditorCore α μ) (range : Nat × Nat) : EditorCore α μ :=
  core.addFrozenLines range.1 range.2

/-- The core with the frozen ranges that these calls of `add_frozen_lines`
build, and a locked prefix. -/
def laidOut (core : EditorCore α μ) (added : List (Nat × Nat)) (lock : Nat) : EditorCore α μ :=
  (added.foldl freeze { core with frozenLines := [] }).setLockableThroughLine lock

omit [Glyph α] in
theorem freeze_spec {core : EditorCore α μ} (h : Sorted core.frozenLines) (range : Nat × Nat) :
    Sorted (core.freeze range).frozenLines ∧
      ∀ i, Covers (core.freeze range).frozenLines i ↔
        Covers core.frozenLines i ∨ Within range i := by
  rw [freeze, addFrozenLines]
  split
  · next hempty =>
    refine ⟨h, fun i => (or_iff_left ?_).symm⟩
    rintro ⟨hlo, hhi⟩
    omega
  · next hrange => exact h.add (Nat.lt_of_not_le hrange)

omit [Glyph α] in
theorem laidOut_spec (core : EditorCore α μ) (added : List (Nat × Nat)) (lock : Nat) :
    (core.laidOut added lock).document = core.document ∧
      Sorted (core.laidOut added lock).frozenLines ∧
      ∀ i, Covers (core.laidOut added lock).frozenLines i ↔ Covers added i := by
  have hfold : ∀ core : EditorCore α μ, Sorted core.frozenLines →
      (added.foldl freeze core).document = core.document ∧
        Sorted (added.foldl freeze core).frozenLines ∧
        ∀ i, Covers (added.foldl freeze core).frozenLines i ↔
          Covers core.frozenLines i ∨ Covers added i := by
    induction added with
    | nil =>
        intro core h
        exact ⟨rfl, h, fun i => (or_iff_left (covers_nil i)).symm⟩
    | cons range added ih =>
        intro core h
        obtain ⟨hsorted, hcovers⟩ := freeze_spec h range
        obtain ⟨hdocument, hsorted, hrest⟩ := ih _ hsorted
        have hkept : (core.freeze range).document = core.document := by
          rw [freeze, addFrozenLines]
          split <;> rfl
        refine ⟨hdocument.trans hkept, hsorted, fun i => ?_⟩
        rw [List.foldl_cons, hrest, hcovers, covers_cons, or_assoc]
  obtain ⟨hdocument, hsorted, hcovers⟩ := hfold { core with frozenLines := [] } sorted_nil
  exact ⟨hdocument, hsorted, fun i => (hcovers i).trans (or_iff_right (covers_nil i))⟩

/-- The guard answers what asking every character that goes would. -/
theorem can_delete_range_per_character (core : EditorCore α μ) (added : List (Nat × Nat))
    (lock delS delE : Nat) :
    (core.laidOut added lock).canDeleteRange delS delE = true ↔
      MayDelete core.document.rope (Covers added) lock delS delE := by
  obtain ⟨hdocument, hsorted, hcovers⟩ := laidOut_spec core added lock
  rw [canDeleteRange_iff hsorted, hdocument, funext fun i => propext (hcovers i)]
  exact Iff.rfl

/-- A range behind the end of the text, where the last line is frozen:
no character goes, and the guard says no. -/
theorem can_delete_range_behind_text :
    ¬ ∀ (core : EditorCore Char Unit) (added : List (Nat × Nat)) (lock delS delE : Nat),
      (core.laidOut added lock).canDeleteRange delS delE = true ↔
        delE ≤ delS ∨
          lock ≤ (lineColOfChar core.document.rope delS).1 ∧
          ∀ i, delS ≤ i → i < delE → ∀ a, core.document.rope[i]? = some a →
            ¬ Covers added (charToLine core.document.rope i) ∧
              (isNl a = true → ¬ Covers added (charToLine core.document.rope i + 1)) := by
  intro h
  have hguard : ((EditorCore.new ['a'] "" : EditorCore Char Unit).laidOut [(0, 1)] 0).canDeleteRange
      1 2 = false := by decide
  have hnow := (h (EditorCore.new ['a'] "") [(0, 1)] 0 1 2).2 (.inr ⟨Nat.zero_le _, fun i hs _ a ha => by
    have hrope : (EditorCore.new ['a'] "" : EditorCore Char Unit).document.rope = ['a'] := by
      decide
    rw [hrope, List.getElem?_eq_none hs] at ha
    cases ha⟩)
  rw [hguard] at hnow
  exact Bool.false_ne_true hnow

end EditorCore

end Yaldabaoth
