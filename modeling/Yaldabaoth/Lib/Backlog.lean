import Mathlib.Data.List.Basic
import Mathlib.Data.List.Induction

/-!
# `Backlog`: requests, and answers told apart by content only

A sequence of requests and answers over one alphabet. An answer names no
request: it settles the oldest open one with the same content, and is
lost when there is none. `backlog` is the queue of open requests.

`mem_backlog_iff` removes the queue: a request with the content `a` is
open exactly when some stretch at the end of the sequence holds more
requests than answers with that content. The argument is the one for a
counter that is pushed up and down and stops at zero: what it shows is
the largest excess over the stretches that end now.
-/

set_option autoImplicit false

universe u

namespace Backlog

/-- A request, or an answer to one. -/
inductive Entry (α : Type u) where
  | request (a : α)
  | answer (a : α)
deriving DecidableEq

variable {α : Type u} [DecidableEq α]

/-- What one entry does to the queue. -/
def advance (queue : List α) : Entry α → List α
  | .request a => queue ++ [a]
  | .answer a => queue.erase a

/-- The open requests after a sequence, oldest first. -/
def backlog (es : List (Entry α)) : List α := es.foldl advance []

/-- How many requests have this content. -/
def requests (a : α) (es : List (Entry α)) : Nat := es.count (.request a)

/-- How many answers have it. -/
def answers (a : α) (es : List (Entry α)) : Nat := es.count (.answer a)

@[simp] theorem backlog_nil : backlog ([] : List (Entry α)) = [] := rfl

@[simp] theorem backlog_append_singleton (es : List (Entry α)) (e : Entry α) :
    backlog (es ++ [e]) = advance (backlog es) e := by
  rw [backlog, List.foldl_append]
  rfl

/-- How many open requests have this content. -/
theorem count_advance (a : α) (queue : List α) (e : Entry α) :
    (advance queue e).count a =
      if e = .request a then queue.count a + 1
      else if e = .answer a then queue.count a - 1
      else queue.count a := by
  cases e with
  | request b =>
      by_cases h : b = a
      · subst h
        simp [advance]
      · simp [advance, h]
  | answer b =>
      by_cases h : b = a
      · subst h
        simp [advance, List.count_erase_self]
      · simp [advance, h, List.count_erase_of_ne (Ne.symm h)]

/-- The excess of requests, over the stretches at the end, is what is
open. -/
theorem lt_count_backlog_iff (a : α) (es : List (Entry α)) :
    ∀ k, k < (backlog es).count a ↔ ∃ stretch, stretch <:+ es ∧
      answers a stretch + k < requests a stretch := by
  induction es using List.reverseRecOn with
  | nil =>
      intro k
      simp [answers, requests]
  | append_singleton es e ih =>
      intro k
      -- A stretch at the end of `es ++ [e]` is empty, or one of `es` and `e`.
      have hends : (∃ stretch, stretch <:+ es ++ [e] ∧ answers a stretch + k < requests a stretch) ↔
          ∃ stretch, stretch <:+ es ∧
            answers a (stretch ++ [e]) + k < requests a (stretch ++ [e]) := by
        constructor
        · rintro ⟨stretch, hsuffix, hexcess⟩
          obtain rfl | ⟨front, rfl, hfront⟩ := List.suffix_concat_iff.1 hsuffix
          · simp [answers, requests] at hexcess
          · exact ⟨front, hfront, hexcess⟩
        · rintro ⟨front, hfront, hexcess⟩
          exact ⟨front ++ [e], List.suffix_concat_iff.2 (.inr ⟨front, rfl, hfront⟩), hexcess⟩
      rw [hends, backlog_append_singleton, count_advance]
      by_cases hrequest : e = .request a
      · -- One more is open, and every stretch has one more in excess.
        subst hrequest
        rw [if_pos rfl]
        cases k with
        | zero =>
            refine iff_of_true (by omega) ⟨[], List.nil_suffix, ?_⟩
            simp [answers, requests]
        | succ k =>
            rw [Nat.add_lt_add_iff_right, ih k]
            refine exists_congr fun front => and_congr_right fun _ => ?_
            simp only [answers, requests, List.count_append, List.count_singleton]
            simp
            omega
      · rw [if_neg hrequest]
        by_cases hanswer : e = .answer a
        · subst hanswer
          rw [if_pos rfl]
          have hopen : k < (backlog es).count a - 1 ↔ k + 1 < (backlog es).count a := by omega
          rw [hopen, ih (k + 1)]
          refine exists_congr fun front => and_congr_right fun _ => ?_
          simp only [answers, requests, List.count_append]
          simp
          omega
        · rw [if_neg hanswer, ih k]
          refine exists_congr fun front => and_congr_right fun _ => ?_
          simp [answers, requests, List.count_append, hrequest, hanswer]

/-- A request is open when some stretch at the end has more requests
than answers with its content. -/
theorem mem_backlog_iff (a : α) (es : List (Entry α)) :
    a ∈ backlog es ↔ ∃ stretch, stretch <:+ es ∧ answers a stretch < requests a stretch := by
  rw [← List.count_pos_iff, lt_count_backlog_iff]
  simp

end Backlog
