import Mathlib.Data.List.Infix
import Yaldabaoth.Lib.Maps
import Yaldabaoth.Model.Keys

/-!
# `Yaldabaoth.Model.Keybind`: from keys to actions

`keybind.rs`. The clock is a number of nanoseconds, the same for all of one
keystroke. What is fed back after a broken prefix goes before what is still
to be fed: a loop over `feed_key` in the source, a list here
(`feedKey_eq`).
-/

set_option autoImplicit false

namespace Yaldabaoth

namespace Keybind

def multiKeyTimeout : Nat := 1000000000

structure Bindings where
  single : Map KeyPress String
  multi : Map (List KeyPress) String

namespace Bindings

def isBound (b : Bindings) (keys : List KeyPress) : Bool := (b.multi.lookup keys).isSome

/-- Some sequence goes on from these keys. -/
def isStart (b : Bindings) (keys : List KeyPress) : Bool :=
  b.multi.keys.any fun seq => keys.length < seq.length && keys.isPrefixOf seq

end Bindings

/-! ### The matcher -/

inductive Feed where
  | matched (seq : List KeyPress)
  | pending
  | broken (first : KeyPress) (rest : List KeyPress)
  | unbound
deriving Repr, DecidableEq

structure KeySequenceMatcher where
  pending : List KeyPress := []
  pendingSince : Option Nat := none
deriving Repr, DecidableEq

namespace KeySequenceMatcher

/-- What is pending for too long is forgotten. -/
def expire (m : KeySequenceMatcher) (now : Nat) : KeySequenceMatcher :=
  match m.pendingSince with
  | some since => if multiKeyTimeout < now - since then {} else m
  | none => m

def feed (m : KeySequenceMatcher) (b : Bindings) (press : KeyPress) (now : Nat) :
    Feed × KeySequenceMatcher :=
  let keys := (m.expire now).pending ++ [press]
  if b.isBound keys then (.matched keys, {})
  else if b.isStart keys then (.pending, ⟨keys, some now⟩)
  else
    match keys with
    | first :: second :: rest => (.broken first (second :: rest), {})
    | _ => (if (b.single.lookup press).isSome then .matched keys else .unbound, {})

def hasPending (m : KeySequenceMatcher) : Bool := m.pending ≠ []

theorem expire_length (m : KeySequenceMatcher) (now : Nat) :
    (m.expire now).pending.length ≤ m.pending.length := by
  rw [expire]
  split
  · split
    · exact Nat.zero_le _
    · exact Nat.le_refl _
  · exact Nat.le_refl _

/-- The outcomes: the keys are bound, or go on, or are one key, or are a
start that can no longer be completed. -/
theorem feed_cases (m : KeySequenceMatcher) (b : Bindings) (press : KeyPress) (now : Nat) :
    b.isBound ((m.expire now).pending ++ [press]) = true ∧
        m.feed b press now = (.matched ((m.expire now).pending ++ [press]), {}) ∨
      b.isBound ((m.expire now).pending ++ [press]) = false ∧
        b.isStart ((m.expire now).pending ++ [press]) = true ∧
        m.feed b press now = (.pending, ⟨(m.expire now).pending ++ [press], some now⟩) ∨
      b.isBound [press] = false ∧ b.isStart [press] = false ∧ (m.expire now).pending = [] ∧
        m.feed b press now =
          (if (b.single.lookup press).isSome then .matched [press] else .unbound, {}) ∨
      ∃ first rest, b.isBound (first :: rest ++ [press]) = false ∧
        b.isStart (first :: rest ++ [press]) = false ∧ (m.expire now).pending = first :: rest ∧
          m.feed b press now = (.broken first (rest ++ [press]), {}) := by
  rw [feed]
  by_cases hbound : b.isBound ((m.expire now).pending ++ [press]) = true
  · exact .inl ⟨hbound, if_pos hbound⟩
  · rw [if_neg hbound]
    by_cases hstart : b.isStart ((m.expire now).pending ++ [press]) = true
    · exact .inr (.inl ⟨by simpa using hbound, hstart, if_pos hstart⟩)
    · rw [if_neg hstart]
      rw [Bool.not_eq_true] at hbound hstart
      cases hkeys : (m.expire now).pending with
      | nil =>
          rw [hkeys] at hbound hstart
          exact .inr (.inr (.inl ⟨hbound, hstart, rfl, rfl⟩))
      | cons first rest =>
          rw [hkeys] at hbound hstart
          refine .inr (.inr (.inr ⟨first, rest, hbound, hstart, rfl, ?_⟩))
          cases rest <;> rfl

end KeySequenceMatcher

/-! ### The manager -/

structure KeybindManager where
  matcher : KeySequenceMatcher := {}
  pendingCount : Option Nat := none
  queued : List (String × Option Nat) := []
  resolvedCount : Option (Option Nat) := none
deriving Repr, DecidableEq

namespace KeybindManager

/-- `to_digit` of a press without modifiers. -/
def digit (press : KeyPress) : Option Nat :=
  if press.modifiers.isEmpty then
    match press.key with
    | .char c => if c.isDigit then some (c.toNat - '0'.toNat) else none
    | _ => none
  else none

/-- The digit that a press adds to the count. -/
def countDigit (s : KeybindManager) (press : KeyPress) : Option Nat :=
  if s.matcher.hasPending then none
  else (digit press).filter fun d => !(d = 0 && s.pendingCount = none)

/-- One more digit, up to the largest `usize`. -/
def extendCount (count : Option Nat) (d : Nat) : Nat := min (count.getD 0 * 10 + d) u64Max

def actionOf (b : Bindings) (seq : List KeyPress) : Option String :=
  match seq with
  | [press] => b.single.lookup press
  | _ => b.multi.lookup seq

/-- An action takes the count that was typed before it. -/
def resolve (s : KeybindManager) (name : String) : KeybindManager :=
  { s with queued := s.queued ++ [(name, s.pendingCount)], pendingCount := none }

/-- A key, and what is to be fed after it, besides. -/
def feedStep (b : Bindings) (now : Nat) (s : KeybindManager) (press : KeyPress) :
    KeybindManager × List KeyPress :=
  match s.countDigit press with
  | some d => ({ s with pendingCount := some (extendCount s.pendingCount d) }, [])
  | none =>
      let (outcome, matcher) := s.matcher.feed b press now
      let s := { s with matcher }
      match outcome with
      | .matched seq =>
          match actionOf b seq with
          | some name => (s.resolve name, [])
          | none => (s, [])
      | .pending => (s, [])
      | .unbound => (s, [])
      | .broken first rest =>
          match b.single.lookup first with
          | some name => (s.resolve name, rest)
          | none => ({ s with pendingCount := none }, rest)

/-- What is fed again is no more than what was pending. -/
theorem feedStep_length (b : Bindings) (now : Nat) (s : KeybindManager) (press : KeyPress) :
    (feedStep b now s press).2 = [] ∧
        (feedStep b now s press).1.matcher.pending.length ≤ s.matcher.pending.length + 1 ∨
      (feedStep b now s press).1.matcher.pending = [] ∧
        (feedStep b now s press).2.length ≤ s.matcher.pending.length := by
  rw [feedStep]
  cases s.countDigit press with
  | some d => exact .inl ⟨rfl, Nat.le_succ _⟩
  | none =>
      have hexpire := s.matcher.expire_length now
      dsimp only
      rcases s.matcher.feed_cases b press now with ⟨-, hfeed⟩ | ⟨-, -, hfeed⟩ |
        ⟨-, -, -, hfeed⟩ | ⟨first, rest, -, -, hkeys, hfeed⟩
      · rw [hfeed]
        dsimp only
        cases actionOf b ((s.matcher.expire now).pending ++ [press]) with
        | some name => exact .inl ⟨rfl, Nat.zero_le _⟩
        | none => exact .inl ⟨rfl, Nat.zero_le _⟩
      · rw [hfeed]
        refine .inl ⟨rfl, ?_⟩
        dsimp only
        rw [List.length_append, List.length_singleton]
        omega
      · rw [hfeed]
        dsimp only
        cases hsingle : b.single.lookup press with
        | some name =>
            rw [Option.isSome_some, if_pos rfl]
            dsimp only [actionOf]
            rw [hsingle]
            exact .inl ⟨rfl, Nat.zero_le _⟩
        | none => exact .inl ⟨rfl, Nat.zero_le _⟩
      · rw [hfeed]
        rw [hkeys, List.length_cons] at hexpire
        have hlen : (rest ++ [press]).length ≤ s.matcher.pending.length := by
          rw [List.length_append, List.length_singleton]
          omega
        dsimp only
        cases b.single.lookup first with
        | some name => exact .inr ⟨rfl, hlen⟩
        | none => exact .inr ⟨rfl, hlen⟩

def feedKeys (b : Bindings) (now : Nat) (s : KeybindManager) : List KeyPress → KeybindManager
  | [] => s
  | press :: keys =>
      feedKeys b now (feedStep b now s press).1 ((feedStep b now s press).2 ++ keys)
termination_by keys => (s.matcher.pending.length + keys.length, keys.length)
decreasing_by
  rcases feedStep_length b now s press with ⟨hnone, hpending⟩ | ⟨hnone, hagain⟩
  · rw [hnone, Prod.lex_def]
    simp only [List.nil_append, List.length_cons]
    omega
  · rw [hnone, Prod.lex_def]
    simp only [List.length_append, List.length_nil, List.length_cons]
    omega

def feedKey (b : Bindings) (now : Nat) (s : KeybindManager) (press : KeyPress) : KeybindManager :=
  feedKeys b now s [press]

def nextQueuedAction (s : KeybindManager) : Option String × KeybindManager :=
  match s.queued with
  | [] => (none, s)
  | (name, count) :: queued => (some name, { s with queued, resolvedCount := some count })

def processKey (b : Bindings) (now : Nat) (s : KeybindManager) (press : KeyPress) :
    Option String × KeybindManager :=
  (feedKey b now { s with resolvedCount := none } press).nextQueuedAction

def takeCount (s : KeybindManager) : Option Nat × KeybindManager :=
  match s.resolvedCount with
  | some count => (count, { s with resolvedCount := none })
  | none => (s.pendingCount, { s with pendingCount := none })

def resetPending (_s : KeybindManager) : KeybindManager := {}

/-- The count of an action that was handed out, and the actions behind it
in the queue. -/
def drain (s : KeybindManager) : Nat → Option String → List (String × Option Nat) × KeybindManager
  | 0, _ => ([], s)
  | _ + 1, none => ([], s)
  | fuel + 1, some name =>
      let (count, s) := s.takeCount
      let (next, s) := s.nextQueuedAction
      let (rest, s) := s.drain fuel next
      ((name, count) :: rest, s)

/-- A keystroke, with the queue drained: the actions and their counts. -/
def keystroke (b : Bindings) (now : Nat) (s : KeybindManager) (press : KeyPress) :
    List (String × Option Nat) × KeybindManager :=
  let (first, s) := s.processKey b now press
  s.drain (s.queued.length + 1) first

/-- Keystrokes, each with its time. -/
def strokes (b : Bindings) (s : KeybindManager) :
    List (KeyPress × Nat) → List (String × Option Nat) × KeybindManager
  | [] => ([], s)
  | (press, now) :: rest =>
      let (actions, s) := keystroke b now s press
      let (more, s) := strokes b s rest
      (actions ++ more, s)

end KeybindManager

end Keybind

end Yaldabaoth
