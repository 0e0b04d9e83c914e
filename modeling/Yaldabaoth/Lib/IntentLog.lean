import Mathlib.Data.List.Basic
import Mathlib.Data.List.Nodup
import Mathlib.Data.List.Pairwise

/-!
# `Yaldabaoth.Lib.IntentLog`: intents, and the records that close them

Items wait in a queue. Each is numbered and logged as an intent before
it is queued, and a terminal record closes it when it leaves. What
waits according to a log is what it opened and did not close.

`Tidy` is what holds while records may be lost: the numbers in the
queue are apart from those closed, and nothing is closed twice. `Keeps`
is what holds while none is: the queue is what waits according to the
log, and so is what a reader of any prefix finds (`Keeps.cut`).
-/

set_option autoImplicit false

universe u v

namespace IntentLog

inductive Entry (π : Type u) (ω : Type v) where
  | intent (id : Nat) (item : π)
  | terminal (id : Nat) (outcome : ω)

variable {π : Type u} {ω : Type v}

def Entry.opened? : Entry π ω → Option (Nat × π)
  | .intent id item => some (id, item)
  | .terminal _ _ => none

def Entry.closed? : Entry π ω → Option Nat
  | .intent _ _ => none
  | .terminal id _ => some id

/-- The items a log opens, in order. -/
def opened (log : List (Entry π ω)) : List (Nat × π) := log.filterMap Entry.opened?

/-- The numbers a log closes, in order. -/
def closed (log : List (Entry π ω)) : List Nat := log.filterMap Entry.closed?

/-- The numbers a log closes with this outcome. -/
def closedAs [DecidableEq ω] (outcome : ω) (log : List (Entry π ω)) : List Nat :=
  log.filterMap fun
    | .intent _ _ => none
    | .terminal id outcome' => if outcome' = outcome then some id else none

/-- The items that ended so. -/
def ended [DecidableEq ω] (outcome : ω) (log : List (Entry π ω)) : List (Nat × π) :=
  (opened log).filter fun p => p.1 ∈ closedAs outcome log

/-- What waits according to a log. -/
def waiting (log : List (Entry π ω)) : List (Nat × π) :=
  (opened log).filter fun p => p.1 ∉ closed log

variable {log written : List (Entry π ω)} {next : Nat} {queue : List (Nat × π)}

theorem opened_append (log written : List (Entry π ω)) :
    opened (log ++ written) = opened log ++ opened written := List.filterMap_append

theorem closed_append (log written : List (Entry π ω)) :
    closed (log ++ written) = closed log ++ closed written := List.filterMap_append

theorem mem_waiting {p : Nat × π} :
    p ∈ waiting log ↔ p ∈ opened log ∧ p.1 ∉ closed log := by
  rw [waiting, List.mem_filter, decide_eq_true_iff]

/-! ### While records may be lost -/

/-- The queue against the closed numbers. -/
structure Tidy (log : List (Entry π ω)) (next : Nat) (queue : List (Nat × π)) : Prop where
  closed_lt : ∀ id ∈ closed log, id < next
  once : (closed log).Nodup
  queue_lt : ∀ p ∈ queue, p.1 < next
  distinct : queue.Pairwise fun p q => p.1 ≠ q.1
  apart : ∀ p ∈ queue, p.1 ∉ closed log

theorem tidy_nil (next : Nat) : Tidy ([] : List (Entry π ω)) next [] where
  closed_lt := nofun
  once := .nil
  queue_lt := nofun
  distinct := .nil
  apart := nofun

/-- An intent that is logged is not thereby queued. -/
theorem Tidy.stray (h : Tidy log next queue) (hwritten : closed written = []) :
    Tidy (log ++ written) next queue := by
  have hclosed : closed (log ++ written) = closed log := by
    rw [closed_append, hwritten, List.append_nil]
  constructor
  · rw [hclosed]
    exact h.closed_lt
  · rw [hclosed]
    exact h.once
  · exact h.queue_lt
  · exact h.distinct
  · rw [hclosed]
    exact h.apart

/-- The next item goes to the end of the queue. -/
theorem Tidy.push (h : Tidy log next queue) (item : π) :
    Tidy log (next + 1) (queue ++ [(next, item)]) where
  closed_lt id hid := Nat.lt_succ_of_lt (h.closed_lt id hid)
  once := h.once
  queue_lt p hp := by
    rcases List.mem_append.1 hp with hp | hp
    · exact Nat.lt_succ_of_lt (h.queue_lt p hp)
    · rw [List.mem_singleton.1 hp]
      exact Nat.lt_succ_self next
  distinct := by
    rw [List.pairwise_append]
    refine ⟨h.distinct, List.pairwise_singleton _ _, ?_⟩
    intro p hp q hq
    rw [List.mem_singleton.1 hq]
    exact Nat.ne_of_lt (h.queue_lt p hp)
  apart p hp hmem := by
    rcases List.mem_append.1 hp with hp | hp
    · exact h.apart p hp hmem
    · rw [List.mem_singleton.1 hp] at hmem
      exact Nat.lt_irrefl next (h.closed_lt next hmem)

/-- An item may leave the queue without a record. -/
theorem Tidy.leave (h : Tidy log next queue) (id : Nat) :
    Tidy log next (queue.filter fun p => p.1 ≠ id) where
  closed_lt := h.closed_lt
  once := h.once
  queue_lt p hp := h.queue_lt p (List.mem_filter.1 hp).1
  distinct := h.distinct.filter _
  apart p hp := h.apart p (List.mem_filter.1 hp).1

/-- A queued item is closed. -/
theorem Tidy.close (h : Tidy log next queue) {p : Nat × π} (hp : p ∈ queue) (outcome : ω) :
    Tidy (log ++ [.terminal p.1 outcome]) next (queue.filter fun q => q.1 ≠ p.1) := by
  have hclosed : closed (log ++ [.terminal p.1 outcome]) = closed log ++ [p.1] :=
    closed_append log [.terminal p.1 outcome]
  have hleft := h.leave p.1
  constructor
  · intro id hid
    rw [hclosed] at hid
    rcases List.mem_append.1 hid with hid | hid
    · exact h.closed_lt id hid
    · rw [List.mem_singleton.1 hid]
      exact h.queue_lt p hp
  · rw [hclosed, List.nodup_append]
    refine ⟨h.once, List.nodup_singleton _, ?_⟩
    intro id hid id' hid'
    rw [List.mem_singleton.1 hid']
    intro heq
    exact h.apart p hp (heq ▸ hid)
  · exact hleft.queue_lt
  · exact hleft.distinct
  · intro q hq hmem
    rw [hclosed] at hmem
    rcases List.mem_append.1 hmem with hmem | hmem
    · exact hleft.apart q hq hmem
    · exact of_decide_eq_true (List.mem_filter.1 hq).2 (List.mem_singleton.1 hmem)

/-! ### While no record is lost -/

/-- The queue is what waits according to the log. -/
structure Keeps (log : List (Entry π ω)) (next : Nat) (queue : List (Nat × π)) : Prop
    extends Tidy log next queue where
  waits : waiting log = queue
  numbered : (opened log).Pairwise fun p q => p.1 < q.1
  opened_lt : ∀ p ∈ opened log, p.1 < next

theorem keeps_nil (next : Nat) : Keeps ([] : List (Entry π ω)) next [] where
  toTidy := tidy_nil next
  waits := rfl
  numbered := .nil
  opened_lt := nofun

/-- The next item is logged and queued. -/
theorem Keeps.push (h : Keeps log next queue) (item : π) :
    Keeps (log ++ [.intent next item]) (next + 1) (queue ++ [(next, item)]) := by
  have hopened : opened (log ++ [.intent next item]) = opened log ++ [(next, item)] :=
    opened_append log [.intent next item]
  have hclosed : closed (log ++ [.intent next item]) = closed log := by
    rw [closed_append]
    exact List.append_nil _
  have hnew : next ∉ closed log := fun hmem => Nat.lt_irrefl next (h.closed_lt next hmem)
  refine { toTidy := (h.toTidy.push item).stray rfl, waits := ?_, numbered := ?_, opened_lt := ?_ }
  · rw [waiting, hopened, hclosed, List.filter_append, ← h.waits, List.filter_singleton,
      decide_eq_true hnew]
    rfl
  · rw [hopened, List.pairwise_append]
    refine ⟨h.numbered, List.pairwise_singleton _ _, ?_⟩
    intro p hp q hq
    rw [List.mem_singleton.1 hq]
    exact h.opened_lt p hp
  · intro p hp
    rw [hopened] at hp
    rcases List.mem_append.1 hp with hp | hp
    · exact Nat.lt_succ_of_lt (h.opened_lt p hp)
    · rw [List.mem_singleton.1 hp]
      exact Nat.lt_succ_self next

/-- A queued item is closed. -/
theorem Keeps.close (h : Keeps log next queue) {p : Nat × π} (hp : p ∈ queue) (outcome : ω) :
    Keeps (log ++ [.terminal p.1 outcome]) next (queue.filter fun q => q.1 ≠ p.1) := by
  have hopened : opened (log ++ [.terminal p.1 outcome]) = opened log := by
    rw [opened_append]
    exact List.append_nil _
  have hclosed : closed (log ++ [.terminal p.1 outcome]) = closed log ++ [p.1] :=
    closed_append log [.terminal p.1 outcome]
  refine { toTidy := h.toTidy.close hp outcome, waits := ?_, numbered := ?_, opened_lt := ?_ }
  · rw [waiting, hopened, hclosed, ← h.waits, waiting, List.filter_filter]
    refine List.filter_congr fun q _ => ?_
    simp only [List.mem_append, List.mem_singleton, not_or, Bool.decide_and, ne_eq]
    exact Bool.and_comm _ _
  · rw [hopened]
    exact h.numbered
  · rw [hopened]
    exact h.opened_lt

/-- Of every prefix of the log a reader finds what waits according to
it, and goes on from a number above all in it. -/
theorem Keeps.cut (h : Keeps log next queue) {front : List (Entry π ω)} (hfront : front <+: log)
    {next' : Nat} (hopened : ∀ q ∈ opened front, q.1 < next')
    (hclosed : ∀ id ∈ closed front, id < next') : Keeps front next' (waiting front) where
  closed_lt := hclosed
  once := h.once.sublist (hfront.sublist.filterMap _)
  queue_lt q hq := hopened q (mem_waiting.1 hq).1
  distinct := ((h.numbered.sublist (hfront.sublist.filterMap _)).filter _).imp Nat.ne_of_lt
  apart _ hp := (mem_waiting.1 hp).2
  waits := rfl
  numbered := h.numbered.sublist (hfront.sublist.filterMap _)
  opened_lt := hopened

/-! ### How items ended -/

section

variable [DecidableEq ω] {outcome : ω}

theorem closedAs_append (log written : List (Entry π ω)) :
    closedAs outcome (log ++ written) = closedAs outcome log ++ closedAs outcome written :=
  List.filterMap_append

theorem closed_of_closedAs {id : Nat} (h : id ∈ closedAs outcome log) : id ∈ closed log := by
  obtain ⟨entry, hentry, hid⟩ := List.mem_filterMap.1 h
  refine List.mem_filterMap.2 ⟨entry, hentry, ?_⟩
  cases entry with
  | intent _ _ => cases hid
  | terminal id' outcome' =>
      simp only [Option.ite_none_right_eq_some] at hid
      exact hid.2

/-- A prefix of the log has seen fewer items end. -/
theorem ended_cut {front : List (Entry π ω)} (h : front <+: log) :
    (ended outcome front).Sublist (ended outcome log) := by
  obtain ⟨back, rfl⟩ := h
  have hopened : (opened front).Sublist (opened (front ++ back)) := by
    rw [opened_append]
    exact List.sublist_append_left _ _
  refine List.Sublist.trans (List.monotone_filter_right _ fun p hp => ?_) (hopened.filter _)
  rw [decide_eq_true_iff] at hp ⊢
  rw [closedAs_append]
  exact List.mem_append_left _ hp

/-- A new item has not ended. -/
theorem Keeps.ended_push (h : Keeps log next queue) (item : π) :
    ended outcome (log ++ [.intent next item]) = ended outcome log := by
  have hopened : opened (log ++ [.intent next item]) = opened log ++ [(next, item)] :=
    opened_append log [.intent next item]
  have hclosed : closedAs outcome (log ++ [.intent next item]) = closedAs outcome log := by
    rw [closedAs_append]
    exact List.append_nil _
  have hnew : next ∉ closedAs outcome log := fun hmem =>
    Nat.lt_irrefl next (h.closed_lt next (closed_of_closedAs hmem))
  rw [ended, hopened, hclosed, List.filter_append, List.filter_singleton, decide_eq_false hnew]
  exact List.append_nil _

/-- In a list of different numbers, one more of them is picked. -/
theorem filter_or_perm {items : List (Nat × π)} (hnumbered : items.Pairwise fun p q => p.1 < q.1)
    {ids : List Nat} {p : Nat × π} (hp : p ∈ items) (hnew : p.1 ∉ ids) :
    (items.filter fun q => q.1 ∈ ids ++ [p.1]).Perm (items.filter (fun q => q.1 ∈ ids) ++ [p]) := by
  induction items with
  | nil => cases hp
  | cons first rest ih =>
      rw [List.pairwise_cons] at hnumbered
      rcases List.mem_cons.1 hp with rfl | hp
      · have hrest : (rest.filter fun q => q.1 ∈ ids ++ [p.1]) = rest.filter fun q => q.1 ∈ ids := by
          refine List.filter_congr fun q hq => ?_
          have hother : q.1 ≠ p.1 := (Nat.ne_of_lt (hnumbered.1 q hq)).symm
          simp [hother]
        rw [List.filter_cons_of_pos (by simp), List.filter_cons_of_neg (by simp [hnew]), hrest]
        exact (List.perm_append_singleton p _).symm
      · have hother : first.1 ≠ p.1 := Nat.ne_of_lt (hnumbered.1 p hp)
        by_cases hfirst : first.1 ∈ ids
        · rw [List.filter_cons_of_pos (by simp [hfirst]), List.filter_cons_of_pos (by simp [hfirst])]
          exact (ih hnumbered.2 hp).cons first
        · rw [List.filter_cons_of_neg (by simp [hfirst, hother]),
            List.filter_cons_of_neg (by simp [hfirst])]
          exact ih hnumbered.2 hp

/-- An item that is closed ended as its record says. -/
theorem Keeps.ended_close (h : Keeps log next queue) {p : Nat × π} (hp : p ∈ queue)
    (outcome outcome' : ω) :
    (ended outcome (log ++ [.terminal p.1 outcome'])).Perm
      (ended outcome log ++ if outcome' = outcome then [p] else []) := by
  have hopened : opened (log ++ [.terminal p.1 outcome']) = opened log := by
    rw [opened_append]
    exact List.append_nil _
  have hmem : p ∈ opened log := by
    rw [← h.waits] at hp
    exact (mem_waiting.1 hp).1
  have hnew : p.1 ∉ closedAs outcome log := fun hid => h.apart p hp (closed_of_closedAs hid)
  have hone : closedAs outcome ([.terminal p.1 outcome'] : List (Entry π ω)) =
      if outcome' = outcome then [p.1] else [] := by
    by_cases houtcome : outcome' = outcome <;> simp [closedAs, houtcome]
  rw [ended, hopened, closedAs_append, hone]
  by_cases houtcome : outcome' = outcome
  · rw [if_pos houtcome, if_pos houtcome]
    exact filter_or_perm h.numbered hmem hnew
  · rw [if_neg houtcome, if_neg houtcome, List.append_nil, List.append_nil]
    rfl

end

end IntentLog
