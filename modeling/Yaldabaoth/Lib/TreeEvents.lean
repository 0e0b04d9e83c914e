import Yaldabaoth.Lib.SplitTree

/-!
# `TreeEvents`: trees as streams of brackets

A tree is walked from the left to the right: every inner node gives a
bracket that opens, what its children give, and a bracket that closes.
`inside` cuts a stream at the bracket that closes the one that is open,
which it finds by counting. On the stream of a tree it finds what it
should (`inside_eventsOf`), whatever brackets the children have.
-/

set_option autoImplicit false

/-- `start` opens, `stop` closes. -/
inductive TreeEvent (τ ε ι : Type) where
  | start (tag : τ)
  | stop (tag : ε)
  | leaf (a : ι)
deriving Repr, DecidableEq

namespace TreeEvents

variable {τ ε ι : Type}

/-! ### Streams -/

section
variable (close : τ → ε)

mutual

def events : SplitTree τ ι → List (TreeEvent τ ε ι)
  | .empty => []
  | .leaf a => [.leaf a]
  | .split tag children => .start tag :: (eventsOf children ++ [.stop (close tag)])

def eventsOf : List (SplitTree τ ι) → List (TreeEvent τ ε ι)
  | [] => []
  | child :: rest => events child ++ eventsOf rest

end

theorem events_split (tag : τ) (children : List (SplitTree τ ι)) :
    events close (.split tag children) =
      .start tag :: (eventsOf close children ++ [.stop (close tag)]) := rfl

@[simp] theorem eventsOf_nil : eventsOf close ([] : List (SplitTree τ ι)) = [] := rfl

@[simp] theorem eventsOf_cons (child : SplitTree τ ι) (rest : List (SplitTree τ ι)) :
    eventsOf close (child :: rest) = events close child ++ eventsOf close rest := rfl

theorem eventsOf_append (front back : List (SplitTree τ ι)) :
    eventsOf close (front ++ back) = eventsOf close front ++ eventsOf close back := by
  induction front with
  | nil => rfl
  | cons child rest ih =>
      rw [List.cons_append, eventsOf_cons, eventsOf_cons, ih, List.append_assoc]

end

/-! ### What a bracket holds -/

/-- The events up to the one that closes, and those behind it. -/
def inside (closes : ε → Bool) (depth : Int) :
    List (TreeEvent τ ε ι) → List (TreeEvent τ ε ι) × List (TreeEvent τ ε ι)
  | [] => ([], [])
  | .stop tag :: rest =>
      if closes tag && depth == 0 then ([], rest)
      else
        let found := inside closes (depth - 1) rest
        (.stop tag :: found.1, found.2)
  | .start tag :: rest =>
      let found := inside closes (depth + 1) rest
      (.start tag :: found.1, found.2)
  | .leaf a :: rest =>
      let found := inside closes depth rest
      (.leaf a :: found.1, found.2)

variable {closes : ε → Bool}

/-- What is inside and what is behind are parts of the stream. -/
theorem inside_length (depth : Int) (stream : List (TreeEvent τ ε ι)) :
    (inside closes depth stream).1.length + (inside closes depth stream).2.length ≤
      stream.length := by
  induction stream generalizing depth with
  | nil => exact Nat.le_refl 0
  | cons e rest ih =>
      cases e with
      | start tag =>
          have := ih (depth + 1)
          simp only [inside, List.length_cons]
          omega
      | stop tag =>
          rw [inside]
          split
          · simp
          · have := ih (depth - 1)
            simp only [List.length_cons]
            omega
      | leaf a =>
          have := ih depth
          simp only [inside, List.length_cons]
          omega

mutual

/-- A tree under an open bracket is passed over whole. -/
theorem inside_events (close : τ → ε) (depth : Nat) :
    ∀ (t : SplitTree τ ι) (more : List (TreeEvent τ ε ι)),
      inside closes depth (events close t ++ more) =
        (events close t ++ (inside closes depth more).1, (inside closes depth more).2)
  | .empty, _ => rfl
  | .leaf _, _ => rfl
  | .split tag children, more => by
      have hstop : inside closes ((depth + 1 : Nat) : Int) (.stop (close tag) :: more) =
          (.stop (close tag) :: (inside closes depth more).1, (inside closes depth more).2) := by
        have hdepth : ((depth + 1 : Nat) : Int) - 1 = depth := by omega
        rw [inside, if_neg (by simp; omega), hdepth]
      have hchildren := inside_append close (depth + 1) children (.stop (close tag) :: more)
      rw [hstop, Int.natCast_succ] at hchildren
      simp only [events_split, List.cons_append, List.append_assoc, List.nil_append]
      rw [inside, hchildren]

theorem inside_append (close : τ → ε) (depth : Nat) :
    ∀ (ts : List (SplitTree τ ι)) (more : List (TreeEvent τ ε ι)),
      inside closes depth (eventsOf close ts ++ more) =
        (eventsOf close ts ++ (inside closes depth more).1, (inside closes depth more).2)
  | [], _ => rfl
  | child :: rest, more => by
      rw [eventsOf_cons, List.append_assoc, inside_events close depth child,
        inside_append close depth rest]
      simp only [List.append_assoc]

end

/-- The bracket that closes is found behind the trees inside. -/
theorem inside_eventsOf (close : τ → ε) (ts : List (SplitTree τ ι)) {tag : ε}
    (htag : closes tag = true) (more : List (TreeEvent τ ε ι)) :
    inside closes 0 (eventsOf close ts ++ .stop tag :: more) = (eventsOf close ts, more) := by
  have hclosed : inside closes ((0 : Nat) : Int) (.stop tag :: more) = ([], more) := by
    rw [inside, if_pos (by simp [htag])]
  have h := @inside_append _ _ _ closes close 0 ts (.stop tag :: more)
  rw [hclosed, List.append_nil] at h
  exact h

end TreeEvents
