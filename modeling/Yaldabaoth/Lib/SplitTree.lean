import Mathlib.Data.List.Basic

/-!
# `SplitTree`: n-ary trees with addressed nodes

A tree whose inner nodes carry a label and a list of children, and whose
leaves carry a value. `empty` is the tree without leaves. A path is the
list of child indices from the root down; `nodeAt` reads the node under
a path and `setAt` writes one.

`nodeAt_context` is the law that edits rest on: the leaves of a tree
split around any of its nodes, and a write replaces the middle part.
`Full` says that no node is empty and that every inner node has two
children at least, and is local in the same way (`Full.nodeAt`,
`Full.setAt`).
-/

set_option autoImplicit false

inductive SplitTree (δ α : Type) : Type
  | empty
  | leaf (a : α)
  | split (dir : δ) (children : List (SplitTree δ α))

namespace SplitTree

variable {δ α : Type}

instance : Inhabited (SplitTree δ α) := ⟨.empty⟩

/-- Induction over a tree and its lists of children. -/
theorem byChildren {P : SplitTree δ α → Prop} {Q : List (SplitTree δ α) → Prop}
    (empty : P .empty) (leaf : ∀ a, P (.leaf a))
    (split : ∀ dir children, Q children → P (.split dir children)) (nil : Q [])
    (cons : ∀ child rest, P child → Q rest → Q (child :: rest)) (t : SplitTree δ α) : P t :=
  @SplitTree.rec δ α P Q empty leaf split nil cons t

/-! ### Leaves -/

mutual

/-- The values of the leaves, from the left to the right. -/
def leaves : SplitTree δ α → List α
  | .empty => []
  | .leaf a => [a]
  | .split _ children => leavesOf children

def leavesOf : List (SplitTree δ α) → List α
  | [] => []
  | child :: rest => leaves child ++ leavesOf rest

end

@[simp] theorem leaves_empty : leaves (.empty : SplitTree δ α) = [] := rfl

@[simp] theorem leaves_leaf (a : α) : leaves (.leaf a : SplitTree δ α) = [a] := rfl

@[simp] theorem leaves_split (dir : δ) (children : List (SplitTree δ α)) :
    leaves (.split dir children) = leavesOf children := rfl

@[simp] theorem leavesOf_nil : leavesOf ([] : List (SplitTree δ α)) = [] := rfl

@[simp] theorem leavesOf_cons (child : SplitTree δ α) (rest : List (SplitTree δ α)) :
    leavesOf (child :: rest) = leaves child ++ leavesOf rest := rfl

@[simp] theorem leavesOf_append (before after : List (SplitTree δ α)) :
    leavesOf (before ++ after) = leavesOf before ++ leavesOf after := by
  induction before with
  | nil => rfl
  | cons child rest ih => rw [List.cons_append, leavesOf_cons, ih, leavesOf_cons, List.append_assoc]

/-! ### The same tree with other leaves -/

section map

variable {β : Type} (f : α → β)

mutual

def map : SplitTree δ α → SplitTree δ β
  | .empty => .empty
  | .leaf a => .leaf (f a)
  | .split dir children => .split dir (mapAll children)

def mapAll : List (SplitTree δ α) → List (SplitTree δ β)
  | [] => []
  | child :: rest => map child :: mapAll rest

end

end map

/-! ### Searches -/

mutual

/-- The first leaf that is looked for. -/
def find (p : α → Bool) : SplitTree δ α → Option α
  | .empty => none
  | .leaf a => if p a then some a else none
  | .split _ children => findIn p children

def findIn (p : α → Bool) : List (SplitTree δ α) → Option α
  | [] => none
  | child :: rest =>
      match find p child with
      | some a => some a
      | none => findIn p rest

end

mutual

/-- The path to the first leaf that is looked for. -/
def pathTo (p : α → Bool) : SplitTree δ α → Option (List Nat)
  | .empty => none
  | .leaf a => if p a then some [] else none
  | .split _ children => pathIn p children 0

/-- The same among the children from the index `i` on. -/
def pathIn (p : α → Bool) : List (SplitTree δ α) → Nat → Option (List Nat)
  | [], _ => none
  | child :: rest, i =>
      match pathTo p child with
      | some path => some (i :: path)
      | none => pathIn p rest (i + 1)

end

/-- A search of the tree is one of its leaves. -/
theorem find_eq (p : α → Bool) (t : SplitTree δ α) : t.find p = t.leaves.find? p := by
  refine byChildren
    (P := fun t => t.find p = t.leaves.find? p)
    (Q := fun children => findIn p children = (leavesOf children).find? p)
    ?_ ?_ ?_ ?_ ?_ t
  · rfl
  · intro a
    simp only [find, leaves_leaf, List.find?_cons, List.find?_nil]
    cases p a <;> rfl
  · intro _ children ih
    exact ih
  · rfl
  · intro child rest hchild hrest
    rw [findIn, hchild, hrest, leavesOf_cons, List.find?_append]
    cases (leaves child).find? p <;> rfl

/-- A path is found when a leaf is. -/
theorem pathTo_isSome (p : α → Bool) (t : SplitTree δ α) :
    (t.pathTo p).isSome = (t.leaves.find? p).isSome := by
  refine byChildren
    (P := fun t => (t.pathTo p).isSome = (t.leaves.find? p).isSome)
    (Q := fun children => ∀ i,
      (pathIn p children i).isSome = ((leavesOf children).find? p).isSome)
    ?_ ?_ ?_ ?_ ?_ t
  · rfl
  · intro a
    simp only [pathTo, leaves_leaf, List.find?_cons, List.find?_nil]
    cases p a <;> rfl
  · intro _ children ih
    exact ih 0
  · intro i
    rfl
  · intro child rest hchild hrest i
    rw [leavesOf_cons, List.find?_append, pathIn]
    cases hpath : child.pathTo p with
    | some path =>
        rw [hpath] at hchild
        rw [Option.isSome_or, ← hchild]
        rfl
    | none =>
        rw [hpath] at hchild
        rw [Option.isSome_or, ← hchild]
        exact hrest (i + 1)

/-! ### Nodes under a path -/

/-- The node under a path. -/
def nodeAt : SplitTree δ α → List Nat → Option (SplitTree δ α)
  | t, [] => some t
  | .split _ children, i :: path =>
      match children[i]? with
      | some child => nodeAt child path
      | none => none
  | _, _ :: _ => none

/-- Write the node under a path. -/
def setAt : SplitTree δ α → List Nat → SplitTree δ α → SplitTree δ α
  | _, [], node => node
  | .split dir children, i :: path, node =>
      match children[i]? with
      | some child => .split dir (children.set i (setAt child path node))
      | none => .split dir children
  | t, _ :: _, _ => t

@[simp] theorem nodeAt_nil (t : SplitTree δ α) : t.nodeAt [] = some t := by cases t <;> rfl

@[simp] theorem setAt_nil (t node : SplitTree δ α) : t.setAt [] node = node := by cases t <;> rfl

theorem nodeAt_split {dir : δ} {children : List (SplitTree δ α)} {i : Nat} {path : List Nat} :
    nodeAt (.split dir children) (i :: path) = children[i]?.bind (·.nodeAt path) := by
  rw [nodeAt]
  cases children[i]? <;> rfl

theorem setAt_split {dir : δ} {children : List (SplitTree δ α)} {i : Nat} {path : List Nat}
    {child node : SplitTree δ α} (h : children[i]? = some child) :
    setAt (.split dir children) (i :: path) node =
      .split dir (children.set i (child.setAt path node)) := by
  rw [setAt, h]

/-- A node lies under a longer path in the child that the path enters. -/
theorem nodeAt_cons {t node : SplitTree δ α} {i : Nat} {path : List Nat}
    (h : t.nodeAt (i :: path) = some node) :
    ∃ dir children child, t = .split dir children ∧ children[i]? = some child ∧
      child.nodeAt path = some node := by
  cases t with
  | empty => cases h
  | leaf a => cases h
  | split dir children =>
      rw [nodeAt_split, Option.bind_eq_some_iff] at h
      obtain ⟨child, hchild, hnode⟩ := h
      exact ⟨dir, children, child, rfl, hchild, hnode⟩

/-- What a longer path leads to is reached through its beginning. -/
theorem nodeAt_of_append {t node : SplitTree δ α} {path rest : List Nat}
    (h : t.nodeAt (path ++ rest) = some node) :
    ∃ inner, t.nodeAt path = some inner ∧ inner.nodeAt rest = some node := by
  induction path generalizing t with
  | nil => exact ⟨t, nodeAt_nil t, h⟩
  | cons i path ih =>
      obtain ⟨dir, children, child, rfl, hchild, hnode⟩ := nodeAt_cons h
      obtain ⟨inner, hinner, hrest⟩ := ih hnode
      refine ⟨inner, ?_, hrest⟩
      rw [nodeAt_split, hchild]
      exact hinner

/-- The leaves around one child. -/
theorem leavesOf_around {children : List (SplitTree δ α)} {i : Nat} {child : SplitTree δ α}
    (h : children[i]? = some child) :
    leavesOf children =
        leavesOf (children.take i) ++ child.leaves ++ leavesOf (children.drop (i + 1)) ∧
      ∀ node, leavesOf (children.set i node) =
        leavesOf (children.take i) ++ node.leaves ++ leavesOf (children.drop (i + 1)) := by
  obtain ⟨hi, hchild⟩ := List.getElem?_eq_some_iff.1 h
  constructor
  · conv_lhs => rw [← List.take_append_drop i children, List.drop_eq_getElem_cons hi, hchild]
    rw [leavesOf_append, leavesOf_cons, List.append_assoc]
  · intro node
    rw [List.set_eq_take_append_cons_drop, if_pos hi, leavesOf_append, leavesOf_cons,
      List.append_assoc]

/-- The leaves before and behind an index. -/
theorem leavesOf_cut (children : List (SplitTree δ α)) (i : Nat) :
    leavesOf children = leavesOf (children.take i) ++ leavesOf (children.drop i) := by
  rw [← leavesOf_append, List.take_append_drop]

/-- The leaves around one more child. -/
theorem leavesOf_insertIdx {children : List (SplitTree δ α)} {i : Nat} (node : SplitTree δ α)
    (h : i ≤ children.length) :
    leavesOf (children.insertIdx i node) =
      leavesOf (children.take i) ++ node.leaves ++ leavesOf (children.drop i) := by
  induction i generalizing children with
  | zero => rfl
  | succ i ih =>
      cases children with
      | nil => cases h
      | cons child rest =>
          rw [List.insertIdx_succ_cons, leavesOf_cons, ih (Nat.le_of_succ_le_succ h)]
          simp

/-- The leaves of a tree lie around those of each of its nodes, and a
write replaces these alone. -/
theorem nodeAt_context {t node : SplitTree δ α} {path : List Nat} (h : t.nodeAt path = some node) :
    ∃ before after, t.leaves = before ++ node.leaves ++ after ∧
      ∀ new, (t.setAt path new).leaves = before ++ new.leaves ++ after := by
  induction path generalizing t with
  | nil =>
      cases (nodeAt_nil t).symm.trans h
      refine ⟨[], [], by simp, fun new => ?_⟩
      rw [setAt_nil]
      simp
  | cons i path ih =>
      obtain ⟨dir, children, child, rfl, hchild, hnode⟩ := nodeAt_cons h
      obtain ⟨before, after, hleaves, hset⟩ := ih hnode
      obtain ⟨haround, hwrite⟩ := leavesOf_around hchild
      refine ⟨leavesOf (children.take i) ++ before,
        after ++ leavesOf (children.drop (i + 1)), ?_, ?_⟩
      · rw [leaves_split, haround, hleaves]
        simp only [List.append_assoc]
      · intro new
        rw [setAt_split hchild, leaves_split, hwrite, hset]
        simp only [List.append_assoc]

/-- A write under the path of a node puts a node there. -/
theorem nodeAt_setAt {t node new : SplitTree δ α} {path : List Nat}
    (h : t.nodeAt path = some node) : (t.setAt path new).nodeAt path = some new := by
  induction path generalizing t with
  | nil => rw [setAt_nil, nodeAt_nil]
  | cons i path ih =>
      obtain ⟨dir, children, child, rfl, hchild, hnode⟩ := nodeAt_cons h
      obtain ⟨hi, -⟩ := List.getElem?_eq_some_iff.1 hchild
      rw [setAt_split hchild, nodeAt_split, List.getElem?_set_self hi]
      exact ih hnode

/-- A second write under the same path replaces the first. -/
theorem setAt_setAt {t node first second : SplitTree δ α} {path : List Nat}
    (h : t.nodeAt path = some node) :
    (t.setAt path first).setAt path second = t.setAt path second := by
  induction path generalizing t with
  | nil => rw [setAt_nil, setAt_nil]
  | cons i path ih =>
      obtain ⟨dir, children, child, rfl, hchild, hnode⟩ := nodeAt_cons h
      obtain ⟨hi, -⟩ := List.getElem?_eq_some_iff.1 hchild
      rw [setAt_split hchild, setAt_split (List.getElem?_set_self hi), ih hnode, List.set_set,
        setAt_split hchild]

/-- Writing the node that is there changes nothing. -/
theorem setAt_same {t node : SplitTree δ α} {path : List Nat} (h : t.nodeAt path = some node) :
    t.setAt path node = t := by
  induction path generalizing t with
  | nil =>
      cases (nodeAt_nil t).symm.trans h
      exact setAt_nil _ _
  | cons i path ih =>
      obtain ⟨dir, children, child, rfl, hchild, hnode⟩ := nodeAt_cons h
      obtain ⟨hi, rfl⟩ := List.getElem?_eq_some_iff.1 hchild
      rw [setAt_split hchild, ih hnode, List.set_getElem_self]

/-- A path that was found leads to a leaf that was looked for. -/
theorem nodeAt_pathTo {p : α → Bool} {t : SplitTree δ α} {path : List Nat}
    (h : t.pathTo p = some path) : ∃ a, p a = true ∧ t.nodeAt path = some (.leaf a) := by
  refine byChildren
    (P := fun t => ∀ path, t.pathTo p = some path →
      ∃ a, p a = true ∧ t.nodeAt path = some (.leaf a))
    (Q := fun children => ∀ i path, pathIn p children i = some path →
      ∃ k rest child a, path = (i + k) :: rest ∧ children[k]? = some child ∧ p a = true ∧
        child.nodeAt rest = some (.leaf a))
    ?_ ?_ ?_ ?_ ?_ t path h
  · nofun
  · intro a path h
    rw [pathTo, Option.ite_none_right_eq_some] at h
    obtain ⟨ha, hpath⟩ := h
    cases hpath
    exact ⟨a, ha, rfl⟩
  · intro dir children ih path h
    obtain ⟨k, rest, child, a, rfl, hchild, ha, hnode⟩ := ih 0 path h
    rw [Nat.zero_add]
    refine ⟨a, ha, ?_⟩
    rw [nodeAt_split, hchild]
    exact hnode
  · nofun
  · intro child rest hchild hrest i path h
    rw [pathIn] at h
    cases hpath : child.pathTo p with
    | some inner =>
        rw [hpath] at h
        cases h
        obtain ⟨a, ha, hnode⟩ := hchild inner hpath
        exact ⟨0, inner, child, a, rfl, rfl, ha, hnode⟩
    | none =>
        rw [hpath] at h
        obtain ⟨k, inner, next, a, rfl, hnext, ha, hnode⟩ := hrest (i + 1) path h
        refine ⟨k + 1, inner, next, a, ?_, hnext, ha, hnode⟩
        rw [Nat.add_assoc, Nat.add_comm 1 k]

/-! ### Trees without empty nodes -/

mutual

/-- No node is empty, and inner nodes have two children at least. -/
def Full : SplitTree δ α → Prop
  | .empty => False
  | .leaf _ => True
  | .split _ children => 2 ≤ children.length ∧ AllFull children

def AllFull : List (SplitTree δ α) → Prop
  | [] => True
  | child :: rest => Full child ∧ AllFull rest

end

/-- The empty tree, or one without empty nodes. -/
def Tidy (t : SplitTree δ α) : Prop := t = .empty ∨ t.Full

theorem allFull_iff {children : List (SplitTree δ α)} :
    AllFull children ↔ ∀ child ∈ children, child.Full := by
  induction children with
  | nil => exact ⟨fun _ => nofun, fun _ => trivial⟩
  | cons child rest ih => rw [AllFull, ih, List.forall_mem_cons]

theorem full_split {dir : δ} {children : List (SplitTree δ α)} :
    Full (.split dir children) ↔ 2 ≤ children.length ∧ ∀ child ∈ children, child.Full := by
  rw [Full, allFull_iff]

/-- The nodes of a full tree are full. -/
theorem Full.nodeAt {t node : SplitTree δ α} {path : List Nat} (hfull : t.Full)
    (h : t.nodeAt path = some node) : node.Full := by
  induction path generalizing t with
  | nil =>
      cases (nodeAt_nil t).symm.trans h
      exact hfull
  | cons i path ih =>
      obtain ⟨dir, children, child, rfl, hchild, hnode⟩ := nodeAt_cons h
      exact ih ((full_split.1 hfull).2 child (List.mem_of_getElem? hchild)) hnode

/-- A full node may be written into a full tree. -/
theorem Full.setAt {t node : SplitTree δ α} {path : List Nat} (hfull : t.Full)
    (hnode : node.Full) : (t.setAt path node).Full := by
  induction path generalizing t with
  | nil => rw [setAt_nil]; exact hnode
  | cons i path ih =>
      cases t with
      | empty => exact hfull
      | leaf a => exact hfull
      | split dir children =>
          cases hchild : children[i]? with
          | none => rw [SplitTree.setAt, hchild]; exact hfull
          | some child =>
              rw [setAt_split hchild, full_split, List.length_set]
              rw [full_split] at hfull
              refine ⟨hfull.1, fun other hother => ?_⟩
              rcases List.mem_or_eq_of_mem_set hother with hold | rfl
              · exact hfull.2 other hold
              · exact ih (hfull.2 child (List.mem_of_getElem? hchild))

/-- A full tree has leaves. -/
theorem Full.leaves_ne_nil {t : SplitTree δ α} (h : t.Full) : t.leaves ≠ [] := by
  revert h
  refine byChildren
    (P := fun t => t.Full → t.leaves ≠ [])
    (Q := fun children => AllFull children → children ≠ [] → leavesOf children ≠ [])
    ?_ ?_ ?_ ?_ ?_ t
  · exact fun h => h.elim
  · exact fun a _ => List.cons_ne_nil a []
  · intro dir children ih h
    refine ih h.2 ?_
    rintro rfl
    exact absurd h.1 (Nat.not_succ_le_zero 1)
  · exact fun _ h => absurd rfl h
  · intro child rest hchild _ h _ hnil
    exact hchild h.1 (List.append_eq_nil_iff.1 hnil).1

end SplitTree
