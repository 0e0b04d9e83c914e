import Mathlib.Data.List.InsertIdx
import Yaldabaoth.Model.Workspace

/-!
# `Yaldabaoth.Proofs.Frame.Surgery`: what surgery does to one workspace

Every operation on a layout finds the focused leaf by its path. What
each does is said over the leaves of the layout, in their order:
`detachFocused_spec` takes one out, `splitFocused_spec` puts one beside
another, `only_spec` keeps one. All keep the layout free of empty nodes
and of splits with fewer than two children, and all but the last leaf's
removal leave the focus on a leaf.
-/

set_option autoImplicit false

namespace Yaldabaoth

open SplitTree

variable {C : Type}

namespace Layout

/-- The tile that was looked for is one of the leaves. -/
theorem findLeaf_isSome {layout : Layout C} {id : WindowId} :
    (layout.findLeaf id).isSome = true ↔ id ∈ layout.leafIds := by
  rw [findLeaf, find_eq, List.find?_isSome, leafIds, List.mem_map]
  simp only [beq_iff_eq]

theorem pathTo_isSome_iff {layout : Layout C} {id : WindowId} :
    (Layout.pathTo layout id).isSome = true ↔ id ∈ layout.leafIds := by
  rw [Layout.pathTo, SplitTree.pathTo_isSome, ← find_eq]
  exact findLeaf_isSome

/-- A path that was found leads to a leaf: the root, or a child of a
split. -/
theorem pathTo_cases {layout : Layout C} {id : WindowId} {path : List Nat}
    (h : Layout.pathTo layout id = some path) :
    (parentOf path = none ∧ ∃ window, window.id = id ∧ layout = .leaf window) ∨
      ∃ parentPath leafIdx dir children window, parentOf path = some (parentPath, leafIdx) ∧
        layout.nodeAt parentPath = some (.split dir children) ∧
        children[leafIdx]? = some (.leaf window) ∧ window.id = id := by
  obtain ⟨window, hid, hnode⟩ := nodeAt_pathTo h
  have hid : window.id = id := beq_iff_eq.1 hid
  rcases List.eq_nil_or_concat' path with rfl | ⟨parentPath, leafIdx, rfl⟩
  · rw [nodeAt_nil] at hnode
    exact .inl ⟨rfl, window, hid, Option.some.inj hnode⟩
  · right
    obtain ⟨parent, hparent, hleaf⟩ := nodeAt_of_append hnode
    obtain ⟨dir, children, child, rfl, hchild, hat⟩ := nodeAt_cons hleaf
    rw [nodeAt_nil, Option.some.injEq] at hat
    subst hat
    refine ⟨parentPath, leafIdx, dir, children, window, ?_, hparent, hchild, hid⟩
    simp [parentOf]

end Layout

namespace Workspace

/-! ### The tiles of a workspace -/

/-- The tiles of a workspace: the leaves of its layout and the hidden
ones. -/
def tiles (wsp : Workspace C) : List (Window C) :=
  wsp.layout.leaves ++ wsp.hiddenTiles.map HiddenTile.window

/-- No split has fewer than two children, no node below the root is
empty, and every tile is of the workspace's project. -/
structure Sound (wsp : Workspace C) : Prop where
  tidy : wsp.layout.Tidy
  home : ∀ tile ∈ wsp.tiles, tile.project = wsp.project

/-- A workspace that shows tiles has one of them focused. -/
def Aimed (wsp : Workspace C) : Prop :=
  wsp.layout.leaves ≠ [] → wsp.focused ∈ wsp.layout.leafIds

/-! ### Taking a leaf out -/

/-- What takes the place of a split whose child is gone. -/
def collapse (dir : SplitDir) : List (Layout C) → Layout C
  | [onlyChild] => onlyChild
  | children => .split dir children

theorem leaves_collapse (dir : SplitDir) (children : List (Layout C)) :
    (collapse dir children).leaves = leavesOf children := by
  match children with
  | [] => rfl
  | [onlyChild] => simp [collapse]
  | first :: second :: rest => rfl

theorem full_collapse {dir : SplitDir} {children : List (Layout C)} (hne : children ≠ [])
    (hfull : ∀ child ∈ children, child.Full) : (collapse dir children).Full := by
  match children with
  | [] => exact absurd rfl hne
  | [onlyChild] => exact hfull onlyChild (List.mem_singleton_self _)
  | first :: second :: rest => exact full_split.2 ⟨Nat.le_add_left 2 rest.length, hfull⟩

theorem leaves_subset_leavesOf {child : Layout C} {children : List (Layout C)}
    (h : child ∈ children) : child.leaves ⊆ leavesOf children := by
  induction children with
  | nil => cases h
  | cons first rest ih =>
      rw [leavesOf_cons]
      rcases List.mem_cons.1 h with rfl | hrest
      · exact List.subset_append_left _ _
      · exact fun tile htile => List.mem_append_right _ (ih hrest htile)

/-- Focus finds a leaf among the children that are left. -/
theorem successor_spec {children : List (Layout C)} (leafIdx : Nat) (hne : children ≠ [])
    (hle : leafIdx ≤ children.length) (hfull : ∀ child ∈ children, child.Full) :
    ∃ id, successor children leafIdx = some id ∧ id ∈ (leavesOf children).map Window.id := by
  have hmem {child : Layout C} {id : WindowId} (hchild : child ∈ children)
      (hid : id ∈ child.leafIds) : id ∈ (leavesOf children).map Window.id :=
    List.map_subset _ (leaves_subset_leavesOf hchild) hid
  have hids {child : Layout C} (hchild : child ∈ children) : child.leafIds ≠ [] := by
    rw [Layout.leafIds, Ne, List.map_eq_nil_iff]
    exact (hfull child hchild).leaves_ne_nil
  by_cases hpos : 0 < leafIdx
  · have hlt : leafIdx - 1 < children.length := by omega
    have hchild : children[leafIdx - 1] ∈ children := List.getElem_mem hlt
    rw [successor, if_pos hpos, List.getElem?_eq_getElem hlt]
    exact ⟨_, List.getLast?_eq_some_getLast (hids hchild), hmem hchild (List.getLast_mem _)⟩
  · obtain ⟨first, rest, rfl⟩ := List.exists_cons_of_ne_nil hne
    have hfirst : first ∈ first :: rest := List.mem_cons_self
    rw [successor, if_neg hpos]
    exact ⟨_, List.head?_eq_some_head (hids hfirst), hmem hfirst (List.head_mem _)⟩

/-- What is known of a workspace that a leaf was taken out of: only its
layout and focus changed, the other leaves stand in their order, and
focus is on one of them. -/
structure TakenOut (wsp : Workspace C) (window : Window C) (wsp' : Workspace C) : Prop where
  only : wsp' = { wsp with layout := wsp'.layout, focused := wsp'.focused }
  full : wsp'.layout.Full
  leaves : ∃ before after, wsp.layout.leaves = before ++ window :: after ∧
    wsp'.layout.leaves = before ++ after
  aimed : wsp'.focused ∈ wsp'.layout.leafIds

/-- Settling a split writes what takes its place and moves focus. -/
theorem exec_settle {wsp : Workspace C} {parentPath : List Nat} {leafIdx : Nat} {dir : SplitDir}
    {children : List (Layout C)} {id : WindowId}
    (hnode : wsp.layout.nodeAt parentPath = some (.split dir children)) (hne : children ≠ [])
    (hid : successor children leafIdx = some id) :
    (settle parentPath leafIdx children).exec wsp = (.ok (some id), { wsp with
      layout := wsp.layout.setAt parentPath (collapse dir children)
      focused := id }) := by
  match children with
  | [] => exact absurd rfl hne
  | [onlyChild] =>
      simp only [settle, hid]
      rfl
  | first :: second :: rest =>
      -- A split that keeps two children is there already.
      have hsame : wsp.layout.setAt parentPath (.split dir (first :: second :: rest)) =
          wsp.layout := setAt_same hnode
      simp only [settle, hid, collapse, hsame]
      rfl

/-- The child is taken out and the split is settled, in one. -/
theorem removeChild_settle {wsp : Workspace C} {parentPath : List Nat} {leafIdx : Nat}
    {dir : SplitDir} {children : List (Layout C)} {window : Window C} (hfull : wsp.layout.Full)
    (hparent : wsp.layout.nodeAt parentPath = some (.split dir children))
    (hchild : children[leafIdx]? = some (.leaf window)) :
    ∃ middle wsp', TakenOut wsp window wsp' ∧
      (removeChild parentPath leafIdx).exec wsp =
        (.ok (.leaf window, children.eraseIdx leafIdx), middle) ∧
      (settle parentPath leafIdx (children.eraseIdx leafIdx)).exec middle =
        (.ok (some wsp'.focused), wsp') := by
  obtain ⟨htwo, hchildren⟩ := full_split.1 (hfull.nodeAt hparent)
  obtain ⟨hlt, -⟩ := List.getElem?_eq_some_iff.1 hchild
  have hrestFull : ∀ child ∈ children.eraseIdx leafIdx, child.Full := fun child h =>
    hchildren child (List.mem_of_mem_eraseIdx h)
  have hlength := List.length_eraseIdx_of_lt hlt
  have hne : children.eraseIdx leafIdx ≠ [] := by
    rw [← List.length_pos_iff_ne_nil]
    omega
  obtain ⟨id, hsuccessor, hid⟩ := successor_spec leafIdx hne (by omega) hrestFull
  obtain ⟨before, after, hleaves, hset⟩ := nodeAt_context hparent
  obtain ⟨haround, -⟩ := leavesOf_around hchild
  have hrest : leavesOf (children.eraseIdx leafIdx) =
      leavesOf (children.take leafIdx) ++ leavesOf (children.drop (leafIdx + 1)) := by
    rw [List.eraseIdx_eq_take_drop_succ, leavesOf_append]
  have hleaves' := hset (collapse dir (children.eraseIdx leafIdx))
  rw [leaves_collapse] at hleaves'
  refine ⟨{ wsp with
      layout := wsp.layout.setAt parentPath (.split dir (children.eraseIdx leafIdx)) },
    { wsp with
      layout := wsp.layout.setAt parentPath (collapse dir (children.eraseIdx leafIdx))
      focused := id },
    ⟨rfl, hfull.setAt (full_collapse hne hrestFull), ?_, ?_⟩, ?_, ?_⟩
  · refine ⟨before ++ leavesOf (children.take leafIdx),
      leavesOf (children.drop (leafIdx + 1)) ++ after, ?_, ?_⟩
    · rw [hleaves, leaves_split, haround]
      simp
    · rw [hleaves', hrest]
      simp
  · rw [Layout.leafIds, hleaves', List.map_append, List.map_append]
    exact List.mem_append_left _ (List.mem_append_right _ hid)
  · simp only [removeChild, Effect.exec_bind, Effect.exec_get, hparent, hchild,
      Effect.exec_modify, Effect.exec_pure]
  · rw [exec_settle (nodeAt_setAt hparent) hne hsuccessor, setAt_setAt hparent]

/-- A focused leaf is detached: the sole leaf, or one among others. -/
theorem detachFocused_spec {wsp : Workspace C} (htidy : wsp.layout.Tidy)
    (hfocused : wsp.focused ∈ wsp.layout.leafIds) :
    ∃ window, window.id = wsp.focused ∧
      ((wsp.layout = .leaf window ∧
          detachFocused.exec wsp = (.ok (window, true), { wsp with layout := .empty })) ∨
        ∃ wsp', TakenOut wsp window wsp' ∧
          detachFocused.exec wsp = (.ok (window, false), wsp')) := by
  obtain ⟨path, hpath⟩ := Option.isSome_iff_exists.1 (Layout.pathTo_isSome_iff.2 hfocused)
  rcases Layout.pathTo_cases hpath with ⟨hroot, window, hid, hleaf⟩ |
    ⟨parentPath, leafIdx, dir, children, window, hparentOf, hparent, hchild, hid⟩
  · refine ⟨window, hid, .inl ⟨hleaf, ?_⟩⟩
    simp only [detachFocused, Effect.exec_bind, Effect.exec_get, hpath, hroot]
    simp only [hleaf, Effect.exec_bind, Effect.exec_modify, Effect.exec_pure]
  · have hfull : wsp.layout.Full := by
      refine htidy.resolve_left fun hempty => ?_
      rw [hempty] at hpath
      cases hpath
    obtain ⟨middle, wsp', htaken, hremove, hsettle⟩ := removeChild_settle hfull hparent hchild
    refine ⟨window, hid, .inr ⟨wsp', htaken, ?_⟩⟩
    simp only [detachFocused, Effect.exec_bind, Effect.exec_get, hpath, hparentOf, hremove,
      hsettle, Effect.exec_pure]

/-- A focused leaf is closed in the same way. -/
theorem closeFocused_spec {wsp : Workspace C} (htidy : wsp.layout.Tidy)
    (hfocused : wsp.focused ∈ wsp.layout.leafIds) :
    ∃ window, window.id = wsp.focused ∧
      ((wsp.layout = .leaf window ∧ closeFocused.exec wsp = (.ok none, { wsp with
          layout := .empty, focused := 0, desktop := (wsp.desktop.reconcile []).1 })) ∨
        ∃ wsp', TakenOut wsp window wsp' ∧
          closeFocused.exec wsp = (.ok (some wsp'.focused), wsp')) := by
  obtain ⟨path, hpath⟩ := Option.isSome_iff_exists.1 (Layout.pathTo_isSome_iff.2 hfocused)
  rcases Layout.pathTo_cases hpath with ⟨hroot, window, hid, hleaf⟩ |
    ⟨parentPath, leafIdx, dir, children, window, hparentOf, hparent, hchild, hid⟩
  · refine ⟨window, hid, .inl ⟨hleaf, ?_⟩⟩
    simp only [closeFocused, Effect.exec_bind, Effect.exec_get, hpath, hroot,
      Effect.exec_modify, Effect.exec_pure]
  · have hfull : wsp.layout.Full := by
      refine htidy.resolve_left fun hempty => ?_
      rw [hempty] at hpath
      cases hpath
    obtain ⟨middle, wsp', htaken, hremove, hsettle⟩ := removeChild_settle hfull hparent hchild
    refine ⟨window, hid, .inr ⟨wsp', htaken, ?_⟩⟩
    simp only [closeFocused, Effect.exec_bind, Effect.exec_get, hpath, hparentOf, hremove,
      hsettle]

/-- Without a focused leaf both refuse and change nothing. -/
theorem refused_of_not_mem {wsp : Workspace C} (h : wsp.focused ∉ wsp.layout.leafIds) :
    detachFocused.exec wsp = (.error .refused, wsp) ∧
      closeFocused.exec wsp = (.error .refused, wsp) ∧
      only.exec wsp = (.error .refused, wsp) := by
  have hpath : Layout.pathTo wsp.layout wsp.focused = none := by
    rw [← Option.not_isSome_iff_eq_none, Layout.pathTo_isSome_iff]
    exact h
  simp [detachFocused, closeFocused, only, Effect.exec_bind, hpath]

/-- The focused leaf alone is kept. -/
theorem only_spec {wsp : Workspace C} (hfocused : wsp.focused ∈ wsp.layout.leafIds) :
    ∃ window ∈ wsp.layout.leaves, window.id = wsp.focused ∧
      only.exec wsp = (.ok ⟨⟩, { wsp with layout := .leaf window }) := by
  obtain ⟨path, hpath⟩ := Option.isSome_iff_exists.1 (Layout.pathTo_isSome_iff.2 hfocused)
  rcases Layout.pathTo_cases hpath with ⟨hroot, window, hid, hleaf⟩ |
    ⟨parentPath, leafIdx, dir, children, window, hparentOf, hparent, hchild, hid⟩
  · refine ⟨window, ?_, hid, ?_⟩
    · rw [hleaf]
      exact List.mem_singleton_self window
    · simp only [only, Effect.exec_bind, Effect.exec_get, hpath, hroot, Effect.exec_pure,
        ← hleaf]
  · refine ⟨window, ?_, hid, ?_⟩
    · obtain ⟨before, after, hleaves, -⟩ := nodeAt_context hparent
      have hmem := leaves_subset_leavesOf (List.mem_of_getElem? hchild)
        (List.mem_singleton_self window)
      rw [hleaves, leaves_split]
      simp [hmem]
    · simp only [only, Effect.exec_bind, Effect.exec_get, hpath, hparentOf, hparent, hchild,
        Effect.exec_modify]

/-! ### Putting a leaf in -/

/-- What is known of a workspace that a leaf was put into. -/
structure PutIn (wsp : Workspace C) (window : Window C) (wsp' : Workspace C) : Prop where
  only : wsp' = { wsp with layout := wsp'.layout, focused := window.id }
  full : wsp'.layout.Full
  leaves : ∃ before after, wsp.layout.leaves = before ++ after ∧
    wsp'.layout.leaves = before ++ window :: after

/-- The new leaf stands right behind the focused one. -/
theorem splitBeside_spec {layout layout' : Layout C} {focused : WindowId} {dir : SplitDir}
    {window : Window C} (hfull : layout.Full)
    (h : splitBeside layout focused dir window = some layout') :
    layout'.Full ∧ ∃ before after, layout.leaves = before ++ after ∧
      layout'.leaves = before ++ window :: after := by
  have hleaf : (SplitTree.leaf window : Layout C).Full := trivial
  rw [splitBeside, Option.bind_eq_bind, Option.bind_eq_some_iff] at h
  obtain ⟨path, hpath, h⟩ := h
  rcases Layout.pathTo_cases hpath with ⟨hroot, focusedWindow, -, -⟩ |
    ⟨parentPath, leafIdx, parentDir, children, focusedWindow, hparentOf, hparent, hchild, -⟩
  · rw [hroot] at h
    cases h
    refine ⟨full_split.2 ⟨le_rfl, ?_⟩, layout.leaves, [], by simp, by simp⟩
    intro child hchild
    simp only [List.mem_cons, List.not_mem_nil, or_false] at hchild
    rcases hchild with rfl | rfl
    · exact hfull
    · exact hleaf
  · rw [hparentOf] at h
    simp only [hparent, hchild] at h
    obtain ⟨htwo, hchildren⟩ := full_split.1 (hfull.nodeAt hparent)
    obtain ⟨hlt, -⟩ := List.getElem?_eq_some_iff.1 hchild
    obtain ⟨before, after, hleaves, hset⟩ := nodeAt_context hparent
    obtain ⟨haround, hwrite⟩ := leavesOf_around hchild
    split at h
    · -- The leaf becomes the next child of the parent.
      cases h
      have hlength : (children.insertIdx (leafIdx + 1) (.leaf window)).length =
          children.length + 1 := List.length_insertIdx_of_le_length hlt _
      refine ⟨hfull.setAt (full_split.2 ⟨by omega, ?_⟩),
        before ++ leavesOf (children.take (leafIdx + 1)),
        leavesOf (children.drop (leafIdx + 1)) ++ after, ?_, ?_⟩
      · intro child hchild'
        rcases List.eq_or_mem_of_mem_insertIdx hchild' with rfl | hold
        · exact hleaf
        · exact hchildren child hold
      · rw [hleaves, leaves_split, leavesOf_cut children (leafIdx + 1)]
        simp
      · rw [hset, leaves_split, leavesOf_insertIdx _ hlt]
        simp
    · -- The focused leaf becomes a split of its own.
      cases h
      refine ⟨hfull.setAt (full_split.2 ⟨?_, ?_⟩),
        before ++ leavesOf (children.take leafIdx) ++ [focusedWindow],
        leavesOf (children.drop (leafIdx + 1)) ++ after, ?_, ?_⟩
      · rw [List.length_set]
        exact htwo
      · intro child hchild'
        rcases List.mem_or_eq_of_mem_set hchild' with hold | rfl
        · exact hchildren child hold
        · refine full_split.2 ⟨le_rfl, ?_⟩
          intro grandchild hgrandchild
          simp only [List.mem_cons, List.not_mem_nil, or_false] at hgrandchild
          rcases hgrandchild with rfl | rfl <;> trivial
      · rw [hleaves, leaves_split, haround]
        simp
      · rw [hset, leaves_split, hwrite]
        simp

/-- A split puts the new leaf into the workspace. -/
theorem splitFocused_spec {wsp wsp' : Workspace C} {dir : SplitDir} {window : Window C}
    (htidy : wsp.layout.Tidy) (h : wsp.splitFocused dir window = some wsp') :
    PutIn wsp window wsp' := by
  rw [splitFocused] at h
  split at h
  · next hempty =>
      cases h
      exact ⟨rfl, trivial, [], [], by rw [hempty]; rfl, rfl⟩
  · next hne =>
      obtain ⟨layout', hlayout, rfl⟩ := Option.map_eq_some_iff.1 h
      obtain ⟨hfull, hleaves⟩ := splitBeside_spec (htidy.resolve_left hne) hlayout
      exact ⟨rfl, hfull, hleaves⟩

/-- A split needs a focused leaf to stand beside, or an empty layout. -/
theorem splitFocused_place {wsp wsp' : Workspace C} {dir : SplitDir} {window : Window C}
    (h : wsp.splitFocused dir window = some wsp') :
    wsp.layout.leafIds = [] ∨ wsp.focused ∈ wsp.layout.leafIds := by
  rw [splitFocused] at h
  split at h
  · next hempty =>
      left
      rw [hempty]
      rfl
  · right
    obtain ⟨layout', hlayout, -⟩ := Option.map_eq_some_iff.1 h
    rw [splitBeside, Option.bind_eq_bind, Option.bind_eq_some_iff] at hlayout
    obtain ⟨path, hpath, -⟩ := hlayout
    exact Layout.pathTo_isSome_iff.1 (Option.isSome_iff_exists.2 ⟨path, hpath⟩)

/-- An arriving leaf stands behind all others. -/
theorem insertLeaf_spec {wsp : Workspace C} (window : Window C) (htidy : wsp.layout.Tidy) :
    PutIn wsp window (wsp.insertLeaf window) := by
  have hleaf : (SplitTree.leaf window : Layout C).Full := trivial
  unfold insertLeaf
  cases hlayout : wsp.layout with
  | empty => exact ⟨rfl, hleaf, [], [], by rw [hlayout]; rfl, rfl⟩
  | leaf existing =>
      refine ⟨rfl, full_split.2 ⟨le_rfl, ?_⟩, [existing], [], by rw [hlayout]; rfl, rfl⟩
      intro child hchild
      simp only [List.mem_cons, List.not_mem_nil, or_false] at hchild
      rcases hchild with rfl | rfl <;> trivial
  | split dir children =>
      rw [hlayout] at htidy
      obtain ⟨htwo, hchildren⟩ := full_split.1 (htidy.resolve_left nofun)
      refine ⟨rfl, full_split.2 ⟨?_, ?_⟩, leavesOf children, [], by rw [hlayout]; simp, by simp⟩
      · rw [List.length_append]
        omega
      · intro child hchild
        rcases List.mem_append.1 hchild with hold | hnew
        · exact hchildren child hold
        · rw [List.mem_singleton.1 hnew]
          exact hleaf

end Workspace

end Yaldabaoth
