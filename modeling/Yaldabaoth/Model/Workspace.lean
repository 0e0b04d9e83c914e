import Yaldabaoth.Lib.Effect
import Yaldabaoth.Lib.SplitTree
import Yaldabaoth.Model.DesktopState
import Yaldabaoth.Model.Projects

/-!
# `Yaldabaoth.Model.Workspace`: tiles, layouts and one workspace

`workspace.rs`: `Window`, `Layout`, `HiddenTile` and `Workspace` with the
surgery on the layout of one workspace. The operations of the frame that
work on the active workspace are an `Effect` on it here, and are carried
over to the frame by `Frame.onActive` (`Yaldabaoth.Model.Frame`).

The weights of the children of a split are left out: no operation looks
at them but to compute new weights.
-/

set_option autoImplicit false

namespace Yaldabaoth

inductive SplitDir where
  | h
  | v
deriving Repr, DecidableEq

inductive FocusDir where
  | left
  | right
  | up
  | down
deriving Repr, DecidableEq

/-- A tile: its stable id, the project it belongs to and what it shows. -/
structure Window (C : Type) where
  id : WindowId
  project : ProjectId
  content : C
deriving Repr, DecidableEq

abbrev Layout (C : Type) := SplitTree SplitDir (Window C)

inductive PlaceWindowError where
  | workspaceNotFound (workspace : Nat)
  | projectMismatch (window : WindowId) (tileProject workspaceProject : ProjectId)
  | duplicateWindowId (window : WindowId)
deriving Repr, DecidableEq

/-- How an operation stops short: with `Err(())`, with a typed refusal,
or in a panic. -/
inductive Fault where
  | refused
  | place (error : PlaceWindowError)
  | panicked
deriving Repr, DecidableEq

namespace Layout

variable {C : Type}

def findLeaf (layout : Layout C) (id : WindowId) : Option (Window C) :=
  layout.find fun w => w.id == id

def pathTo (layout : Layout C) (target : WindowId) : Option (List Nat) :=
  SplitTree.pathTo (fun w => w.id == target) layout

def leafIds (layout : Layout C) : List WindowId := layout.leaves.map Window.id

end Layout

/-- `path.split_at(path.len() - 1)`, for a path that is not empty. -/
def parentOf (path : List Nat) : Option (List Nat × Nat) :=
  path.getLast?.map fun leafIdx => (path.dropLast, leafIdx)

structure HiddenTile (C : Type) where
  window : Window C
  previousPlacement : Option (Slot × Span)
deriving Repr, DecidableEq

inductive WorkspaceView where
  | plane
  | columns
  | tiling
  | monocle
deriving Repr, DecidableEq

structure Workspace (C : Type) where
  autoName : String
  hiddenTiles : List (HiddenTile C)
  layout : Layout C
  focused : WindowId
  ephemeral : Bool
  primaryCount : Nat
  desktop : DesktopState
  view : WorkspaceView
  project : ProjectId

namespace Workspace

variable {C : Type}

/-- `Workspace::with_layout`. -/
def withLayout (autoName : String) (layout : Layout C) (focused : WindowId) (project : ProjectId) :
    Workspace C where
  autoName
  hiddenTiles := []
  layout
  focused
  ephemeral := false
  primaryCount := 1
  desktop := {}
  view := .columns
  project

/-! ### The arrangement -/

def setView (wsp : Workspace C) (view : WorkspaceView) : Workspace C := { wsp with view }

/-- `.clamp(1, tile_count)`, for a tile count from one on. -/
def clampCount (wsp : Workspace C) (tileCount : Nat) : Nat := min (max wsp.primaryCount 1) tileCount

def increasePrimaryCount (wsp : Workspace C) : Workspace C :=
  if wsp.view ≠ .tiling then wsp
  else
    let tileCount := max wsp.layout.leafIds.length 1
    { wsp with primaryCount := min (wsp.clampCount tileCount + 1) tileCount }

def decreasePrimaryCount (wsp : Workspace C) : Workspace C :=
  if wsp.view ≠ .tiling then wsp
  else
    let tileCount := max wsp.layout.leafIds.length 1
    { wsp with primaryCount := max (wsp.clampCount tileCount - 1) 1 }

/-- The neighbor in the primary and stack panes that the reading order
is cut into. -/
def tilingTarget (wsp : Workspace C) (dir : FocusDir) : Option WindowId := do
  let order := wsp.desktop.slots
  let tileCount := order.length
  if tileCount = 0 then none
  else
    let index ← order.findIdx? fun entry => entry.1 == wsp.focused
    let primaryCount := wsp.clampCount tileCount
    let inPrimary := decide (index < primaryCount)
    let targetIndex ← match dir with
      | .up =>
          let paneStart := if inPrimary then 0 else primaryCount
          if paneStart < index then some (index - 1) else none
      | .down =>
          let paneEnd := if inPrimary then primaryCount else tileCount
          if index + 1 < paneEnd then some (index + 1) else none
      | .left =>
          if inPrimary then none else some (min (index - primaryCount) (primaryCount - 1))
      | .right =>
          if inPrimary && decide (primaryCount < tileCount) then
            some (primaryCount + min index (tileCount - primaryCount - 1))
          else none
    order[targetIndex]?.map Prod.fst

/-- The visible target of a directional swap. -/
def placementTarget (wsp : Workspace C) (dir : FocusDir) : Option WindowId :=
  match wsp.view, dir with
  | .columns, .left => wsp.desktop.sequenceAdjacent wsp.focused false
  | .columns, .right => wsp.desktop.sequenceAdjacent wsp.focused true
  | .columns, .up => none
  | .columns, .down => none
  | .tiling, dir => wsp.tilingTarget dir
  | .monocle, _ => none
  | .plane, .left => wsp.desktop.spatialNeighbor wsp.focused .left
  | .plane, .right => wsp.desktop.spatialNeighbor wsp.focused .right
  | .plane, .up => wsp.desktop.spatialNeighbor wsp.focused .up
  | .plane, .down => wsp.desktop.spatialNeighbor wsp.focused .down

/-- The target of a directional focus move. -/
def focusTarget (wsp : Workspace C) (dir : FocusDir) : Option WindowId :=
  match wsp.view, dir with
  | .monocle, .left => wsp.desktop.sequenceAdjacent wsp.focused false
  | .monocle, .up => wsp.desktop.sequenceAdjacent wsp.focused false
  | .monocle, .right => wsp.desktop.sequenceAdjacent wsp.focused true
  | .monocle, .down => wsp.desktop.sequenceAdjacent wsp.focused true
  | _, dir => wsp.placementTarget dir

def swapFocusedDirection (wsp : Workspace C) (dir : FocusDir) : Workspace C :=
  match wsp.placementTarget dir with
  | none => wsp
  | some target => { wsp with desktop := (wsp.desktop.swapPlacements wsp.focused target).1 }

def rotatePlacements (wsp : Workspace C) (forward : Bool) : Workspace C :=
  { wsp with desktop := (wsp.desktop.rotatePlacements forward).1 }

def undoArrangement (wsp : Workspace C) : Workspace C :=
  { wsp with desktop := wsp.desktop.undoArrangement.1 }

/-- `desktop.reconcile_near_with_span` over the leaves of the layout, as
the renderer runs it. -/
def reconcile (wsp : Workspace C) (near : Option WindowId) (newSpan : Span) : Workspace C :=
  { wsp with
      desktop := (wsp.desktop.reconcileNearWithSpan wsp.layout.leafIds near newSpan).1 }

/-! ### Surgery on the layout -/

/-- The layout with the new leaf right behind the focused one. -/
def splitBeside (layout : Layout C) (focused : WindowId) (dir : SplitDir) (window : Window C) :
    Option (Layout C) := do
  let path ← layout.pathTo focused
  match parentOf path with
  | none => some (.split dir [layout, .leaf window])
  | some (parentPath, leafIdx) =>
      match layout.nodeAt parentPath with
      | some (.split parentDir children) =>
          if parentDir = dir then
            -- The parent goes the same way: no nesting.
            some (layout.setAt parentPath
              (.split parentDir (children.insertIdx (leafIdx + 1) (.leaf window))))
          else do
            let oldLeaf ← children[leafIdx]?
            some (layout.setAt parentPath
              (.split parentDir (children.set leafIdx (.split dir [oldLeaf, .leaf window]))))
      | _ => none

/-- The part of `Frame::split_focused` on the active workspace. -/
def splitFocused (wsp : Workspace C) (dir : SplitDir) (window : Window C) :
    Option (Workspace C) :=
  match wsp.layout with
  | .empty => some { wsp with layout := .leaf window, focused := window.id }
  | layout =>
      (splitBeside layout wsp.focused dir window).map fun layout' =>
        { wsp with layout := layout', focused := window.id }

/-- Where focus goes when the child `leafIdx` has been removed. -/
def successor (children : List (Layout C)) (leafIdx : Nat) : Option WindowId :=
  if 0 < leafIdx then children[leafIdx - 1]?.bind fun child => child.leafIds.getLast?
  else children.head?.bind fun child => child.leafIds.head?

/-- What `close_focused` and `detach_focused` do once the child `leafIdx`
of the split under `parentPath` is out: move focus, and put an only child
in the place of the split. -/
def settle (parentPath : List Nat) (leafIdx : Nat) (children : List (Layout C)) :
    Effect (Workspace C) Fault (Option WindowId) := do
  if children.isEmpty then throw .refused
  match children with
  | [onlyChild] =>
      modify fun wsp => { wsp with layout := wsp.layout.setAt parentPath onlyChild }
  | _ => pure ()
  match successor children leafIdx with
  | some id => modify fun wsp => { wsp with focused := id }
  | none => pure ()
  return successor children leafIdx

/-- Take the child `leafIdx` out of the split under `parentPath`. Answers
the child and those that are left. -/
def removeChild (parentPath : List Nat) (leafIdx : Nat) :
    Effect (Workspace C) Fault (Layout C × List (Layout C)) := do
  let wsp ← get
  match wsp.layout.nodeAt parentPath with
  | some (.split dir children) =>
      match children[leafIdx]? with
      | none => throw .panicked
      | some child =>
          let rest := children.eraseIdx leafIdx
          modify fun wsp =>
            { wsp with layout := wsp.layout.setAt parentPath (.split dir rest) }
          return (child, rest)
  | _ => throw .refused

/-- The part of `Frame::close_focused` on the active workspace. -/
def closeFocused : Effect (Workspace C) Fault (Option WindowId) := do
  let wsp ← get
  match wsp.layout.pathTo wsp.focused with
  | none => throw .refused
  | some path =>
      match parentOf path with
      | none =>
          modify fun wsp =>
            { wsp with layout := .empty, focused := 0, desktop := (wsp.desktop.reconcile []).1 }
          return none
      | some (parentPath, leafIdx) =>
          let (_, children) ← removeChild parentPath leafIdx
          settle parentPath leafIdx children

/-- The part of `Frame::detach_focused` on the active workspace. -/
def detachFocused : Effect (Workspace C) Fault (Window C × Bool) := do
  let wsp ← get
  match wsp.layout.pathTo wsp.focused with
  | none => throw .refused
  | some path =>
      match parentOf path with
      | none =>
          match wsp.layout with
          | .leaf window =>
              modify fun wsp => { wsp with layout := .empty }
              return (window, true)
          | _ => throw .refused
      | some (parentPath, leafIdx) =>
          let (removed, children) ← removeChild parentPath leafIdx
          match removed with
          | .leaf window =>
              let _ ← settle parentPath leafIdx children
              return (window, false)
          | _ => throw .refused

/-- The part of `Frame::only` on the active workspace. -/
def only : Effect (Workspace C) Fault PUnit := do
  let wsp ← get
  match wsp.layout.pathTo wsp.focused with
  | none => throw .refused
  | some path =>
      match parentOf path with
      | none => return ⟨⟩
      | some (parentPath, leafIdx) =>
          match wsp.layout.nodeAt parentPath with
          | some (.split _ children) =>
              match children[leafIdx]? with
              | none => throw .refused
              | some leaf => modify fun wsp => { wsp with layout := leaf }
          | _ => throw .refused

/-- The part of `Frame::insert_leaf_into_workspace` on the workspace. -/
def insertLeaf (wsp : Workspace C) (window : Window C) : Workspace C :=
  let layout : Layout C := match wsp.layout with
    | .empty => .leaf window
    | .leaf existing => .split .v [.leaf existing, .leaf window]
    | .split dir children => .split dir (children ++ [.leaf window])
  { wsp with layout, focused := window.id }

end Workspace

end Yaldabaoth
