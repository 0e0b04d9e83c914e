import Yaldabaoth.Lib.Machine
import Yaldabaoth.Model.Workspace

/-!
# `Yaldabaoth.Model.Frame`: the workspaces of the window and their tiles

`workspace.rs`: `Frame` with the operations that open, place, move, focus
and close tiles and workspaces. Window ids are 64 bits wide and the
counter that hands them out wraps, as it does in a release build.

An operation that can fail is an `Effect` on the frame: what it did
before it failed stays done. `Frame.machine` takes one operation a step.
-/

set_option autoImplicit false

namespace Yaldabaoth

inductive AttachedVisibility where
  | visible
  | hidden
deriving Repr, DecidableEq

/-- `TileMembership::Attached`. -/
structure TileMembership where
  workspace : Nat
  visibility : AttachedVisibility
deriving Repr, DecidableEq

inductive OwnershipViolation where
  | duplicateWindowId (window : WindowId)
  | workspaceProjectMismatch (window : WindowId) (tileProject workspaceProject : ProjectId)
  | workspaceFocusIsNotVisible (workspace : Nat) (window : WindowId)
  | soloPresentationMismatch (window : WindowId)
deriving Repr, DecidableEq

/-- `soloPresentation` is the id in `SoloPresentation::HiddenAttached`. -/
structure Frame (C : Type) where
  workspaces : List (Workspace C)
  activeWorkspace : Nat
  soloPresentation : Option WindowId
  nextWindowId : UInt64
  nextWorkspaceIndex : Nat
  defaultProject : ProjectId
  ephemeralOrigin : Option WindowId
  previousWorkspace : Option String

/-- An operation on the frame. -/
abbrev FrameOp (C α : Type) := Effect (Frame C) Fault α

def autoWorkspaceName (idx : Nat) : String := s!"workspace-{idx}"

/-- `id.saturating_add(1)`. -/
def WindowId.saturatingSucc (id : WindowId) : WindowId := if id + 1 = 0 then id else id + 1

namespace Frame

variable {C : Type}

/-- `Frame::new`. -/
def new (defaultProject : ProjectId) : Frame C where
  workspaces := []
  activeWorkspace := 0
  soloPresentation := none
  nextWindowId := 1
  nextWorkspaceIndex := 1
  defaultProject
  ephemeralOrigin := none
  previousWorkspace := none

/-! ### Looking around -/

/-- `active_workspace()`. -/
def active (f : Frame C) : Option (Workspace C) := f.workspaces[f.activeWorkspace]?

def visibleWorkspaceIndexOfWindow (f : Frame C) (id : WindowId) : Option Nat :=
  f.workspaces.findIdx? fun wsp => (wsp.layout.findLeaf id).isSome

def hiddenWorkspaceIndexOfWindow (f : Frame C) (id : WindowId) : Option Nat :=
  f.workspaces.findIdx? fun wsp => wsp.hiddenTiles.any fun tile => tile.window.id == id

def workspaceIndexOfWindow (f : Frame C) (id : WindowId) : Option Nat :=
  (f.visibleWorkspaceIndexOfWindow id).or (f.hiddenWorkspaceIndexOfWindow id)

def tileMembership (f : Frame C) (id : WindowId) : Option TileMembership :=
  match f.visibleWorkspaceIndexOfWindow id with
  | some workspace => some ⟨workspace, .visible⟩
  | none => (f.hiddenWorkspaceIndexOfWindow id).map fun workspace => ⟨workspace, .hidden⟩

def tile (f : Frame C) (id : WindowId) : Option (Window C) :=
  f.workspaces.findSome? fun wsp =>
    (wsp.layout.findLeaf id).or
      ((wsp.hiddenTiles.find? fun tile => tile.window.id == id).map HiddenTile.window)

def focusedWindowId (f : Frame C) : Option WindowId :=
  match f.soloPresentation with
  | some id => some id
  | none => f.active.bind fun wsp => (wsp.layout.findLeaf wsp.focused).map Window.id

def inheritedProject (f : Frame C) : ProjectId :=
  match f.soloPresentation.bind f.tile with
  | some tile => tile.project
  | none => (f.active.map Workspace.project).getD f.defaultProject

def isEphemeral (f : Frame C) (idx : Nat) : Bool := f.workspaces[idx]?.any Workspace.ephemeral

def activeIsEphemeral (f : Frame C) : Bool := f.isEphemeral f.activeWorkspace

/-- The name of the active workspace, if that is durable. -/
def activeDurableName (f : Frame C) : Option String :=
  (f.active.filter fun wsp => !wsp.ephemeral).map Workspace.autoName

/-! ### The ownership validator -/

/-- One tile of a workspace, with the ids seen before it. -/
def checkTile (project : ProjectId) (ids : List WindowId) (tile : Window C) :
    Except OwnershipViolation (List WindowId) :=
  if tile.id ∈ ids then .error (.duplicateWindowId tile.id)
  else if tile.project ≠ project then
    .error (.workspaceProjectMismatch tile.id tile.project project)
  else .ok (tile.id :: ids)

def checkWorkspace (ids : List WindowId) (entry : Workspace C × Nat) :
    Except OwnershipViolation (List WindowId) := do
  let (wsp, index) := entry
  let ids ← (wsp.layout.leaves ++ wsp.hiddenTiles.map HiddenTile.window).foldlM
    (checkTile wsp.project) ids
  let visible := wsp.layout.leafIds
  if visible ≠ [] ∧ wsp.focused ∉ visible then
    .error (.workspaceFocusIsNotVisible index wsp.focused)
  else .ok ids

def validateOwnership (f : Frame C) : Except OwnershipViolation Unit := do
  let _ ← f.workspaces.zipIdx.foldlM checkWorkspace []
  match f.soloPresentation with
  | none => .ok ()
  | some id =>
      match f.tileMembership id with
      | some ⟨_, .hidden⟩ => .ok ()
      | _ => .error (.soloPresentationMismatch id)

/-! ### Writing -/

/-- Change the workspace with the index `i`. -/
def updateWorkspace (f : Frame C) (i : Nat) (change : Workspace C → Workspace C) : Frame C :=
  match f.workspaces[i]? with
  | some wsp => { f with workspaces := f.workspaces.set i (change wsp) }
  | none => f

/-- Work on the active workspace: `active_workspace_mut().ok_or(())?`. -/
def onActive {α : Type} (m : Effect (Workspace C) Fault α) : FrameOp C α :=
  ExceptT.mk fun f =>
    match f.active with
    | none => (.error .refused, f)
    | some wsp =>
        let (outcome, wsp') := m.exec wsp
        (outcome, { f with workspaces := f.workspaces.set f.activeWorkspace wsp' })

/-- `alloc_window_id`: the id handed out, and the frame after it. -/
def allocWindowId (f : Frame C) : WindowId × Frame C :=
  (f.nextWindowId, { f with nextWindowId := f.nextWindowId + 1 })

/-- The workspace that a new tile opens. -/
def freshWorkspace (f : Frame C) (content : C) (project : ProjectId) : Workspace C :=
  .withLayout (autoWorkspaceName f.nextWorkspaceIndex)
    (.leaf ⟨f.nextWindowId, project, content⟩) f.nextWindowId project

def pushInitialWorkspace (f : Frame C) (content : C) (project : ProjectId) : WindowId × Frame C :=
  let previous := f.activeDurableName
  let (id, f') := f.allocWindowId
  (id, { f' with
    nextWorkspaceIndex := f.nextWorkspaceIndex + 1
    workspaces := f.workspaces ++ [f.freshWorkspace content project]
    activeWorkspace := f.workspaces.length
    soloPresentation := none
    previousWorkspace := previous })

def withInitial (content : C) (project : ProjectId) : Frame C :=
  ((new project).pushInitialWorkspace content project).2

def pushWorkspaceInheriting (f : Frame C) (content : C) : WindowId × Frame C :=
  f.pushInitialWorkspace content f.inheritedProject

def closeWorkspace (f : Frame C) (idx : Nat) : Frame C :=
  if f.workspaces.length ≤ idx ∨ f.workspaces.length ≤ 1 then f
  else
    let f' := { f with workspaces := f.workspaces.eraseIdx idx }
    let activeWorkspace :=
      if f'.workspaces.length ≤ f.activeWorkspace then f'.workspaces.length - 1
      else if idx < f.activeWorkspace then f.activeWorkspace - 1
      else f.activeWorkspace
    { f' with
        soloPresentation := f.soloPresentation.filter fun id => (f'.tileMembership id).isSome
        activeWorkspace }

/-- The name that a switch to `idx` leaves behind, if it changes the
workspace. -/
def departure (f : Frame C) (idx : Nat) : Option String :=
  f.activeDurableName.filter fun name =>
    some name ≠ f.workspaces[idx]?.map Workspace.autoName

/-- Activate the workspace `idx`. An ephemeral workspace that is left is
torn down, which shifts what stands behind it. -/
def leaveFor (f : Frame C) (idx : Nat) : Frame C :=
  let cur := f.activeWorkspace
  if cur ≠ idx ∧ f.isEphemeral cur = true then
    { f with
        workspaces := f.workspaces.eraseIdx cur
        soloPresentation := none
        ephemeralOrigin := none
        activeWorkspace :=
          min (if cur < idx then idx - 1 else idx) ((f.workspaces.eraseIdx cur).length - 1) }
  else { f with soloPresentation := none, activeWorkspace := idx }

def setActiveWorkspace (f : Frame C) (idx : Nat) : Frame C :=
  if f.workspaces.length ≤ idx then f
  else
    let f' := f.leaveFor idx
    { f' with previousWorkspace :=
        if f'.activeIsEphemeral then f'.previousWorkspace
        else (f.departure idx).or f'.previousWorkspace }

def workspaceBackAndForth (f : Frame C) : Frame C × Bool :=
  let target := f.previousWorkspace.bind fun previous =>
    f.workspaces.findIdx? fun wsp => !wsp.ephemeral && wsp.autoName == previous
  match target with
  | none => (f, false)
  | some target =>
      if target = f.activeWorkspace then (f, false) else (f.setActiveWorkspace target, true)

def nextWorkspace (f : Frame C) : Frame C :=
  if f.workspaces = [] then f
  else f.setActiveWorkspace ((f.activeWorkspace + 1) % f.workspaces.length)

def prevWorkspace (f : Frame C) : Frame C :=
  if f.workspaces = [] then f
  else
    f.setActiveWorkspace
      (if f.activeWorkspace = 0 then f.workspaces.length - 1 else f.activeWorkspace - 1)

/-! ### Ephemeral workspaces -/

/-- An ephemeral workspace gives way to the next; from any other the way
back is kept. -/
def roomForEphemeral (f : Frame C) : Frame C :=
  if f.activeIsEphemeral = true then
    { f with workspaces := f.workspaces.eraseIdx f.activeWorkspace }
  else { f with ephemeralOrigin := f.focusedWindowId }

def openEphemeralWorkspaceIn (f : Frame C) (content : C) (project : ProjectId) :
    WindowId × Frame C :=
  let f' := f.roomForEphemeral
  let (id, f'') := f'.allocWindowId
  (id, { f'' with
    nextWorkspaceIndex := f'.nextWorkspaceIndex + 1
    workspaces := f'.workspaces ++ [{ f'.freshWorkspace content project with ephemeral := true }]
    activeWorkspace := f'.workspaces.length })

def openEphemeralWorkspace (f : Frame C) (content : C) : WindowId × Frame C :=
  f.openEphemeralWorkspaceIn content f.inheritedProject

def sameProjectLanding (f : Frame C) (project : ProjectId) : Option Nat :=
  ((f.ephemeralOrigin.bind f.workspaceIndexOfWindow).filter fun i =>
      f.workspaces[i]?.any fun wsp => wsp.project == project).or
    (f.workspaces.findIdx? fun wsp => !wsp.ephemeral && wsp.project == project)

def activeEphemeralProject (f : Frame C) : Option ProjectId :=
  (f.active.filter Workspace.ephemeral).map Workspace.project

def dismissEphemeralWorkspace (f : Frame C) : Frame C :=
  if f.activeIsEphemeral = false then f
  else
    let cur := f.activeWorkspace
    let target := (f.activeEphemeralProject.bind f.sameProjectLanding).or
      (f.ephemeralOrigin.bind f.workspaceIndexOfWindow)
    let workspaces := f.workspaces.eraseIdx cur
    let last := workspaces.length - 1
    { f with
        workspaces
        ephemeralOrigin := none
        activeWorkspace := match target with
          | some i => if cur < i then min (i - 1) last else min i last
          | none => last }

/-! ### Placing tiles -/

def insertLeafIntoWorkspace (workspaceIdx : Nat) (window : Window C) : FrameOp C PUnit := do
  let f ← get
  if (f.tileMembership window.id).isSome then throw .refused
  match f.workspaces[workspaceIdx]? with
  | none => throw .refused
  | some wsp =>
      if window.project ≠ wsp.project then throw .refused
      modify fun f => f.updateWorkspace workspaceIdx fun wsp => wsp.insertLeaf window

/-- The durable workspace of the project that a new tile goes to: the
active one or that of the presented tile, else the first. -/
def workspaceFor (f : Frame C) (project : ProjectId) : Option Nat :=
  let fits (wsp : Workspace C) : Bool := !wsp.ephemeral && wsp.project == project
  let soloOwner := f.soloPresentation.bind f.workspaceIndexOfWindow
  ((soloOwner.or (some f.activeWorkspace)).filter fun i => f.workspaces[i]?.any fits).or
    (f.workspaces.findIdx? fits)

def openTileInProject (content : C) (project : ProjectId) : FrameOp C WindowId := do
  let f ← get
  match f.workspaceFor project with
  | none =>
      let (id, f') := f.pushInitialWorkspace content project
      set f'
      return id
  | some target =>
      let (id, f') := f.allocWindowId
      set { f' with soloPresentation := none }
      tryCatch (insertLeafIntoWorkspace target ⟨id, project, content⟩) fun _ => throw .panicked
      modify fun f => f.updateWorkspace target fun wsp => { wsp with
        desktop := (wsp.desktop.reconcileNear wsp.layout.leafIds (some id)).1
        focused := id }
      modify fun f => f.setActiveWorkspace target
      return id

def insertRestoredHidden (workspace : Nat) (window : Window C)
    (previousPlacement : Option (Slot × Span)) : FrameOp C PUnit := do
  let f ← get
  if (f.tileMembership window.id).isSome then throw (.place (.duplicateWindowId window.id))
  match f.workspaces[workspace]? with
  | none => throw (.place (.workspaceNotFound workspace))
  | some owner =>
      if owner.project ≠ window.project then
        throw (.place (.projectMismatch window.id window.project owner.project))
      modify fun f =>
        { f with nextWindowId := max f.nextWindowId (WindowId.saturatingSucc window.id) }
      modify fun f => f.updateWorkspace workspace fun wsp =>
        { wsp with hiddenTiles := wsp.hiddenTiles ++ [⟨window, previousPlacement⟩] }

def restoreSoloPresentation (f : Frame C) (id : WindowId) : Frame C × Bool :=
  match f.tileMembership id with
  | some ⟨_, .hidden⟩ => ({ f with soloPresentation := some id }, true)
  | _ => ({ f with soloPresentation := none }, false)

def presentSolo (f : Frame C) (id : WindowId) : Frame C × Bool :=
  match f.tileMembership id with
  | some ⟨_, .hidden⟩ => ({ f with soloPresentation := some id }, true)
  | _ => (f, false)

def clearSoloPresentation (f : Frame C) : Frame C := { f with soloPresentation := none }

def focusTile (f : Frame C) (id : WindowId) : Frame C × Bool :=
  match f.tileMembership id with
  | some ⟨workspace, .visible⟩ =>
      let f' := f.updateWorkspace workspace fun wsp => { wsp with focused := id }
      (f'.setActiveWorkspace workspace, true)
  | some ⟨_, .hidden⟩ => f.presentSolo id
  | none => (f, false)

/-! ### Surgery on the active workspace -/

def splitFocused (dir : SplitDir) (content : C) : FrameOp C (Option WindowId) := do
  let f ← get
  if f.soloPresentation.isSome then return none
  let (newId, f') := f.allocWindowId
  set f'
  match f'.active with
  | none => return none
  | some wsp =>
      match wsp.splitFocused dir ⟨newId, wsp.project, content⟩ with
      | none => return none
      | some wsp' =>
          modify fun f => f.updateWorkspace f.activeWorkspace fun _ => wsp'
          return some newId

/-- The position of a hidden tile in its workspace. -/
def hiddenPosition (f : Frame C) (workspace : Nat) (id : WindowId) : Option Nat :=
  f.workspaces[workspace]?.bind fun wsp =>
    wsp.hiddenTiles.findIdx? fun tile => tile.window.id == id

/-- `hidden_tiles.remove(position)`. -/
def removeHidden (workspace position : Nat) : FrameOp C (HiddenTile C) := do
  let f ← get
  match f.workspaces[workspace]?.bind fun wsp => wsp.hiddenTiles[position]? with
  | none => throw .panicked
  | some hidden =>
      modify fun f => f.updateWorkspace workspace fun wsp =>
        { wsp with hiddenTiles := wsp.hiddenTiles.eraseIdx position }
      return hidden

def closeFocused : FrameOp C (Option WindowId) := do
  let f ← get
  match f.soloPresentation with
  | some focused =>
      match f.hiddenWorkspaceIndexOfWindow focused with
      | none => throw .refused
      | some workspace =>
          match f.hiddenPosition workspace focused with
          | none => throw .refused
          | some position =>
              let _ ← removeHidden workspace position
              modify fun f => { f with soloPresentation := none }
              return (← get).focusedWindowId
  | none => onActive Workspace.closeFocused

def detachFocused : FrameOp C (Window C × Bool) := do
  if (← get).soloPresentation.isSome then throw .refused
  onActive Workspace.detachFocused

def only : FrameOp C PUnit := do
  if (← get).soloPresentation.isSome then throw .refused
  onActive Workspace.only

/-- `focus_next`, `focus_prev` and `focus_motion`, with the target each
looks up. -/
def focusOn (target : Workspace C → Option WindowId) : FrameOp C PUnit := do
  if (← get).soloPresentation.isSome then throw .refused
  onActive do
    match target (← get) with
    | some next => modify fun wsp => { wsp with focused := next }
    | none => pure ⟨⟩

def focusNext : FrameOp C PUnit :=
  focusOn fun wsp => wsp.desktop.sequenceNeighbor wsp.focused true

def focusPrev : FrameOp C PUnit :=
  focusOn fun wsp => wsp.desktop.sequenceNeighbor wsp.focused false

def focusMotion (dir : FocusDir) : FrameOp C PUnit := focusOn fun wsp => wsp.focusTarget dir

/-! ### Moving tiles -/

/-- `desktop.reconcile` of one workspace over the leaves it has. -/
def reconcileWorkspace (f : Frame C) (workspace : Nat) (near : Option WindowId) : Frame C :=
  f.updateWorkspace workspace fun wsp =>
    { wsp with desktop := (wsp.desktop.reconcileNear wsp.layout.leafIds near).1 }

def hideWindow (id : WindowId) : FrameOp C PUnit := do
  let f ← get
  match f.tileMembership id with
  | some ⟨workspace, .visible⟩ =>
      let previousPlacement := f.workspaces[workspace]?.bind fun wsp => wsp.desktop.rectOf id
      modify fun f => { f with soloPresentation := none, activeWorkspace := workspace }
      modify fun f => f.updateWorkspace workspace fun wsp => { wsp with focused := id }
      let (window, empty) ← detachFocused
      if empty then
        modify fun f => f.updateWorkspace workspace fun wsp => { wsp with focused := 0 }
      modify fun f => f.reconcileWorkspace workspace none
      modify fun f => f.updateWorkspace workspace fun wsp =>
        { wsp with hiddenTiles := wsp.hiddenTiles ++ [⟨window, previousPlacement⟩] }
      modify fun f' => { f' with activeWorkspace := f.activeWorkspace }
  | _ => throw .refused

def unhideWindow (id : WindowId) : FrameOp C PUnit := do
  let f ← get
  match f.tileMembership id with
  | some ⟨workspace, .hidden⟩ =>
      match f.hiddenPosition workspace id with
      | none => throw .refused
      | some position =>
          let hidden ← removeHidden workspace position
          modify fun f => { f with soloPresentation := none }
          insertLeafIntoWorkspace workspace hidden.window
          modify fun f => f.reconcileWorkspace workspace (some id)
          match hidden.previousPlacement with
          | some (slot, span) =>
              modify fun f => f.updateWorkspace workspace fun wsp =>
                { wsp with desktop := (wsp.desktop.restorePlacementIfFree id slot span).1 }
          | none => pure ()
          modify fun f => f.updateWorkspace workspace fun wsp => { wsp with focused := id }
          modify fun f => f.setActiveWorkspace workspace
  | _ => throw .refused

def moveAttachedToWorkspace (id : WindowId) (target : Nat) (follow : Bool) : FrameOp C PUnit := do
  let f ← get
  match f.visibleWorkspaceIndexOfWindow id with
  | none => throw .refused
  | some source =>
      match f.workspaces[source]?, f.workspaces[target]? with
      | some sourceWsp, some targetWsp =>
          if source = target ∨ sourceWsp.project ≠ targetWsp.project then throw .refused
          modify fun f => { f with soloPresentation := none, activeWorkspace := source }
          modify fun f => f.updateWorkspace source fun wsp => { wsp with focused := id }
          let (window, sourceEmpty) ← detachFocused
          let removeSource := sourceEmpty && sourceWsp.hiddenTiles.isEmpty
          let target' := if removeSource && decide (source < target) then target - 1 else target
          if removeSource then
            modify fun f => { f with workspaces := f.workspaces.eraseIdx source }
          else
            modify fun f => f.reconcileWorkspace source none
          insertLeafIntoWorkspace target' window
          modify fun f => f.reconcileWorkspace target' none
          if follow || removeSource then
            modify fun f =>
              { f with activeWorkspace := target', previousWorkspace := some sourceWsp.autoName }
          else
            modify fun f' => { f' with activeWorkspace := f.activeWorkspace }
      | _, _ => throw .refused

def sendTileToWorkspace (id : WindowId) (target : Nat) (follow : Bool) : FrameOp C PUnit := do
  let f ← get
  match f.tileMembership id with
  | none => throw .refused
  | some ⟨workspace, .visible⟩ =>
      if workspace = target then return ⟨⟩
      moveAttachedToWorkspace id target follow
  | some ⟨source, .hidden⟩ =>
      match f.workspaces[source]?, f.workspaces[target]? with
      | some sourceWsp, some targetWsp =>
          if targetWsp.project ≠ sourceWsp.project then throw .refused
          match f.hiddenPosition source id with
          | none => throw .refused
          | some position =>
              let hidden ← removeHidden source position
              modify fun f => { f with soloPresentation := none }
              insertLeafIntoWorkspace target hidden.window
              modify fun f => f.reconcileWorkspace target (some id)
              modify fun f' =>
                f'.setActiveWorkspace (if follow then target else f.activeWorkspace)
      | _, _ => throw .refused

/-! ### Runs -/

/-- The operations of the frame, and those of its workspaces that move
focus or change the arrangement. `reconcile` is what the renderer runs. -/
inductive Action (C : Type) where
  | pushInitialWorkspace (content : C) (project : ProjectId)
  | pushWorkspaceInheriting (content : C)
  | openTileInProject (content : C) (project : ProjectId)
  | splitFocused (dir : SplitDir) (content : C)
  | closeFocused
  | closeWorkspace (idx : Nat)
  | only
  | hideWindow (id : WindowId)
  | unhideWindow (id : WindowId)
  | moveAttachedToWorkspace (id : WindowId) (target : Nat) (follow : Bool)
  | sendTileToWorkspace (id : WindowId) (target : Nat) (follow : Bool)
  | insertRestoredHidden (workspace : Nat) (window : Window C)
      (previousPlacement : Option (Slot × Span))
  | openEphemeralWorkspaceIn (content : C) (project : ProjectId)
  | openEphemeralWorkspace (content : C)
  | dismissEphemeralWorkspace
  | setActiveWorkspace (idx : Nat)
  | nextWorkspace
  | prevWorkspace
  | workspaceBackAndForth
  | focusNext
  | focusPrev
  | focusMotion (dir : FocusDir)
  | focusTile (id : WindowId)
  | presentSolo (id : WindowId)
  | clearSoloPresentation
  | restoreSoloPresentation (id : WindowId)
  | swapFocusedDirection (workspace : Nat) (dir : FocusDir)
  | rotatePlacements (workspace : Nat) (forward : Bool)
  | undoArrangement (workspace : Nat)
  | setView (workspace : Nat) (view : WorkspaceView)
  | increasePrimaryCount (workspace : Nat)
  | decreasePrimaryCount (workspace : Nat)
  | reconcile (workspace : Nat) (near : Option WindowId) (newSpan : Span)

/-- One operation, without the value it answers. -/
def perform : Action C → FrameOp C PUnit
  | .pushInitialWorkspace content project =>
      modify fun f => (f.pushInitialWorkspace content project).2
  | .pushWorkspaceInheriting content => modify fun f => (f.pushWorkspaceInheriting content).2
  | .openTileInProject content project => do let _ ← openTileInProject content project
  | .splitFocused dir content => do let _ ← splitFocused dir content
  | .closeFocused => do let _ ← closeFocused
  | .closeWorkspace idx => modify fun f => f.closeWorkspace idx
  | .only => only
  | .hideWindow id => hideWindow id
  | .unhideWindow id => unhideWindow id
  | .moveAttachedToWorkspace id target follow => moveAttachedToWorkspace id target follow
  | .sendTileToWorkspace id target follow => sendTileToWorkspace id target follow
  | .insertRestoredHidden workspace window previousPlacement =>
      insertRestoredHidden workspace window previousPlacement
  | .openEphemeralWorkspaceIn content project =>
      modify fun f => (f.openEphemeralWorkspaceIn content project).2
  | .openEphemeralWorkspace content => modify fun f => (f.openEphemeralWorkspace content).2
  | .dismissEphemeralWorkspace => modify dismissEphemeralWorkspace
  | .setActiveWorkspace idx => modify fun f => f.setActiveWorkspace idx
  | .nextWorkspace => modify nextWorkspace
  | .prevWorkspace => modify prevWorkspace
  | .workspaceBackAndForth => modify fun f => f.workspaceBackAndForth.1
  | .focusNext => focusNext
  | .focusPrev => focusPrev
  | .focusMotion dir => focusMotion dir
  | .focusTile id => modify fun f => (f.focusTile id).1
  | .presentSolo id => modify fun f => (f.presentSolo id).1
  | .clearSoloPresentation => modify clearSoloPresentation
  | .restoreSoloPresentation id => modify fun f => (f.restoreSoloPresentation id).1
  | .swapFocusedDirection workspace dir =>
      modify fun f => f.updateWorkspace workspace fun wsp => wsp.swapFocusedDirection dir
  | .rotatePlacements workspace forward =>
      modify fun f => f.updateWorkspace workspace fun wsp => wsp.rotatePlacements forward
  | .undoArrangement workspace => modify fun f => f.updateWorkspace workspace .undoArrangement
  | .setView workspace view =>
      modify fun f => f.updateWorkspace workspace fun wsp => wsp.setView view
  | .increasePrimaryCount workspace =>
      modify fun f => f.updateWorkspace workspace .increasePrimaryCount
  | .decreasePrimaryCount workspace =>
      modify fun f => f.updateWorkspace workspace .decreasePrimaryCount
  | .reconcile workspace near newSpan =>
      modify fun f => f.updateWorkspace workspace fun wsp => wsp.reconcile near newSpan

/-- An operation that panics leaves no frame. -/
def step (f : Frame C) (a : Action C) : Option (Frame C) :=
  match (perform a).exec f with
  | (.error .panicked, _) => none
  | (_, f') => some f'

/-- A frame from `with_initial` on. -/
def machine (C : Type) : Machine (Frame C) (Action C) where
  start f := ∃ content project, f = withInitial content project
  step := step

end Frame

end Yaldabaoth
