import Yaldabaoth.Lib.Holdings
import Yaldabaoth.Model.Frame
import Yaldabaoth.Proofs.Frame.Surgery

/-!
# `Yaldabaoth.Proofs.Frame.Operations`: what each operation does

One lemma for each operation: which workspaces it writes, what becomes
of their tiles and which workspace is active afterwards. `Becomes` is
the account of a workspace that was written; the operations that move a
tile between workspaces are put together from two of them.
-/

set_option autoImplicit false

namespace Yaldabaoth

open SplitTree Holdings

variable {C : Type}

namespace Workspace

/-- The account of a change of one workspace. -/
structure Becomes (wsp wsp' : Workspace C) (born retired : List (Window C)) : Prop where
  tiles : (wsp'.tiles ++ retired).Perm (wsp.tiles ++ born)
  tidy : wsp'.layout.Tidy
  project : wsp'.project = wsp.project
  ephemeral : wsp'.ephemeral = wsp.ephemeral

variable {wsp wsp' : Workspace C} {born retired : List (Window C)} {window : Window C}

/-- A sound workspace stays sound when what comes in is of its project. -/
theorem Becomes.sound (h : Becomes wsp wsp' born retired) (hsound : wsp.Sound)
    (hborn : ∀ tile ∈ born, tile.project = wsp.project) : wsp'.Sound := by
  refine ⟨h.tidy, fun tile htile => ?_⟩
  rw [h.project]
  rcases List.mem_append.1 (h.tiles.mem_iff.1 (List.mem_append_left retired htile)) with hold | hnew
  · exact hsound.home tile hold
  · exact hborn tile hnew

/-- A change that leaves the tiles alone. -/
theorem Becomes.of_same (hsound : wsp.Sound) (hlayout : wsp'.layout = wsp.layout)
    (hhidden : wsp'.hiddenTiles = wsp.hiddenTiles) (hproject : wsp'.project = wsp.project)
    (hephemeral : wsp'.ephemeral = wsp.ephemeral) : Becomes wsp wsp' [] [] := by
  refine ⟨?_, ?_, hproject, hephemeral⟩
  · rw [Workspace.tiles, Workspace.tiles, hlayout, hhidden]
  · rw [hlayout]
    exact hsound.tidy

/-- One workspace has a leaf that the other has not. -/
theorem tiles_perm_cons (hhidden : wsp'.hiddenTiles = wsp.hiddenTiles)
    (h : ∃ before after, wsp.layout.leaves = before ++ window :: after ∧
      wsp'.layout.leaves = before ++ after) : wsp.tiles.Perm (window :: wsp'.tiles) := by
  obtain ⟨before, after, hleaves, hleaves'⟩ := h
  rw [Workspace.tiles, Workspace.tiles, hleaves, hleaves', hhidden, List.append_assoc,
    List.append_assoc, List.cons_append]
  exact List.perm_middle

/-- A leaf that was taken out is all that is missing. -/
theorem TakenOut.becomes (h : TakenOut wsp window wsp') : Becomes wsp wsp' [] [window] := by
  have htiles := tiles_perm_cons (by rw [h.only]) h.leaves
  refine ⟨?_, .inr h.full, by rw [h.only], by rw [h.only]⟩
  rw [List.append_nil]
  exact (List.perm_append_singleton window _).trans htiles.symm

/-- What is known of a workspace that its focused leaf was detached
from. -/
structure Detached (wsp : Workspace C) (window : Window C) (empty : Bool) (wsp' : Workspace C) :
    Prop where
  only : wsp' = { wsp with layout := wsp'.layout, focused := wsp'.focused }
  tidy : wsp'.layout.Tidy
  leaves : ∃ before after, wsp.layout.leaves = before ++ window :: after ∧
    wsp'.layout.leaves = before ++ after
  gone : empty = true → wsp'.layout = .empty
  full : empty = false → wsp'.layout.Full
  aimed : wsp'.Aimed

/-- The tile that was detached is all that is missing. -/
theorem Detached.tiles {empty : Bool} (h : Detached wsp window empty wsp') :
    wsp.tiles.Perm (window :: wsp'.tiles) :=
  tiles_perm_cons (by rw [h.only]) h.leaves

/-- A workspace that a tile was detached from had that one alone, or has
others. -/
theorem Detached.length {empty : Bool} (h : Detached wsp window empty wsp') :
    wsp.tiles.length = 1 ↔ (empty && wsp.hiddenTiles.isEmpty) = true := by
  have hhidden : wsp'.hiddenTiles = wsp.hiddenTiles := by rw [h.only]
  rw [h.tiles.length_eq, List.length_cons, Workspace.tiles, List.length_append, List.length_map,
    hhidden]
  cases empty with
  | true =>
      rw [h.gone rfl, Bool.true_and, List.isEmpty_iff, ← List.length_eq_zero_iff, leaves_empty,
        List.length_nil]
      omega
  | false =>
      have hleaves := List.length_pos_iff_ne_nil.2 (h.full rfl).leaves_ne_nil
      rw [Bool.false_and]
      simp only [Bool.false_eq_true, iff_false]
      omega

theorem Detached.becomes {empty : Bool} (h : Detached wsp window empty wsp') :
    Becomes wsp wsp' [] [window] := by
  refine ⟨?_, h.tidy, by rw [h.only], by rw [h.only]⟩
  rw [List.append_nil]
  exact (List.perm_append_singleton window _).trans h.tiles.symm

/-- Any visible tile can be focused and detached. -/
theorem detachFocused_at (hsound : wsp.Sound) {id : WindowId} (hid : id ∈ wsp.layout.leafIds) :
    ∃ window empty wsp', window.id = id ∧ Detached wsp window empty wsp' ∧
      detachFocused.exec { wsp with focused := id } = (.ok (window, empty), wsp') := by
  obtain ⟨window, hwindow, hroot | hchild⟩ :=
    @detachFocused_spec C { wsp with focused := id } hsound.tidy hid
  · obtain ⟨hleaf, hexec⟩ := hroot
    have hleaves : wsp.layout.leaves = [] ++ window :: [] := by
      rw [show wsp.layout = .leaf window from hleaf]
      rfl
    refine ⟨window, true, _, hwindow, ⟨rfl, .inl rfl, ⟨[], [], hleaves, rfl⟩, fun _ => rfl,
      nofun, ?_⟩, hexec⟩
    exact fun h => absurd rfl h
  · obtain ⟨wsp', htaken, hexec⟩ := hchild
    refine ⟨window, false, wsp', hwindow, ⟨?_, .inr htaken.full, htaken.leaves, nofun,
      fun _ => htaken.full, fun _ => htaken.aimed⟩, hexec⟩
    rw [htaken.only]

/-- The tile that was put in is all that is new. -/
theorem PutIn.becomes (h : PutIn wsp window wsp') : Becomes wsp wsp' [window] [] := by
  obtain ⟨before, after, hleaves, hleaves'⟩ := h.leaves
  have hmiddle : wsp'.tiles.Perm (window :: wsp.tiles) :=
    tiles_perm_cons (by rw [h.only]) ⟨before, after, hleaves', hleaves⟩
  refine ⟨?_, .inr h.full, by rw [h.only], by rw [h.only]⟩
  rw [List.append_nil]
  exact hmiddle.trans (List.perm_append_singleton window _).symm

theorem PutIn.aimed (h : PutIn wsp window wsp') : wsp'.Aimed := by
  intro _
  obtain ⟨before, after, -, hleaves⟩ := h.leaves
  have hfocused : wsp'.focused = window.id := by rw [h.only]
  rw [Layout.leafIds, hleaves, hfocused]
  exact List.mem_map_of_mem (List.mem_append_right _ List.mem_cons_self)

/-! ### The workspaces together -/

/-- A change of the arrangement: of the plane, the view or the number of
primary tiles. -/
def Arranges (change : Workspace C → Workspace C) : Prop :=
  ∀ wsp, ∃ desktop view primaryCount, change wsp = { wsp with desktop, view, primaryCount }

theorem Arranges.swap (dir : FocusDir) : Arranges fun wsp : Workspace C =>
    wsp.swapFocusedDirection dir := by
  intro wsp
  show ∃ desktop view primaryCount,
    wsp.swapFocusedDirection dir = { wsp with desktop, view, primaryCount }
  rw [swapFocusedDirection]
  split <;> exact ⟨_, _, _, rfl⟩

theorem Arranges.rotate (forward : Bool) : Arranges fun wsp : Workspace C =>
    wsp.rotatePlacements forward := fun _ => ⟨_, _, _, rfl⟩

theorem Arranges.undo : Arranges (undoArrangement (C := C)) := fun _ => ⟨_, _, _, rfl⟩

theorem Arranges.setView (view : WorkspaceView) : Arranges fun wsp : Workspace C =>
    wsp.setView view := fun _ => ⟨_, _, _, rfl⟩

theorem Arranges.increase : Arranges (increasePrimaryCount (C := C)) := by
  intro wsp
  rw [increasePrimaryCount]
  split <;> exact ⟨_, _, _, rfl⟩

theorem Arranges.decrease : Arranges (decreasePrimaryCount (C := C)) := by
  intro wsp
  rw [decreasePrimaryCount]
  split <;> exact ⟨_, _, _, rfl⟩

theorem Arranges.reconcile (near : Option WindowId) (newSpan : Span) :
    Arranges fun wsp : Workspace C => wsp.reconcile near newSpan := fun _ => ⟨_, _, _, rfl⟩

theorem Arranges.plane (change : Workspace C → DesktopState) :
    Arranges fun wsp => { wsp with desktop := change wsp } := fun _ => ⟨_, _, _, rfl⟩

/-- All workspaces are sound. -/
def AllSound (ws : List (Workspace C)) : Prop := ∀ wsp ∈ ws, wsp.Sound

def AllAimed (ws : List (Workspace C)) : Prop := ∀ wsp ∈ ws, wsp.Aimed

/-- The account of a change of the workspaces. -/
structure Rearranged (ws ws' : List (Workspace C)) (born retired : List (Window C)) : Prop where
  trades : Trades tiles ws ws' born retired
  sound : AllSound ws → AllSound ws'
  aimed : AllAimed ws → AllAimed ws'

section rearranged

variable {ws ws' ws'' : List (Workspace C)} {i : Nat} {born' retired' : List (Window C)}

theorem Rearranged.refl (ws : List (Workspace C)) : Rearranged ws ws [] [] := ⟨.refl ws, id, id⟩

theorem Rearranged.trans (h : Rearranged ws ws' born retired)
    (h' : Rearranged ws' ws'' born' retired') :
    Rearranged ws ws'' (born ++ born') (retired ++ retired') :=
  ⟨h.trades.trans h'.trades, fun hs => h'.sound (h.sound hs), fun ha => h'.aimed (h.aimed ha)⟩

theorem Rearranged.cancel (h : Rearranged ws ws' [window] [window]) : Rearranged ws ws' [] [] :=
  ⟨h.trades.cancel, h.sound, h.aimed⟩

/-- One workspace is written. -/
theorem Rearranged.set (hat : ws[i]? = some wsp) (h : Becomes wsp wsp' born retired)
    (hborn : ∀ tile ∈ born, tile.project = wsp.project) (haimed : wsp.Aimed → wsp'.Aimed) :
    Rearranged ws (ws.set i wsp') born retired := by
  have hmem := List.mem_of_getElem? hat
  refine ⟨.set hat h.tiles, fun hsound other hother => ?_, fun hall other hother => ?_⟩
  · rcases List.mem_or_eq_of_mem_set hother with hold | rfl
    · exact hsound other hold
    · exact h.sound (hsound wsp hmem) hborn
  · rcases List.mem_or_eq_of_mem_set hother with hold | rfl
    · exact hall other hold
    · exact haimed (hall wsp hmem)

/-- One workspace leaves with its tiles. -/
theorem Rearranged.erase (hat : ws[i]? = some wsp) :
    Rearranged ws (ws.eraseIdx i) [] wsp.tiles :=
  ⟨.erase hat, fun hsound other hother => hsound other (List.mem_of_mem_eraseIdx hother),
    fun hall other hother => hall other (List.mem_of_mem_eraseIdx hother)⟩

/-- One workspace is added. -/
theorem Rearranged.append (ws : List (Workspace C)) (hsound : wsp.Sound) (haimed : wsp.Aimed) :
    Rearranged ws (ws ++ [wsp]) wsp.tiles [] := by
  refine ⟨.append ws wsp, fun hall other hother => ?_, fun hall other hother => ?_⟩
  · rcases List.mem_append.1 hother with hold | hnew
    · exact hall other hold
    · rw [List.mem_singleton.1 hnew]
      exact hsound
  · rcases List.mem_append.1 hother with hold | hnew
    · exact hall other hold
    · rw [List.mem_singleton.1 hnew]
      exact haimed

end rearranged

end Workspace

namespace Frame

open Workspace (Rearranged AllSound AllAimed)

/-- The tiles of all workspaces. -/
def tiles (f : Frame C) : List (Window C) := total Workspace.tiles f.workspaces

def ids (f : Frame C) : List WindowId := f.tiles.map Window.id

variable {f : Frame C} {id : WindowId} {i : Nat}

/-! ### Where a tile is -/

theorem visible_spec (h : f.visibleWorkspaceIndexOfWindow id = some i) :
    ∃ wsp, f.workspaces[i]? = some wsp ∧ id ∈ wsp.layout.leafIds := by
  obtain ⟨hi, hfound, -⟩ := List.findIdx?_eq_some_iff_getElem.1 h
  exact ⟨_, List.getElem?_eq_getElem hi, Layout.findLeaf_isSome.1 hfound⟩

theorem hidden_spec (h : f.hiddenWorkspaceIndexOfWindow id = some i) :
    ∃ wsp, f.workspaces[i]? = some wsp ∧ id ∈ wsp.hiddenTiles.map (·.window.id) := by
  obtain ⟨hi, hfound, -⟩ := List.findIdx?_eq_some_iff_getElem.1 h
  obtain ⟨tile, htile, hid⟩ := List.any_eq_true.1 hfound
  exact ⟨_, List.getElem?_eq_getElem hi, List.mem_map.2 ⟨tile, htile, beq_iff_eq.1 hid⟩⟩

theorem mem_ids : id ∈ f.ids ↔ ∃ wsp ∈ f.workspaces,
    id ∈ wsp.layout.leafIds ∨ id ∈ wsp.hiddenTiles.map (·.window.id) := by
  have hsame (wsp : Workspace C) : wsp.tiles.map Window.id =
      wsp.layout.leafIds ++ wsp.hiddenTiles.map (·.window.id) := by
    rw [Workspace.tiles, List.map_append, List.map_map]
    rfl
  have hids : f.ids = f.workspaces.flatMap fun wsp => wsp.tiles.map Window.id :=
    List.map_flatMap
  rw [hids, List.mem_flatMap]
  simp only [hsame, List.mem_append]

/-- A tile is found where it is. -/
theorem tileMembership_eq_none : f.tileMembership id = none ↔ id ∉ f.ids := by
  have hvisible : f.visibleWorkspaceIndexOfWindow id = none ↔
      ∀ wsp ∈ f.workspaces, id ∉ wsp.layout.leafIds := by
    rw [visibleWorkspaceIndexOfWindow, List.findIdx?_eq_none_iff]
    simp only [Bool.eq_false_iff, Ne, Layout.findLeaf_isSome]
  have hhidden : f.hiddenWorkspaceIndexOfWindow id = none ↔
      ∀ wsp ∈ f.workspaces, id ∉ wsp.hiddenTiles.map (·.window.id) := by
    rw [hiddenWorkspaceIndexOfWindow, List.findIdx?_eq_none_iff]
    simp only [List.any_eq_false, beq_iff_eq, List.mem_map, not_exists, not_and]
  rw [mem_ids]
  constructor
  · intro hnone
    rw [tileMembership] at hnone
    split at hnone
    · cases hnone
    · next hvis =>
        rintro ⟨wsp, hwsp, hid | hid⟩
        · exact hvisible.1 hvis wsp hwsp hid
        · exact hhidden.1 (Option.map_eq_none_iff.1 hnone) wsp hwsp hid
  · intro hnot
    have hvis := hvisible.2 fun wsp hwsp hid => hnot ⟨wsp, hwsp, .inl hid⟩
    have hhid := hhidden.2 fun wsp hwsp hid => hnot ⟨wsp, hwsp, .inr hid⟩
    rw [tileMembership, hvis, hhid]
    rfl

theorem tileMembership_visible (h : f.tileMembership id = some ⟨i, .visible⟩) :
    ∃ wsp, f.workspaces[i]? = some wsp ∧ id ∈ wsp.layout.leafIds := by
  rw [tileMembership] at h
  split at h
  · next hvis =>
      cases h
      exact visible_spec hvis
  · obtain ⟨_, _, hcontra⟩ := Option.map_eq_some_iff.1 h
    cases hcontra

theorem tileMembership_hidden (h : f.tileMembership id = some ⟨i, .hidden⟩) :
    f.hiddenWorkspaceIndexOfWindow id = some i := by
  rw [tileMembership] at h
  split at h
  · cases h
  · obtain ⟨j, hj, hsame⟩ := Option.map_eq_some_iff.1 h
    cases hsame
    exact hj

/-! ### Writing one workspace -/

theorem exec_onActive {α : Type} {m : Effect (Workspace C) Fault α} {wsp : Workspace C}
    (h : f.active = some wsp) :
    (onActive m).exec f = ((m.exec wsp).1,
      { f with workspaces := f.workspaces.set f.activeWorkspace (m.exec wsp).2 }) := by
  rw [onActive, Effect.exec_mk, h]

theorem exec_onActive_none {α : Type} {m : Effect (Workspace C) Fault α} (h : f.active = none) :
    (onActive m).exec f = (.error .refused, f) := by
  rw [onActive, Effect.exec_mk, h]

/-- Hiding a tile writes the workspace it is in. -/
theorem hideWindow_spec (hsound : AllSound f.workspaces)
    (hat : f.tileMembership id = some ⟨i, .visible⟩) :
    ∃ wsp', (∃ wsp, f.workspaces[i]? = some wsp ∧ wsp'.ephemeral = wsp.ephemeral) ∧
      Rearranged f.workspaces (f.workspaces.set i wsp') [] [] ∧
      (hideWindow id).exec f = (.ok ⟨⟩, { f with
        workspaces := f.workspaces.set i wsp', soloPresentation := none }) := by
  obtain ⟨wsp, hwsp, hid⟩ := tileMembership_visible hat
  obtain ⟨hi, -⟩ := List.getElem?_eq_some_iff.1 hwsp
  obtain ⟨window, empty, wsp', hwindow, hdetached, hexec⟩ :=
    Workspace.detachFocused_at (hsound wsp (List.mem_of_getElem? hwsp)) hid
  have hdetach := exec_onActive (m := Workspace.detachFocused)
    (f := { f with
      workspaces := f.workspaces.set i { wsp with focused := id }
      soloPresentation := none
      activeWorkspace := i }) (List.getElem?_set_self hi)
  rw [hexec] at hdetach
  have hephemeral : wsp'.ephemeral = wsp.ephemeral := by rw [hdetached.only]
  refine ⟨{ wsp' with
    focused := if empty then 0 else wsp'.focused
    desktop := (wsp'.desktop.reconcileNear wsp'.layout.leafIds none).1
    hiddenTiles := wsp'.hiddenTiles ++ [⟨window, wsp.desktop.rectOf id⟩] },
    ⟨wsp, hwsp, hephemeral⟩, .set hwsp ?_ nofun fun _ => ?_, ?_⟩
  · refine ⟨?_, hdetached.tidy, by rw [hdetached.only], hephemeral⟩
    have hhidden : (wsp'.tiles ++ [window]).Perm wsp.tiles :=
      (List.perm_append_singleton window _).trans hdetached.tiles.symm
    rw [List.append_nil, List.append_nil, Workspace.tiles, List.map_append, ← List.append_assoc]
    exact hhidden
  · intro hne
    cases empty with
    | true => exact absurd (congrArg SplitTree.leaves (hdetached.gone rfl)) hne
    | false => exact hdetached.aimed hne
  · cases empty <;>
    · simp only [hideWindow, Effect.exec_bind, Effect.exec_get, hat, Effect.exec_modify,
        updateWorkspace, reconcileWorkspace, hwsp, detachFocused, Option.isSome_none,
        Bool.false_eq_true, if_false, if_true, hdetach, List.getElem?_set_self, hi, List.set_set]
      rfl

theorem hideWindow_refused (hat : ∀ i, f.tileMembership id ≠ some ⟨i, .visible⟩) :
    (hideWindow id).exec f = (.error .refused, f) := by
  simp only [hideWindow, Effect.exec_bind, Effect.exec_get]
  rfl

theorem unhideWindow_refused (hat : ∀ i, f.tileMembership id ≠ some ⟨i, .hidden⟩) :
    (unhideWindow id).exec f = (.error .refused, f) := by
  simp only [unhideWindow, Effect.exec_bind, Effect.exec_get]
  rfl

/-! ### Out of the hidden tiles -/

/-- A hidden tile is found at its position. -/
theorem hiddenPosition_spec (h : f.hiddenWorkspaceIndexOfWindow id = some i) :
    ∃ wsp position hidden, f.workspaces[i]? = some wsp ∧
      f.hiddenPosition i id = some position ∧ wsp.hiddenTiles[position]? = some hidden ∧
      hidden.window.id = id := by
  obtain ⟨wsp, hwsp, hid⟩ := hidden_spec h
  obtain ⟨tile, htile, rfl⟩ := List.mem_map.1 hid
  have hsome : (wsp.hiddenTiles.findIdx? fun other => other.window.id == tile.window.id).isSome :=
    List.findIdx?_isSome.trans (List.any_eq_true.2 ⟨tile, htile, beq_self_eq_true _⟩)
  obtain ⟨position, hposition⟩ := Option.isSome_iff_exists.1 hsome
  obtain ⟨hlt, hfound, -⟩ := List.findIdx?_eq_some_iff_getElem.1 hposition
  refine ⟨wsp, position, _, hwsp, ?_, List.getElem?_eq_getElem hlt, beq_iff_eq.1 hfound⟩
  rw [hiddenPosition, hwsp]
  exact hposition

theorem exec_removeHidden {wsp : Workspace C} {position : Nat} {hidden : HiddenTile C}
    (hwsp : f.workspaces[i]? = some wsp) (hhidden : wsp.hiddenTiles[position]? = some hidden) :
    (removeHidden i position).exec f = (.ok hidden, { f with
      workspaces := f.workspaces.set i
        { wsp with hiddenTiles := wsp.hiddenTiles.eraseIdx position } }) := by
  simp only [removeHidden, Effect.exec_bind, Effect.exec_get, hwsp, Option.bind_some, hhidden,
    Effect.exec_modify, updateWorkspace, Effect.exec_pure]

theorem exec_insertLeaf {wsp : Workspace C} {window : Window C}
    (hnone : f.tileMembership window.id = none) (hwsp : f.workspaces[i]? = some wsp)
    (hproject : window.project = wsp.project) :
    (insertLeafIntoWorkspace i window).exec f = (.ok ⟨⟩, { f with
      workspaces := f.workspaces.set i (wsp.insertLeaf window) }) := by
  simp only [insertLeafIntoWorkspace, Effect.exec_bind, Effect.exec_get, hnone, hwsp, hproject,
    Option.isSome_none, Bool.false_eq_true, if_false, Effect.exec_modify, updateWorkspace, ne_eq,
    not_true_eq_false]

/-- A leaf is refused, or stands in its workspace. -/
theorem insertLeaf_cases (i : Nat) (window : Window C) :
    (insertLeafIntoWorkspace i window).exec f = (.error .refused, f) ∨
      ∃ wsp, f.workspaces[i]? = some wsp ∧ window.project = wsp.project ∧
        (insertLeafIntoWorkspace i window).exec f = (.ok ⟨⟩, { f with
          workspaces := f.workspaces.set i (wsp.insertLeaf window) }) := by
  cases hmember : f.tileMembership window.id with
  | some _ =>
      left
      simp only [insertLeafIntoWorkspace, Effect.exec_bind, Effect.exec_get, hmember,
        Option.isSome_some, if_true]
      rfl
  | none =>
  cases hwsp : f.workspaces[i]? with
  | none =>
      left
      simp only [insertLeafIntoWorkspace, Effect.exec_bind, Effect.exec_get, hmember, hwsp,
        Option.isSome_none, Bool.false_eq_true, if_false]
      rfl
  | some wsp =>
      by_cases hproject : window.project = wsp.project
      · exact .inr ⟨wsp, rfl, hproject, exec_insertLeaf hmember hwsp hproject⟩
      · left
        simp only [insertLeafIntoWorkspace, Effect.exec_bind, Effect.exec_get, hmember, hwsp,
          Option.isSome_none, Bool.false_eq_true, if_false]
        rw [if_pos hproject]
        rfl

/-- A tile whose id nothing else has is gone once it is taken out. -/
theorem absent_of_retired {ws : List (Workspace C)} {window : Window C} {g : Frame C}
    (h : Trades Workspace.tiles ws g.workspaces [] [window])
    (hunique : ((total Workspace.tiles ws).map Window.id).count window.id ≤ 1) :
    g.tileMembership window.id = none := by
  rw [tileMembership_eq_none, ← List.count_eq_zero]
  have hcount := (List.Perm.map Window.id h).count_eq window.id
  rw [List.map_append, List.count_append, List.append_nil, List.map_singleton,
    List.count_singleton_self] at hcount
  show ((total Workspace.tiles g.workspaces).map Window.id).count window.id = 0
  omega

/-- Taking a hidden tile out. -/
theorem retireHidden {wsp : Workspace C} {position : Nat} {hidden : HiddenTile C}
    (hsound : wsp.Sound) (hhidden : wsp.hiddenTiles[position]? = some hidden) :
    wsp.Becomes { wsp with hiddenTiles := wsp.hiddenTiles.eraseIdx position } []
      [hidden.window] := by
  obtain ⟨hlt, rfl⟩ := List.getElem?_eq_some_iff.1 hhidden
  have hperm := (List.getElem_cons_eraseIdx_perm hlt).map HiddenTile.window
  refine ⟨?_, hsound.tidy, rfl, rfl⟩
  rw [Workspace.tiles, Workspace.tiles, List.append_nil, List.append_assoc]
  exact ((List.perm_append_singleton _ _).trans hperm).append_left _

/-- Putting a tile in, wherever the plane places it. -/
theorem insertLeaf_becomes {wsp : Workspace C} (window : Window C) (desktop : DesktopState)
    (hsound : wsp.Sound) :
    wsp.Becomes { wsp.insertLeaf window with desktop } [window] [] ∧
      ({ wsp.insertLeaf window with desktop } : Workspace C).Aimed := by
  have hput := Workspace.insertLeaf_spec window hsound.tidy
  have hbecomes := hput.becomes
  exact ⟨⟨hbecomes.tiles, hbecomes.tidy, hbecomes.project, hbecomes.ephemeral⟩, hput.aimed⟩

/-- Unhiding a tile writes the workspace it is in, and goes there. -/
theorem unhideWindow_spec (hsound : AllSound f.workspaces) (hunique : f.ids.count id ≤ 1)
    (hat : f.tileMembership id = some ⟨i, .hidden⟩) :
    ∃ wsp', Rearranged f.workspaces (f.workspaces.set i wsp') [] [] ∧
      (unhideWindow id).exec f = (.ok ⟨⟩,
        { f with workspaces := f.workspaces.set i wsp', soloPresentation := none }
          |>.setActiveWorkspace i) := by
  obtain ⟨wsp, position, hidden, hwsp, hposition, hhidden, rfl⟩ :=
    hiddenPosition_spec (tileMembership_hidden hat)
  obtain ⟨hi, -⟩ := List.getElem?_eq_some_iff.1 hwsp
  have hwspSound := hsound wsp (List.mem_of_getElem? hwsp)
  have htile : hidden.window ∈ wsp.tiles :=
    List.mem_append_right _ (List.mem_map_of_mem (List.mem_of_getElem? hhidden))
  have hproject := hwspSound.home _ htile
  have hretire := retireHidden hwspSound hhidden
  have hout := Rearranged.set hwsp hretire nofun fun haimed => haimed
  -- The workspace without the tile, and with it as a leaf.
  generalize hrest : { wsp with hiddenTiles := wsp.hiddenTiles.eraseIdx position } = rest
    at hretire hout
  have hrestAt : (f.workspaces.set i rest)[i]? = some rest := List.getElem?_set_self hi
  have habsent : ({ f with
      workspaces := f.workspaces.set i rest, soloPresentation := none } : Frame C).tileMembership
        hidden.window.id = none := absent_of_retired hout.trades hunique
  have hrestProject : hidden.window.project = rest.project := by
    rw [hproject, hretire.project]
  let desktop := (rest.desktop.reconcileNear (rest.insertLeaf hidden.window).layout.leafIds
    (some hidden.window.id)).1
  let desktop' := hidden.previousPlacement.elim desktop fun placement =>
    (desktop.restorePlacementIfFree hidden.window.id placement.1 placement.2).1
  obtain ⟨hbecomes, haimed⟩ := insertLeaf_becomes hidden.window desktop'
    (hretire.sound hwspSound nofun)
  have hin := Rearranged.set hrestAt hbecomes
    (fun tile htile => by rw [List.mem_singleton.1 htile, hrestProject]) fun _ => haimed
  have hboth := (hout.trans hin).cancel
  rw [List.set_set] at hboth
  refine ⟨_, hboth, ?_⟩
  have hremove := exec_removeHidden hwsp hhidden
  rw [hrest] at hremove
  have hinsert := exec_insertLeaf habsent hrestAt hrestProject
  cases hprevious : hidden.previousPlacement <;>
  · simp only [desktop', desktop, unhideWindow, Effect.exec_bind, Effect.exec_get, hat, hposition,
      hremove, Effect.exec_modify, hinsert, reconcileWorkspace, updateWorkspace,
      List.getElem?_set_self, hi, List.set_set, hprevious]
    rfl

/-! ### From one workspace to another -/

/-- Which workspaces are ephemeral. -/
def flags (f : Frame C) : List Bool := f.workspaces.map Workspace.ephemeral

/-- A written workspace stays as durable as it was. -/
theorem map_ephemeral_set {ws : List (Workspace C)} {wsp wsp' : Workspace C}
    (hat : ws[i]? = some wsp) (h : wsp'.ephemeral = wsp.ephemeral) :
    (ws.set i wsp').map Workspace.ephemeral = ws.map Workspace.ephemeral := by
  apply List.ext_getElem?
  intro k
  rw [List.getElem?_map, List.getElem?_map, List.getElem?_set]
  split
  · next hik =>
      subst hik
      obtain ⟨hi, -⟩ := List.getElem?_eq_some_iff.1 hat
      rw [if_pos hi, hat, Option.map_some, Option.map_some, h]
  · rfl

/-- A move of a visible tile that nothing stands against. -/
structure Moves (f : Frame C) (id : WindowId) (target source : Nat)
    (sourceWsp targetWsp : Workspace C) : Prop where
  visible : f.visibleWorkspaceIndexOfWindow id = some source
  departs : f.workspaces[source]? = some sourceWsp
  arrives : f.workspaces[target]? = some targetWsp
  elsewhere : source ≠ target
  project : sourceWsp.project = targetWsp.project

/-- What a successful move of a visible tile does. -/
structure Moved (f : Frame C) (source target : Nat) (sourceWsp : Workspace C) (follow : Bool)
    (f' : Frame C) : Prop where
  rearranged : Rearranged f.workspaces f'.workspaces [] []
  solo : f'.soloPresentation = none
  strip :
    (sourceWsp.tiles.length ≠ 1 ∧ f'.flags = f.flags ∧
      f'.activeWorkspace = if follow then target else f.activeWorkspace) ∨
    (sourceWsp.tiles.length = 1 ∧ f'.flags = f.flags.eraseIdx source ∧
      f'.activeWorkspace = if source < target then target - 1 else target)

/-- Where a workspace is found once another has gone. -/
theorem getElem?_shifted {α : Type} {l : List α} {source target : Nat} {a : α}
    (hat : l[target]? = some a) (hne : source ≠ target) :
    (l.eraseIdx source)[if source < target then target - 1 else target]? = some a := by
  rw [List.getElem?_eraseIdx]
  by_cases hlt : source < target
  · rw [if_pos hlt, if_neg (by omega), show target - 1 + 1 = target by omega]
    exact hat
  · rw [if_neg hlt, if_pos (by omega)]
    exact hat

/-- A move is refused, or it takes the tile from one workspace to
another of the same project. The workspace that has nothing left goes. -/
theorem moveAttached_cases (hsound : AllSound f.workspaces) (target : Nat) (follow : Bool)
    (hunique : ∀ source sourceWsp targetWsp, f.Moves id target source sourceWsp targetWsp →
      f.ids.count id ≤ 1) :
    (moveAttachedToWorkspace id target follow).exec f = (.error .refused, f) ∨
      ∃ source sourceWsp targetWsp f', f.Moves id target source sourceWsp targetWsp ∧
        Moved f source target sourceWsp follow f' ∧
        (moveAttachedToWorkspace id target follow).exec f = (.ok ⟨⟩, f') := by
  cases hvisible : f.visibleWorkspaceIndexOfWindow id with
  | none =>
      left
      simp only [moveAttachedToWorkspace, Effect.exec_bind, Effect.exec_get, hvisible]
      rfl
  | some source =>
  obtain ⟨wsp, hwsp, hid⟩ := visible_spec hvisible
  cases htarget : f.workspaces[target]? with
  | none =>
      left
      simp only [moveAttachedToWorkspace, Effect.exec_bind, Effect.exec_get, hvisible, hwsp,
        htarget]
      rfl
  | some targetWsp =>
  by_cases hrefused : source = target ∨ wsp.project ≠ targetWsp.project
  · left
    simp only [moveAttachedToWorkspace, Effect.exec_bind, Effect.exec_get, hvisible, hwsp,
      htarget, hrefused, if_true]
    rfl
  obtain ⟨hne, hproject⟩ := not_or.1 hrefused
  have hproject : wsp.project = targetWsp.project := not_not.1 hproject
  have hmoves : f.Moves id target source wsp targetWsp :=
    ⟨hvisible, hwsp, htarget, hne, hproject⟩
  have hunique := hunique source wsp targetWsp hmoves
  obtain ⟨hs, -⟩ := List.getElem?_eq_some_iff.1 hwsp
  obtain ⟨ht, -⟩ := List.getElem?_eq_some_iff.1 htarget
  have hwspSound := hsound wsp (List.mem_of_getElem? hwsp)
  have htargetSound := hsound targetWsp (List.mem_of_getElem? htarget)
  obtain ⟨window, empty, wsp', hwindow, hdetached, hexec⟩ :=
    Workspace.detachFocused_at hwspSound hid
  have hdetach := exec_onActive (m := Workspace.detachFocused)
    (f := { f with
      workspaces := f.workspaces.set source { wsp with focused := id }
      soloPresentation := none
      activeWorkspace := source }) (List.getElem?_set_self hs)
  rw [hexec] at hdetach
  have hin (desktop : DesktopState) := insertLeaf_becomes window desktop htargetSound
  have hhome : ∀ tile ∈ [window], tile.project = targetWsp.project := by
    intro tile htile
    rw [List.mem_singleton.1 htile, ← hproject]
    exact hwspSound.home window (hdetached.tiles.mem_iff.2 List.mem_cons_self)
  have hwindowProject := hhome window (List.mem_singleton_self window)
  rw [← hwindow] at hunique
  have hlength := hdetached.length
  cases hremove : empty && wsp.hiddenTiles.isEmpty with
  | false =>
      -- The source keeps other tiles.
      have hkept : wsp.Becomes { wsp' with
          desktop := (wsp'.desktop.reconcileNear wsp'.layout.leafIds none).1 } [] [window] :=
        ⟨hdetached.becomes.tiles, hdetached.tidy, hdetached.becomes.project,
          hdetached.becomes.ephemeral⟩
      generalize hsource : ({ wsp' with
        desktop := (wsp'.desktop.reconcileNear wsp'.layout.leafIds none).1 } : Workspace C) = left
        at hkept
      have haimed : left.Aimed := by
        rw [← hsource]
        exact hdetached.aimed
      have hout := Rearranged.set hwsp hkept nofun fun _ => haimed
      have htargetAt : (f.workspaces.set source left)[target]? = some targetWsp := by
        rw [List.getElem?_set_ne hne]
        exact htarget
      let desktop := (targetWsp.desktop.reconcileNear
        (targetWsp.insertLeaf window).layout.leafIds none).1
      have hboth := (hout.trans (Rearranged.set htargetAt (hin desktop).1 hhome
        fun _ => (hin desktop).2)).cancel
      have hinsert := exec_insertLeaf (f := { f with
          workspaces := f.workspaces.set source left
          soloPresentation := none
          activeWorkspace := source })
        (absent_of_retired hout.trades hunique) htargetAt hwindowProject
      refine .inr ⟨source, wsp, targetWsp, { f with
        workspaces := (f.workspaces.set source left).set target
          { targetWsp.insertLeaf window with desktop }
        soloPresentation := none
        activeWorkspace := if follow then target else f.activeWorkspace
        previousWorkspace := if follow then some wsp.autoName else f.previousWorkspace },
        hmoves, ⟨hboth, rfl, .inl ⟨?_, ?_, rfl⟩⟩, ?_⟩
      · rw [Ne, hlength, hremove]
        exact Bool.false_ne_true
      · exact (map_ephemeral_set htargetAt (hin desktop).1.ephemeral).trans
          (map_ephemeral_set hwsp hkept.ephemeral)
      · cases follow <;>
        · simp only [moveAttachedToWorkspace, Effect.exec_bind, Effect.exec_get, hvisible, hwsp,
            htarget, hrefused, if_false, Effect.exec_modify, updateWorkspace, detachFocused,
            Option.isSome_none, Bool.false_eq_true, hdetach, hremove, Bool.false_and,
            reconcileWorkspace, List.getElem?_set_self, List.length_set, hs, List.set_set, hsource,
            hinsert, ht, Bool.or_false, if_true, Bool.true_or]
          rfl
  | true =>
      -- The source is left with nothing, and goes.
      have hone := hlength.2 hremove
      have hsole : wsp.tiles = [window] := by
        have hperm := hdetached.tiles
        have hnil : wsp'.tiles = [] := by
          have hsum := hperm.length_eq
          rw [hone, List.length_cons] at hsum
          exact List.length_eq_zero_iff.1 (by omega)
        rw [hnil] at hperm
        exact List.perm_singleton.1 hperm
      have hout := Rearranged.erase hwsp
      rw [hsole] at hout
      have htargetAt := getElem?_shifted htarget hne
      let desktop := (targetWsp.desktop.reconcileNear
        (targetWsp.insertLeaf window).layout.leafIds none).1
      generalize hshift : (if source < target then target - 1 else target) = target' at htargetAt
      have hboth := (hout.trans (Rearranged.set htargetAt (hin desktop).1 hhome
        fun _ => (hin desktop).2)).cancel
      have hinsert := exec_insertLeaf (f := { f with
          workspaces := f.workspaces.eraseIdx source
          soloPresentation := none
          activeWorkspace := source })
        (absent_of_retired hout.trades hunique) htargetAt hwindowProject
      obtain ⟨ht', -⟩ := List.getElem?_eq_some_iff.1 htargetAt
      refine .inr ⟨source, wsp, targetWsp, { f with
        workspaces := (f.workspaces.eraseIdx source).set target'
          { targetWsp.insertLeaf window with desktop }
        soloPresentation := none
        activeWorkspace := target'
        previousWorkspace := some wsp.autoName },
        hmoves, ⟨hboth, rfl, .inr ⟨hone, ?_, hshift.symm⟩⟩, ?_⟩
      · rw [flags, map_ephemeral_set htargetAt (hin desktop).1.ephemeral, flags, List.eraseIdx_map]
      · simp only [moveAttachedToWorkspace, Effect.exec_bind, Effect.exec_get, hvisible, hwsp,
          htarget, hrefused, if_false, Effect.exec_modify, updateWorkspace, detachFocused,
          Option.isSome_none, Bool.false_eq_true, hdetach, hremove, Bool.true_and,
          decide_eq_true_eq, hshift, if_true, List.eraseIdx_set_eq, List.set_set, hinsert,
          reconcileWorkspace, List.getElem?_set_self, ht', Bool.or_true]
        rfl

/-- Sending a hidden tile is refused, or it takes the tile from one
workspace to a leaf of another, or of the same, and goes there. What
happens to the active workspace, if that is not the target, is that the
tile may be gone from it. -/
theorem sendHidden_cases {source : Nat} (hsound : AllSound f.workspaces)
    (hunique : f.ids.count id ≤ 1) (hat : f.tileMembership id = some ⟨source, .hidden⟩)
    (target : Nat) (follow : Bool) :
    (sendTileToWorkspace id target follow).exec f = (.error .refused, f) ∨
      ∃ ws', Rearranged f.workspaces ws' [] [] ∧
        (∀ wsp', ws'[f.activeWorkspace]? = some wsp' → f.activeWorkspace ≠ target →
          ∃ wsp kept, f.active = some wsp ∧ wsp'.ephemeral = wsp.ephemeral ∧
            wsp.tiles.Perm (kept ++ wsp'.tiles) ∧ ∀ tile ∈ kept, tile.id = id) ∧
        (sendTileToWorkspace id target follow).exec f = (.ok ⟨⟩,
          { f with workspaces := ws', soloPresentation := none }
            |>.setActiveWorkspace (if follow then target else f.activeWorkspace)) := by
  obtain ⟨wsp, position, hidden, hwsp, hposition, hhidden, rfl⟩ :=
    hiddenPosition_spec (tileMembership_hidden hat)
  cases htarget : f.workspaces[target]? with
  | none =>
      left
      simp only [sendTileToWorkspace, Effect.exec_bind, Effect.exec_get, hat, hwsp, htarget]
      rfl
  | some targetWsp =>
  by_cases hrefused : targetWsp.project ≠ wsp.project
  · left
    simp only [sendTileToWorkspace, Effect.exec_bind, Effect.exec_get, hat, hwsp, htarget]
    rw [if_pos hrefused]
    rfl
  have hproject : targetWsp.project = wsp.project := not_not.1 hrefused
  obtain ⟨hs, -⟩ := List.getElem?_eq_some_iff.1 hwsp
  obtain ⟨ht, -⟩ := List.getElem?_eq_some_iff.1 htarget
  have hwspSound := hsound wsp (List.mem_of_getElem? hwsp)
  have htile : hidden.window ∈ wsp.tiles :=
    List.mem_append_right _ (List.mem_map_of_mem (List.mem_of_getElem? hhidden))
  have hretire := retireHidden hwspSound hhidden
  have hout := Rearranged.set hwsp hretire nofun fun haimed => haimed
  have hremove := exec_removeHidden hwsp hhidden
  generalize hrest : { wsp with hiddenTiles := wsp.hiddenTiles.eraseIdx position } = rest
    at hretire hout hremove
  -- The target as it is once the tile is out: it may be the source.
  obtain ⟨middle, hmiddle, hmiddleProject⟩ : ∃ middle,
      (f.workspaces.set source rest)[target]? = some middle ∧
        middle.project = targetWsp.project := by
    by_cases hsame : source = target
    · subst hsame
      rw [hwsp] at htarget
      cases htarget
      exact ⟨rest, List.getElem?_set_self hs, hretire.project⟩
    · exact ⟨targetWsp, by rw [List.getElem?_set_ne hsame]; exact htarget, rfl⟩
  have hmiddleSound : middle.Sound := (hout.sound hsound) middle (List.mem_of_getElem? hmiddle)
  have hhome : ∀ tile ∈ [hidden.window], tile.project = middle.project := by
    intro tile htileMem
    rw [List.mem_singleton.1 htileMem, hmiddleProject, hproject]
    exact hwspSound.home _ htile
  let desktop := (middle.desktop.reconcileNear (middle.insertLeaf hidden.window).layout.leafIds
    (some hidden.window.id)).1
  obtain ⟨hbecomes, haimed⟩ := insertLeaf_becomes hidden.window desktop hmiddleSound
  have hboth := (hout.trans (Rearranged.set hmiddle hbecomes hhome fun _ => haimed)).cancel
  have hinsert := exec_insertLeaf (f := { f with
      workspaces := f.workspaces.set source rest, soloPresentation := none })
    (absent_of_retired hout.trades hunique) hmiddle (hhome _ (List.mem_singleton_self _))
  refine .inr ⟨_, hboth, ?_, ?_⟩
  · intro wsp' hwsp' hactive
    rw [List.getElem?_set_ne (Ne.symm hactive)] at hwsp'
    by_cases hsource : source = f.activeWorkspace
    · rw [← hsource, List.getElem?_set_self hs] at hwsp'
      cases hwsp'
      refine ⟨wsp, [hidden.window], ?_, hretire.ephemeral, ?_, ?_⟩
      · rw [active, ← hsource]
        exact hwsp
      · have htiles := hretire.tiles
        rw [List.append_nil] at htiles
        exact htiles.symm.trans (List.perm_append_singleton _ _)
      · intro tile htileMem
        rw [List.mem_singleton.1 htileMem]
    · rw [List.getElem?_set_ne hsource] at hwsp'
      exact ⟨wsp', [], hwsp', rfl, List.Perm.refl _, nofun⟩
  · simp only [sendTileToWorkspace, Effect.exec_bind, Effect.exec_get, hat, hwsp, htarget,
      hrefused, if_false, hposition, hremove, Effect.exec_modify, hinsert, reconcileWorkspace,
      updateWorkspace, List.getElem?_set_self, List.length_set, ht, List.set_set]
    rfl

/-! ### Switching -/

theorem isEphemeral_iff :
    f.isEphemeral i = true ↔ ∃ wsp, f.workspaces[i]? = some wsp ∧ wsp.ephemeral = true := by
  rw [isEphemeral]
  cases f.workspaces[i]? with
  | none => exact ⟨nofun, fun ⟨_, h, _⟩ => by cases h⟩
  | some wsp => exact ⟨fun h => ⟨wsp, rfl, h⟩, fun ⟨_, h, he⟩ => by cases h; exact he⟩

theorem lt_length_of_isEphemeral (h : f.isEphemeral i = true) : i < f.workspaces.length := by
  obtain ⟨wsp, hat, -⟩ := isEphemeral_iff.1 h
  exact (List.getElem?_eq_some_iff.1 hat).1

/-- A tile to send is where it should go or nowhere, or visible, or
hidden. -/
theorem sendTile_cases (id : WindowId) (target : Nat) (follow : Bool) :
    (∃ outcome, (sendTileToWorkspace id target follow).exec f = (outcome, f) ∧
        outcome ≠ .error .panicked) ∨
      (sendTileToWorkspace id target follow).exec f =
        (moveAttachedToWorkspace id target follow).exec f ∨
      ∃ source, f.tileMembership id = some ⟨source, .hidden⟩ := by
  cases hat : f.tileMembership id with
  | none =>
      left
      refine ⟨.error .refused, ?_, nofun⟩
      simp only [sendTileToWorkspace, Effect.exec_bind, Effect.exec_get, hat]
      rfl
  | some membership =>
  obtain ⟨workspace, visibility⟩ := membership
  cases visibility with
  | hidden => exact .inr (.inr ⟨workspace, rfl⟩)
  | visible =>
      by_cases hsame : workspace = target
      · left
        refine ⟨.ok ⟨⟩, ?_, nofun⟩
        simp only [sendTileToWorkspace, Effect.exec_bind, Effect.exec_get, hat, hsame, if_true]
        rfl
      · right
        left
        simp only [sendTileToWorkspace, Effect.exec_bind, Effect.exec_get, hat, hsame, if_false]

/-- Going back and forth stays, or switches. -/
theorem workspaceBackAndForth_cases (f : Frame C) :
    f.workspaceBackAndForth.1 = f ∨
      ∃ target, f.workspaceBackAndForth.1 = f.setActiveWorkspace target := by
  rw [workspaceBackAndForth]
  split
  · exact .inl rfl
  · next target _ =>
      split
      · exact .inl rfl
      · exact .inr ⟨target, rfl⟩

/-- A switch tears the ephemeral workspace down that it leaves. -/
theorem setActiveWorkspace_spec {idx : Nat} (hidx : idx < f.workspaces.length) :
    (f.setActiveWorkspace idx).soloPresentation = none ∧
      ((f.activeWorkspace ≠ idx ∧ f.activeIsEphemeral = true ∧
          (f.setActiveWorkspace idx).workspaces = f.workspaces.eraseIdx f.activeWorkspace ∧
          (f.setActiveWorkspace idx).activeWorkspace =
            if f.activeWorkspace < idx then idx - 1 else idx) ∨
        (¬ (f.activeWorkspace ≠ idx ∧ f.activeIsEphemeral = true) ∧
          (f.setActiveWorkspace idx).workspaces = f.workspaces ∧
          (f.setActiveWorkspace idx).activeWorkspace = idx)) := by
  rw [setActiveWorkspace, if_neg (Nat.not_le.2 hidx)]
  show (f.leaveFor idx).soloPresentation = none ∧
    ((f.activeWorkspace ≠ idx ∧ f.activeIsEphemeral = true ∧
        (f.leaveFor idx).workspaces = f.workspaces.eraseIdx f.activeWorkspace ∧
        (f.leaveFor idx).activeWorkspace = if f.activeWorkspace < idx then idx - 1 else idx) ∨
      (¬ (f.activeWorkspace ≠ idx ∧ f.activeIsEphemeral = true) ∧
        (f.leaveFor idx).workspaces = f.workspaces ∧ (f.leaveFor idx).activeWorkspace = idx))
  by_cases htorn : f.activeWorkspace ≠ idx ∧ f.isEphemeral f.activeWorkspace = true
  · rw [leaveFor, if_pos htorn]
    refine ⟨rfl, .inl ⟨htorn.1, htorn.2, rfl, ?_⟩⟩
    -- What is left has a workspace at the shifted index.
    have hcur := lt_length_of_isEphemeral htorn.2
    have hlength := List.length_eraseIdx_of_lt hcur
    have hne := htorn.1
    show min (if f.activeWorkspace < idx then idx - 1 else idx)
      ((f.workspaces.eraseIdx f.activeWorkspace).length - 1) = _
    rw [hlength]
    by_cases hlt : f.activeWorkspace < idx
    · rw [if_pos hlt]
      omega
    · rw [if_neg hlt]
      omega
  · rw [leaveFor, if_neg htorn]
    exact ⟨rfl, .inr ⟨htorn, rfl, rfl⟩⟩

end Frame

end Yaldabaoth
