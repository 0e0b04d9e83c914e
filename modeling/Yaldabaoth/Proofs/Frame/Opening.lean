import Yaldabaoth.Proofs.Frame.Operations

/-!
# `Yaldabaoth.Proofs.Frame.Opening`: opening and closing tiles

What the operations do that bring a tile in or let one go. A tile is
opened in the active workspace, in a workspace of its project or in a
workspace of its own; it goes from the active layout, or out of the
hidden tiles when it is presented alone.
-/

set_option autoImplicit false

namespace Yaldabaoth

open SplitTree Holdings

variable {C : Type}

namespace Frame

open Workspace (Rearranged AllSound AllAimed)

variable {f : Frame C} {id : WindowId} {i : Nat}

/-- A workspace that is written with itself. -/
theorem set_same {ws : List (Workspace C)} {wsp : Workspace C} (h : ws[i]? = some wsp) :
    ws.set i wsp = ws := by
  obtain ⟨hi, rfl⟩ := List.getElem?_eq_some_iff.1 h
  exact List.set_getElem_self hi

/-! ### Opening -/

/-- The workspace that a new tile opens. -/
theorem freshWorkspace_spec (f : Frame C) (content : C) (project : ProjectId) :
    (f.freshWorkspace content project).tiles = [⟨f.nextWindowId, project, content⟩] ∧
      (f.freshWorkspace content project).Sound ∧ (f.freshWorkspace content project).Aimed := by
  refine ⟨rfl, ⟨.inr trivial, ?_⟩, fun _ => List.mem_singleton_self _⟩
  intro tile htile
  rw [List.mem_singleton.1 htile]
  rfl

theorem pushInitialWorkspace_spec (f : Frame C) (content : C) (project : ProjectId) :
    Rearranged f.workspaces (f.pushInitialWorkspace content project).2.workspaces
      [⟨f.nextWindowId, project, content⟩] [] := by
  obtain ⟨htiles, hsound, haimed⟩ := f.freshWorkspace_spec content project
  rw [← htiles]
  exact .append _ hsound haimed

theorem roomForEphemeral_true (h : f.activeIsEphemeral = true) :
    f.roomForEphemeral = { f with workspaces := f.workspaces.eraseIdx f.activeWorkspace } := by
  rw [roomForEphemeral, if_pos h]

theorem roomForEphemeral_false (h : f.activeIsEphemeral = false) :
    f.roomForEphemeral = { f with ephemeralOrigin := f.focusedWindowId } := by
  rw [roomForEphemeral, h]
  rfl

/-- The workspace that a tile opens for a session alone. An ephemeral
workspace that is active makes room for it. -/
theorem openEphemeralWorkspaceIn_spec (f : Frame C) (content : C) (project : ProjectId) :
    ∃ retired, Rearranged f.workspaces (f.openEphemeralWorkspaceIn content project).2.workspaces
        [⟨f.nextWindowId, project, content⟩] retired ∧
      (retired = [] ∨ ∃ wsp, f.active = some wsp ∧ wsp.ephemeral = true ∧ retired = wsp.tiles) := by
  have hfresh (g : Frame C) : Rearranged g.workspaces
      (g.workspaces ++ [{ g.freshWorkspace content project with ephemeral := true }])
      [⟨g.nextWindowId, project, content⟩] [] := by
    obtain ⟨htiles, hsound, haimed⟩ := g.freshWorkspace_spec content project
    rw [← htiles]
    exact .append g.workspaces ⟨hsound.tidy, hsound.home⟩ haimed
  cases hephemeral : f.activeIsEphemeral with
  | false =>
      have hroom := roomForEphemeral_false hephemeral
      refine ⟨[], ?_, .inl rfl⟩
      simp only [openEphemeralWorkspaceIn, hroom]
      exact hfresh { f with ephemeralOrigin := f.focusedWindowId }
  | true =>
      have hroom := roomForEphemeral_true hephemeral
      obtain ⟨wsp, hwsp, hwspEphemeral⟩ := isEphemeral_iff.1 hephemeral
      refine ⟨wsp.tiles, ?_, .inr ⟨wsp, hwsp, hwspEphemeral, rfl⟩⟩
      simp only [openEphemeralWorkspaceIn, hroom]
      have hboth := (Rearranged.erase hwsp).trans
        (hfresh { f with workspaces := f.workspaces.eraseIdx f.activeWorkspace })
      rw [List.append_nil] at hboth
      exact hboth

theorem workspaceFor_spec {project : ProjectId} {target : Nat}
    (h : f.workspaceFor project = some target) :
    ∃ wsp, f.workspaces[target]? = some wsp ∧ wsp.ephemeral = false ∧ wsp.project = project := by
  have hfits (wsp : Workspace C) (hfit : (!wsp.ephemeral && wsp.project == project) = true) :
      wsp.ephemeral = false ∧ wsp.project = project := by
    simpa using hfit
  rcases Option.or_eq_some_iff.1 h with hfirst | ⟨-, hsecond⟩
  · obtain ⟨-, hany⟩ := Option.filter_eq_some_iff.1 hfirst
    cases hat : f.workspaces[target]? with
    | none => rw [hat] at hany; cases hany
    | some wsp => rw [hat] at hany; exact ⟨wsp, rfl, hfits wsp hany⟩
  · obtain ⟨hi, hfound, -⟩ := List.findIdx?_eq_some_iff_getElem.1 hsecond
    exact ⟨_, List.getElem?_eq_getElem hi, hfits _ hfound⟩

/-- A tile is opened in a workspace of its own, or beside the tiles of a
workspace of its project, unless its id is taken there. -/
theorem openTileInProject_cases (hsound : AllSound f.workspaces) (content : C)
    (project : ProjectId) :
    (f.workspaceFor project = none ∧ (openTileInProject content project).exec f =
        (.ok f.nextWindowId, (f.pushInitialWorkspace content project).2)) ∨
      (∃ f', (openTileInProject content project).exec f = (.error .panicked, f')) ∨
      ∃ target wsp wsp', f.workspaces[target]? = some wsp ∧ wsp.ephemeral = false ∧
        wsp'.ephemeral = wsp.ephemeral ∧
        Rearranged f.workspaces (f.workspaces.set target wsp')
          [⟨f.nextWindowId, project, content⟩] [] ∧
        (openTileInProject content project).exec f = (.ok f.nextWindowId,
          { f with
            nextWindowId := f.nextWindowId + 1
            workspaces := f.workspaces.set target wsp'
            soloPresentation := none }.setActiveWorkspace target) := by
  cases htarget : f.workspaceFor project with
  | none =>
      left
      refine ⟨rfl, ?_⟩
      simp only [openTileInProject, Effect.exec_bind, Effect.exec_get, htarget, Effect.exec_set,
        Effect.exec_pure]
      rfl
  | some target =>
      right
      obtain ⟨wsp, hwsp, hdurable, hproject⟩ := workspaceFor_spec htarget
      obtain ⟨hi, -⟩ := List.getElem?_eq_some_iff.1 hwsp
      cases hmember : f.tileMembership f.nextWindowId with
      | some _ =>
          left
          refine ⟨{ f with nextWindowId := f.nextWindowId + 1, soloPresentation := none }, ?_⟩
          have htaken : ({ f with nextWindowId := f.nextWindowId + 1, soloPresentation := none } :
              Frame C).tileMembership f.nextWindowId = f.tileMembership f.nextWindowId := rfl
          simp only [openTileInProject, Effect.exec_bind, Effect.exec_get, htarget,
            Effect.exec_set, allocWindowId, Effect.exec_tryCatch, insertLeafIntoWorkspace, htaken,
            hmember, Option.isSome_some, if_true]
          rfl
      | none =>
          right
          let window : Window C := ⟨f.nextWindowId, project, content⟩
          let desktop := (wsp.desktop.reconcileNear (wsp.insertLeaf window).layout.leafIds
            (some f.nextWindowId)).1
          obtain ⟨hbecomes, haimed⟩ :=
            insertLeaf_becomes window desktop (hsound wsp (List.mem_of_getElem? hwsp))
          have hhome : ∀ tile ∈ [window], tile.project = wsp.project := by
            intro tile htile
            rw [List.mem_singleton.1 htile, hproject]
          have habsent : ({ f with
              nextWindowId := f.nextWindowId + 1, soloPresentation := none } :
                Frame C).tileMembership window.id = none := hmember
          have hinsert := exec_insertLeaf habsent hwsp (hhome window (List.mem_singleton_self _))
          refine ⟨target, wsp, _, hwsp, hdurable, hbecomes.ephemeral,
            .set hwsp hbecomes hhome fun _ => haimed, ?_⟩
          simp only [window] at hinsert
          simp only [openTileInProject, Effect.exec_bind, Effect.exec_get, htarget,
            Effect.exec_set, allocWindowId, Effect.exec_tryCatch, hinsert, Effect.exec_modify,
            updateWorkspace, List.getElem?_set_self, hi, List.set_set, Effect.exec_pure]
          rfl

/-- A restored tile is refused, or hidden in its workspace. -/
theorem insertRestoredHidden_cases (window : Window C) (workspace : Nat)
    (previousPlacement : Option (Slot × Span)) (hsound : AllSound f.workspaces) :
    (∃ error, (insertRestoredHidden workspace window previousPlacement).exec f =
        (.error (.place error), f)) ∨
      ∃ wsp wsp' next, f.workspaces[workspace]? = some wsp ∧ wsp'.ephemeral = wsp.ephemeral ∧
        f.tileMembership window.id = none ∧
        Rearranged f.workspaces (f.workspaces.set workspace wsp') [window] [] ∧
        wsp.hiddenTiles ⊆ wsp'.hiddenTiles ∧
        (insertRestoredHidden workspace window previousPlacement).exec f = (.ok ⟨⟩,
          { f with nextWindowId := next, workspaces := f.workspaces.set workspace wsp' }) := by
  cases hmember : f.tileMembership window.id with
  | some _ =>
      left
      refine ⟨.duplicateWindowId window.id, ?_⟩
      simp only [insertRestoredHidden, Effect.exec_bind, Effect.exec_get, hmember,
        Option.isSome_some, if_true]
      rfl
  | none =>
  cases hwsp : f.workspaces[workspace]? with
  | none =>
      left
      refine ⟨.workspaceNotFound workspace, ?_⟩
      simp only [insertRestoredHidden, Effect.exec_bind, Effect.exec_get, hmember, hwsp,
        Option.isSome_none, Bool.false_eq_true, if_false]
      rfl
  | some wsp =>
  by_cases hproject : wsp.project ≠ window.project
  · left
    refine ⟨.projectMismatch window.id window.project wsp.project, ?_⟩
    simp only [insertRestoredHidden, Effect.exec_bind, Effect.exec_get, hmember, hwsp,
      Option.isSome_none, Bool.false_eq_true, if_false]
    rw [if_pos hproject]
    rfl
  right
  have htidy := (hsound wsp (List.mem_of_getElem? hwsp)).tidy
  have hbecomes : wsp.Becomes { wsp with
      hiddenTiles := wsp.hiddenTiles ++ [⟨window, previousPlacement⟩] } [window] [] := by
    refine ⟨?_, htidy, rfl, rfl⟩
    rw [List.append_nil, Workspace.tiles, List.map_append, ← List.append_assoc]
    exact List.Perm.refl _
  have hhome : ∀ tile ∈ [window], tile.project = wsp.project := by
    intro tile htile
    rw [List.mem_singleton.1 htile, not_not.1 hproject]
  refine ⟨wsp, { wsp with hiddenTiles := wsp.hiddenTiles ++ [⟨window, previousPlacement⟩] },
    max f.nextWindowId (WindowId.saturatingSucc window.id), rfl, rfl, rfl, .set hwsp hbecomes hhome fun haimed => haimed, List.subset_append_left _ _, ?_⟩
  simp only [insertRestoredHidden, Effect.exec_bind, Effect.exec_get, hmember, hwsp,
    Option.isSome_none, Bool.false_eq_true, if_false, hproject, Effect.exec_modify,
    updateWorkspace]

/-- A split that has nothing to stand beside opens nothing, but uses an
id up. -/
theorem splitFocused_cases (hsound : AllSound f.workspaces) (dir : SplitDir) (content : C) :
    ∃ outcome f', (splitFocused dir content).exec f = (.ok outcome, f') ∧
      f'.activeWorkspace = f.activeWorkspace ∧ f'.soloPresentation = f.soloPresentation ∧
      (f'.workspaces = f.workspaces ∨ ∃ wsp wsp', f.soloPresentation = none ∧
        f.active = some wsp ∧ (wsp.layout.leafIds = [] ∨ wsp.focused ∈ wsp.layout.leafIds) ∧
        wsp'.ephemeral = wsp.ephemeral ∧
        f'.workspaces = f.workspaces.set f.activeWorkspace wsp' ∧
        Rearranged f.workspaces f'.workspaces [⟨f.nextWindowId, wsp.project, content⟩] []) := by
  cases hsolo : f.soloPresentation with
  | some presented =>
      refine ⟨none, f, ?_, rfl, hsolo, .inl rfl⟩
      simp only [splitFocused, Effect.exec_bind, Effect.exec_get, hsolo]
      rfl
  | none =>
  cases hwsp : f.active with
  | none =>
      have hat : f.workspaces[f.activeWorkspace]? = none := hwsp
      refine ⟨none, { f with nextWindowId := f.nextWindowId + 1 }, ?_, rfl, hsolo, .inl rfl⟩
      simp only [splitFocused, Effect.exec_bind, Effect.exec_get, hsolo, allocWindowId,
        Option.isSome_none, Bool.false_eq_true, if_false, Effect.exec_set, active, hat]
      rfl
  | some wsp =>
  have hat : f.workspaces[f.activeWorkspace]? = some wsp := hwsp
  cases hsplit : wsp.splitFocused dir ⟨f.nextWindowId, wsp.project, content⟩ with
  | none =>
      refine ⟨none, { f with nextWindowId := f.nextWindowId + 1 }, ?_, rfl, hsolo, .inl rfl⟩
      simp only [splitFocused, Effect.exec_bind, Effect.exec_get, hsolo, allocWindowId,
        Option.isSome_none, Bool.false_eq_true, if_false, Effect.exec_set, active, hat, hsplit]
      rfl
  | some wsp' =>
      have hput := Workspace.splitFocused_spec (hsound wsp (List.mem_of_getElem? hat)).tidy hsplit
      refine ⟨some f.nextWindowId, { f with
        nextWindowId := f.nextWindowId + 1
        workspaces := f.workspaces.set f.activeWorkspace wsp' }, ?_, rfl, hsolo,
        .inr ⟨wsp, wsp', rfl, rfl, Workspace.splitFocused_place hsplit, hput.becomes.ephemeral, rfl,
          .set hat hput.becomes ?_ fun _ => hput.aimed⟩⟩
      · simp only [splitFocused, Effect.exec_bind, Effect.exec_get, hsolo, allocWindowId,
          Option.isSome_none, Bool.false_eq_true, if_false, Effect.exec_set, active, hat, hsplit,
          Effect.exec_modify, updateWorkspace]
        rfl
      · intro tile htile
        rw [List.mem_singleton.1 htile]

/-! ### Closing -/

/-- Closing is refused, or takes away the tile that has the focus: the
one presented alone, or the focused leaf of the active workspace. -/
theorem closeFocused_cases (hsound : AllSound f.workspaces) :
    closeFocused.exec f = (.error .refused, f) ∨
      ∃ index wsp wsp' window, f.workspaces[index]? = some wsp ∧
        wsp'.ephemeral = wsp.ephemeral ∧ f.focusedWindowId = some window.id ∧
        Rearranged f.workspaces (f.workspaces.set index wsp') [] [window] ∧
        ∃ outcome, closeFocused.exec f = (.ok outcome,
          { f with workspaces := f.workspaces.set index wsp', soloPresentation := none }) := by
  cases hsolo : f.soloPresentation with
  | some focused =>
      cases hhidden : f.hiddenWorkspaceIndexOfWindow focused with
      | none =>
          left
          simp only [closeFocused, Effect.exec_bind, Effect.exec_get, hsolo, hhidden]
          rfl
      | some index =>
          obtain ⟨wsp, position, hidden, hwsp, hposition, htile, hid⟩ := hiddenPosition_spec hhidden
          have hwspSound := hsound wsp (List.mem_of_getElem? hwsp)
          have hretire := retireHidden hwspSound htile
          right
          refine ⟨index, wsp, _, hidden.window, hwsp, hretire.ephemeral, ?_,
            .set hwsp hretire nofun fun haimed => haimed, ({ f with
              workspaces := f.workspaces.set index
                { wsp with hiddenTiles := wsp.hiddenTiles.eraseIdx position }
              soloPresentation := none } : Frame C).focusedWindowId, ?_⟩
          · rw [focusedWindowId, hsolo, hid]
          · simp only [closeFocused, Effect.exec_bind, Effect.exec_get, hsolo, hhidden, hposition,
              exec_removeHidden hwsp htile, Effect.exec_modify, Effect.exec_pure]
  | none =>
  have hexec : (closeFocused : FrameOp C _).exec f = (onActive Workspace.closeFocused).exec f := by
    simp only [closeFocused, Effect.exec_bind, Effect.exec_get, hsolo]
  rw [hexec]
  cases hwsp : f.active with
  | none => exact .inl (exec_onActive_none hwsp)
  | some wsp =>
  have hat : f.workspaces[f.activeWorkspace]? = some wsp := hwsp
  rw [exec_onActive hwsp]
  have hwspSound := hsound wsp (List.mem_of_getElem? hat)
  by_cases hfocused : wsp.focused ∈ wsp.layout.leafIds
  · right
    have hfound (window : Window C) (hid : window.id = wsp.focused) :
        f.focusedWindowId = some window.id := by
      obtain ⟨found, hleaf⟩ := Option.isSome_iff_exists.1 (Layout.findLeaf_isSome.2 hfocused)
      have hsame : found.id = wsp.focused := by
        rw [Layout.findLeaf, find_eq] at hleaf
        have hfoundId := List.find?_some hleaf
        exact beq_iff_eq.1 hfoundId
      rw [focusedWindowId, hsolo, hwsp]
      show (wsp.layout.findLeaf wsp.focused).map Window.id = _
      rw [hleaf, hid, ← hsame]
      rfl
    have hwritten (wsp' : Workspace C) : ({ f with
        workspaces := f.workspaces.set f.activeWorkspace wsp' } : Frame C) =
          { f with
            workspaces := f.workspaces.set f.activeWorkspace wsp', soloPresentation := none } := by
      rw [hsolo]
    obtain ⟨window, hid, ⟨hleaf, hclose⟩ | ⟨wsp', htaken, hclose⟩⟩ :=
      Workspace.closeFocused_spec hwspSound.tidy hfocused
    · have hbecomes : wsp.Becomes { wsp with
          layout := .empty, focused := 0, desktop := (wsp.desktop.reconcile []).1 } [] [window] := by
        refine ⟨?_, .inl rfl, rfl, rfl⟩
        rw [List.append_nil, Workspace.tiles, Workspace.tiles, hleaf]
        exact List.perm_append_singleton _ _
      refine ⟨f.activeWorkspace, wsp, { wsp with
        layout := .empty, focused := 0, desktop := (wsp.desktop.reconcile []).1 }, window, hat,
        rfl, hfound window hid, .set hat hbecomes nofun fun _ h => absurd rfl h, none, ?_⟩
      rw [hclose, hwritten]
    · refine ⟨f.activeWorkspace, wsp, wsp', window, hat, htaken.becomes.ephemeral,
        hfound window hid, .set hat htaken.becomes nofun fun _ _ => htaken.aimed,
        some wsp'.focused, ?_⟩
      rw [hclose, hwritten]
  · left
    rw [(Workspace.refused_of_not_mem hfocused).2.1, set_same hat]

/-- `only` is refused, or keeps of the leaves the focused one. -/
theorem only_cases (hsound : AllSound f.workspaces) :
    only.exec f = (.error .refused, f) ∨
      ∃ wsp wsp' window others, f.active = some wsp ∧ wsp'.ephemeral = wsp.ephemeral ∧
        window.id = wsp.focused ∧ wsp.layout.leaves.Perm (window :: others) ∧
        Rearranged f.workspaces (f.workspaces.set f.activeWorkspace wsp') [] others ∧
        only.exec f = (.ok ⟨⟩, { f with
          workspaces := f.workspaces.set f.activeWorkspace wsp', soloPresentation := none }) := by
  cases hsolo : f.soloPresentation with
  | some presented =>
      left
      simp only [only, Effect.exec_bind, Effect.exec_get, hsolo]
      rfl
  | none =>
  have hexec : (only : FrameOp C _).exec f = (onActive Workspace.only).exec f := by
    simp only [only, Effect.exec_bind, Effect.exec_get, hsolo]
    rfl
  rw [hexec]
  cases hwsp : f.active with
  | none => exact .inl (exec_onActive_none hwsp)
  | some wsp =>
  have hat : f.workspaces[f.activeWorkspace]? = some wsp := hwsp
  have hwspSound := hsound wsp (List.mem_of_getElem? hat)
  rw [exec_onActive hwsp]
  by_cases hfocused : wsp.focused ∈ wsp.layout.leafIds
  · right
    obtain ⟨window, hmem, hid, honly⟩ := Workspace.only_spec hfocused
    obtain ⟨before, after, hleaves⟩ := List.append_of_mem hmem
    have hperm : wsp.layout.leaves.Perm (window :: (before ++ after)) := by
      rw [hleaves]
      exact List.perm_middle
    refine ⟨wsp, { wsp with layout := .leaf window }, window, before ++ after, rfl, rfl, hid,
      hperm, .set hat ⟨?_, .inr trivial, rfl, rfl⟩ nofun fun _ _ => ?_, ?_⟩
    · have hhidden : ([window] ++ (wsp.hiddenTiles.map HiddenTile.window ++ (before ++ after))).Perm
          ([window] ++ (before ++ after ++ wsp.hiddenTiles.map HiddenTile.window)) :=
        List.perm_append_comm.append_left _
      rw [List.append_nil]
      exact hhidden.trans (hperm.symm.append_right _)
    · show wsp.focused ∈ [window.id]
      rw [hid]
      exact List.mem_singleton_self _
    · rw [honly, hsolo]
  · left
    rw [(Workspace.refused_of_not_mem hfocused).2.2, set_same hat]

/-! ### Moving focus -/

/-- What a focus move does to the workspace it is made in. -/
def focusWithin (target : Workspace C → Option WindowId) : Effect (Workspace C) Fault PUnit := do
  match target (← get) with
  | some next => modify fun wsp => { wsp with focused := next }
  | none => pure ⟨⟩

/-- A focus move is refused, finds no target, or goes to the target it
looked up. -/
theorem focusOn_cases (target : Workspace C → Option WindowId) :
    (∃ outcome, (focusOn target).exec f = (outcome, f) ∧ outcome ≠ .error .panicked) ∨
      ∃ wsp next, f.soloPresentation = none ∧ f.active = some wsp ∧ target wsp = some next ∧
        (focusOn target).exec f = (.ok ⟨⟩, { f with
          workspaces := f.workspaces.set f.activeWorkspace { wsp with focused := next } }) := by
  cases hsolo : f.soloPresentation with
  | some presented =>
      left
      refine ⟨.error .refused, ?_, fun h => Fault.noConfusion (Except.error.inj h)⟩
      simp only [focusOn, Effect.exec_bind, Effect.exec_get, hsolo]
      rfl
  | none =>
  have hexec : (focusOn target).exec f = (onActive (focusWithin target)).exec f := by
    simp only [focusOn, Effect.exec_bind, Effect.exec_get, hsolo]
    rfl
  rw [hexec]
  cases hwsp : f.active with
  | none =>
      exact .inl ⟨.error .refused, exec_onActive_none hwsp,
        fun h => Fault.noConfusion (Except.error.inj h)⟩
  | some wsp =>
  have hat : f.workspaces[f.activeWorkspace]? = some wsp := hwsp
  rw [exec_onActive hwsp, focusWithin]
  cases htarget : target wsp with
  | none =>
      left
      refine ⟨.ok ⟨⟩, ?_, fun h => by cases h⟩
      simp only [Effect.exec_bind, Effect.exec_get, htarget, Effect.exec_pure, set_same hat]
  | some next =>
      right
      refine ⟨wsp, next, rfl, rfl, htarget, ?_⟩
      simp only [Effect.exec_bind, Effect.exec_get, htarget, Effect.exec_modify, hsolo]

end Frame

end Yaldabaoth
