import Yaldabaoth.Proofs.Frame.Opening

/-!
# `Yaldabaoth.Proofs.Frame.Tiles`: the account of every operation

`Account` says what an operation does to the tiles of a frame: what it
brings in and what it retires, that refusals leave every tile where it
was, and under which conditions the focus and the presented tile stay
good. Over a run whose operations hand out new ids only, no tile is
lost or doubled (`Frame.tiles_conserved`).
-/

set_option autoImplicit false

namespace Yaldabaoth

open SplitTree Holdings

variable {C : Type}

namespace Frame

open Workspace (Rearranged AllSound AllAimed)

/-! ### What an operation may do -/

/-- Where every tile is. -/
def placement (f : Frame C) : List (Layout C × List (HiddenTile C)) :=
  f.workspaces.map fun wsp => (wsp.layout, wsp.hiddenTiles)

/-- The content of the tile that the operation opens. -/
def Action.content? : Action C → Option C
  | .pushInitialWorkspace content _ => some content
  | .pushWorkspaceInheriting content => some content
  | .openTileInProject content _ => some content
  | .splitFocused _ content => some content
  | .openEphemeralWorkspaceIn content _ => some content
  | .openEphemeralWorkspace content => some content
  | _ => none

/-- The operation sends the tile with this id to a workspace. -/
def Action.Sends (a : Action C) (id : WindowId) : Prop :=
  ∃ target follow, a = .sendTileToWorkspace id target follow

/-- The tiles that an operation brings in: one with the next id, or the
one that it restores. -/
inductive Brings (f : Frame C) : Action C → List (Window C) → Prop
  | nothing {a : Action C} : Brings f a []
  | opened {a : Action C} {tile : Window C} :
      a.content? = some tile.content → tile.id = f.nextWindowId → Brings f a [tile]
  | restored {workspace : Nat} {window : Window C} {previousPlacement : Option (Slot × Span)} :
      Brings f (.insertRestoredHidden workspace window previousPlacement) [window]

/-- The tiles that an operation takes away: the focused one, those of the
workspace that is closed, the leaves beside the one that is kept, or
those of the ephemeral workspace that is torn down, but for a tile that
the operation itself sends elsewhere. -/
inductive Retires (f : Frame C) : Action C → List (Window C) → Prop
  | nothing {a : Action C} : Retires f a []
  | closed {tile : Window C} : f.focusedWindowId = some tile.id → Retires f .closeFocused [tile]
  | workspace {idx : Nat} {wsp : Workspace C} :
      f.workspaces[idx]? = some wsp → Retires f (.closeWorkspace idx) wsp.tiles
  | only {wsp : Workspace C} {tile : Window C} {others : List (Window C)} :
      f.active = some wsp → tile.id = wsp.focused → wsp.layout.leaves.Perm (tile :: others) →
      Retires f .only others
  | teardown {a : Action C} {wsp : Workspace C} {kept retired : List (Window C)} :
      f.active = some wsp → wsp.ephemeral = true → wsp.tiles.Perm (kept ++ retired) →
      (∀ tile ∈ kept, a.Sends tile.id) → Retires f a retired

/-- Whether the operation hands out the next id to a tile. -/
def opens (f : Frame C) : Action C → Bool
  | .splitFocused _ _ => f.soloPresentation.isNone && f.active.any fun wsp =>
      wsp.layout.leafIds.isEmpty || wsp.layout.leafIds.contains wsp.focused
  | a => a.content?.isSome

/-- The operation gives no tile an id that another has. -/
def Fresh (f : Frame C) (a : Action C) : Prop := f.opens a = true → f.nextWindowId ∉ f.ids

instance (f : Frame C) (a : Action C) : Decidable (f.Fresh a) :=
  inferInstanceAs (Decidable (_ → _))

/-- Every tile has one place, in a workspace of its project, and no split
has fewer than two children. -/
structure Owned (f : Frame C) : Prop where
  sound : AllSound f.workspaces
  distinct : f.ids.Nodup

/-- The target of a focus move is a leaf, if there is one at all. -/
def FocusMove (f : Frame C) (target : Workspace C → Option WindowId) : Prop :=
  f.soloPresentation = none → ∀ wsp ∈ f.active, ∀ next ∈ target wsp,
    wsp.layout.leafIds ≠ [] → next ∈ wsp.layout.leafIds

instance (f : Frame C) (target : Workspace C → Option WindowId) : Decidable (f.FocusMove target) :=
  have (wsp : Workspace C) : Decidable (∀ next ∈ target wsp,
      wsp.layout.leafIds ≠ [] → next ∈ wsp.layout.leafIds) := Option.decidableForallMem _
  inferInstanceAs (Decidable (_ = _ → _))

/-- A focus move finds a leaf of the layout, not a tile that is gone. -/
def Lands (f : Frame C) : Action C → Prop
  | .focusNext => f.FocusMove fun wsp => wsp.desktop.sequenceNeighbor wsp.focused true
  | .focusPrev => f.FocusMove fun wsp => wsp.desktop.sequenceNeighbor wsp.focused false
  | .focusMotion dir => f.FocusMove fun wsp => wsp.focusTarget dir
  | _ => True

instance (f : Frame C) (a : Action C) : Decidable (f.Lands a) := by
  unfold Lands
  split <;> infer_instance

/-- The tile that is presented alone is hidden in a workspace. -/
def SoloHidden (f : Frame C) : Prop :=
  ∀ id ∈ f.soloPresentation, ∃ wsp ∈ f.workspaces, id ∈ wsp.hiddenTiles.map (·.window.id)

/-- The presented tile is not one of the ephemeral workspace that makes
room or is dismissed. -/
def Spares (f : Frame C) : Action C → Prop
  | .openEphemeralWorkspaceIn _ _ | .openEphemeralWorkspace _ | .dismissEphemeralWorkspace =>
      ∀ id ∈ f.soloPresentation, ∀ wsp ∈ f.active, wsp.ephemeral = true →
        id ∉ wsp.hiddenTiles.map (·.window.id)
  | _ => True

instance (f : Frame C) (a : Action C) : Decidable (f.Spares a) := by
  unfold Spares
  split <;> first | exact Option.decidableForallMem _ | infer_instance

/-- The account of an operation. -/
structure Account (f : Frame C) (a : Action C) (outcome : Except Fault PUnit) (f' : Frame C) :
    Prop where
  trades : ∃ born retired, Brings f a born ∧ Retires f a retired ∧
    (f.Fresh a → ∀ tile ∈ born, tile.id ∉ f.ids) ∧
    Trades Workspace.tiles f.workspaces f'.workspaces born retired
  sound : AllSound f'.workspaces
  aimed : f.Lands a → AllAimed f.workspaces → AllAimed f'.workspaces
  solo : f.Spares a → f.SoloHidden → f'.SoloHidden
  refused : ∀ e, outcome = .error e → f'.placement = f.placement

variable {f f' g : Frame C} {a : Action C} {outcome : Except Fault PUnit} {id : WindowId} {i : Nat}

theorem SoloHidden.of_none (h : f.soloPresentation = none) : f.SoloHidden := by
  intro id hid
  rw [h] at hid
  cases hid

namespace Account

/-- An operation that leaves the workspaces as they are. -/
theorem same (howned : f.Owned) (hws : f'.workspaces = f.workspaces)
    (hsolo : f.SoloHidden → f'.SoloHidden) : Account f a outcome f' where
  trades := ⟨[], [], .nothing, .nothing, fun _ => nofun, by rw [hws]; exact .refl _⟩
  sound := by rw [hws]; exact howned.sound
  aimed := fun _ haimed => by rw [hws]; exact haimed
  solo := fun _ => hsolo
  refused := fun _ _ => by rw [placement, placement, hws]

/-- An operation that is refused changes nothing. -/
theorem unchanged (howned : f.Owned) : Account f a outcome f := same howned rfl id

/-- An operation that succeeds and presents no tile alone. -/
theorem of_rearranged {born retired : List (Window C)} (howned : f.Owned)
    (hborn : Brings f a born) (hretired : Retires f a retired)
    (hnew : f.Fresh a → ∀ tile ∈ born, tile.id ∉ f.ids)
    (h : Rearranged f.workspaces f'.workspaces born retired) (hsolo : f'.soloPresentation = none) :
    Account f a (.ok ⟨⟩) f' where
  trades := ⟨born, retired, hborn, hretired, hnew, h.trades⟩
  sound := h.sound howned.sound
  aimed := fun _ => h.aimed
  solo := fun _ _ => .of_none hsolo
  refused := nofun

/-- An operation that writes the workspaces and then switches. What it
wrote of the active workspace can only be a tile that it sends away. -/
theorem switch {born : List (Window C)} {idx : Nat} (howned : f.Owned) (hborn : Brings f a born)
    (hnew : f.Fresh a → ∀ tile ∈ born, tile.id ∉ f.ids)
    (h : Rearranged f.workspaces g.workspaces born [])
    (hsolo : g.workspaces.length ≤ idx → g.soloPresentation = none)
    (hactive : ∀ wsp', g.active = some wsp' → g.activeWorkspace ≠ idx →
      ∃ wsp kept, f.active = some wsp ∧ wsp'.ephemeral = wsp.ephemeral ∧
        wsp.tiles.Perm (kept ++ wsp'.tiles) ∧ ∀ tile ∈ kept, a.Sends tile.id) :
    Account f a (.ok ⟨⟩) (g.setActiveWorkspace idx) := by
  by_cases hidx : idx < g.workspaces.length
  · obtain ⟨hnone, ⟨hne, hephemeral, hws, -⟩ | ⟨-, hws, -⟩⟩ := setActiveWorkspace_spec hidx
    · obtain ⟨wsp', hat, htrue⟩ := isEphemeral_iff.1 hephemeral
      obtain ⟨wsp, kept, hwsp, hsame, hperm, hkept⟩ := hactive wsp' hat hne
      have hboth := h.trans (Rearranged.erase hat)
      rw [List.append_nil, List.nil_append, ← hws] at hboth
      exact of_rearranged howned hborn (.teardown hwsp (hsame ▸ htrue) hperm hkept) hnew hboth hnone
    · rw [← hws] at h
      exact of_rearranged howned hborn .nothing hnew h hnone
  · have hstay : g.setActiveWorkspace idx = g := by
      rw [setActiveWorkspace, if_pos (Nat.not_lt.1 hidx)]
    rw [hstay]
    exact of_rearranged howned hborn .nothing hnew h (hsolo (Nat.not_lt.1 hidx))

/-- A switch on its own. -/
theorem setActive (howned : f.Owned) (idx : Nat) :
    Account f a (.ok ⟨⟩) (f.setActiveWorkspace idx) := by
  by_cases hidx : idx < f.workspaces.length
  · obtain ⟨hnone, ⟨hne, hephemeral, hws, -⟩ | ⟨-, hws, -⟩⟩ := setActiveWorkspace_spec hidx
    · obtain ⟨wsp, hat, htrue⟩ := isEphemeral_iff.1 hephemeral
      have herase := Rearranged.erase hat
      rw [← hws] at herase
      exact of_rearranged howned .nothing
        (.teardown hat htrue (List.Perm.refl ([] ++ wsp.tiles)) nofun) (fun _ => nofun) herase hnone
    · exact same howned hws fun _ => .of_none hnone
  · have hstay : f.setActiveWorkspace idx = f := by
      rw [setActiveWorkspace, if_pos (Nat.not_lt.1 hidx)]
    rw [hstay]
    exact unchanged howned

end Account

/-! ### One account for each operation -/

/-- A tile with the next id is new where the operation is `Fresh`. -/
theorem Fresh.new {content : C} {project : ProjectId} (hopens : f.opens a = true)
    (hfresh : f.Fresh a) :
    ∀ tile ∈ [(⟨f.nextWindowId, project, content⟩ : Window C)], tile.id ∉ f.ids := by
  intro tile htile
  rw [List.mem_singleton.1 htile]
  exact hfresh hopens

theorem SoloHidden.congr (hsolo : f'.soloPresentation = f.soloPresentation)
    (hws : f'.workspaces = f.workspaces) (h : f.SoloHidden) : f'.SoloHidden := by
  intro id hid
  rw [hsolo] at hid
  rw [hws]
  exact h id hid

theorem push_account (howned : f.Owned) {content : C} {project : ProjectId}
    (hcontent : a.content? = some content) (hopens : f.opens a = true) :
    Account f a (.ok ⟨⟩) (f.pushInitialWorkspace content project).2 :=
  .of_rearranged howned (.opened hcontent rfl) .nothing (Fresh.new hopens)
    (f.pushInitialWorkspace_spec content project) rfl

/-- Hidden tiles stay hidden in the workspaces that stay. -/
theorem SoloHidden.erase (hsolo : ∀ id ∈ f'.soloPresentation, id ∈ f.soloPresentation)
    (hws : ∀ wsp ∈ f.workspaces.eraseIdx i, wsp ∈ f'.workspaces)
    (hspared : ∀ id ∈ f'.soloPresentation, ∀ wsp, f.workspaces[i]? = some wsp →
      id ∉ wsp.hiddenTiles.map (·.window.id)) (h : f.SoloHidden) : f'.SoloHidden := by
  intro id hid
  obtain ⟨wsp, hwsp, hhidden⟩ := h id (hsolo id hid)
  refine ⟨wsp, hws wsp ?_, hhidden⟩
  obtain ⟨k, hk⟩ := List.mem_iff_getElem?.1 hwsp
  have hne : k ≠ i := by
    rintro rfl
    exact hspared id hid wsp hk hhidden
  refine List.mem_iff_getElem?.2 ?_
  by_cases hlt : k < i
  · exact ⟨k, by rw [List.getElem?_eraseIdx, if_pos hlt]; exact hk⟩
  · refine ⟨k - 1, ?_⟩
    rw [List.getElem?_eraseIdx, if_neg (by omega), show k - 1 + 1 = k by omega]
    exact hk

theorem openEphemeral_account (howned : f.Owned) {content : C} {project : ProjectId}
    (hcontent : a.content? = some content) (hopens : f.opens a = true)
    (hspares : f.Spares a → ∀ id ∈ f.soloPresentation, ∀ wsp ∈ f.active, wsp.ephemeral = true →
      id ∉ wsp.hiddenTiles.map (·.window.id)) :
    Account f a (.ok ⟨⟩) (f.openEphemeralWorkspaceIn content project).2 := by
  obtain ⟨retired, h, hretired⟩ := f.openEphemeralWorkspaceIn_spec content project
  have hgone : Retires f a retired := by
    rcases hretired with rfl | ⟨wsp, hwsp, htrue, rfl⟩
    · exact .nothing
    · exact .teardown hwsp htrue (List.Perm.refl ([] ++ wsp.tiles)) nofun
  refine ⟨⟨_, retired, .opened hcontent rfl, hgone, Fresh.new hopens, h.trades⟩,
    h.sound howned.sound, fun _ => h.aimed, fun hspared hsolo => ?_, nofun⟩
  have hspared := hspares hspared
  cases hephemeral : f.activeIsEphemeral with
  | false =>
      have hroom := roomForEphemeral_false hephemeral
      intro id hid
      simp only [openEphemeralWorkspaceIn, hroom, allocWindowId] at hid ⊢
      obtain ⟨wsp, hwsp, hhidden⟩ := hsolo id hid
      exact ⟨wsp, List.mem_append_left _ hwsp, hhidden⟩
  | true =>
      have hroom := roomForEphemeral_true hephemeral
      obtain ⟨wsp, hwsp, htrue⟩ := isEphemeral_iff.1 hephemeral
      have hsame : (f.openEphemeralWorkspaceIn content project).2.soloPresentation =
          f.soloPresentation := by
        simp only [openEphemeralWorkspaceIn, hroom, allocWindowId]
      refine SoloHidden.erase (i := f.activeWorkspace) ?_ ?_ ?_ hsolo
      · intro id hid
        rwa [hsame] at hid
      · intro other hother
        simp only [openEphemeralWorkspaceIn, hroom, allocWindowId]
        exact List.mem_append_left _ hother
      · intro id hid other hother
        rw [hwsp] at hother
        cases hother
        rw [hsame] at hid
        exact hspared id hid wsp hwsp htrue

theorem dismiss_account (howned : f.Owned) :
    Account f .dismissEphemeralWorkspace (.ok ⟨⟩) f.dismissEphemeralWorkspace := by
  cases hephemeral : f.activeIsEphemeral with
  | false =>
      rw [dismissEphemeralWorkspace, if_pos hephemeral]
      exact .unchanged howned
  | true =>
      obtain ⟨wsp, hwsp, htrue⟩ := isEphemeral_iff.1 hephemeral
      have hws : f.dismissEphemeralWorkspace.workspaces =
          f.workspaces.eraseIdx f.activeWorkspace := by
        rw [dismissEphemeralWorkspace, if_neg (by rw [hephemeral]; decide)]
      have hsame : f.dismissEphemeralWorkspace.soloPresentation = f.soloPresentation := by
        rw [dismissEphemeralWorkspace, if_neg (by rw [hephemeral]; decide)]
      have h := Rearranged.erase hwsp
      rw [← hws] at h
      refine ⟨⟨[], wsp.tiles, .nothing, .teardown hwsp htrue (List.Perm.refl ([] ++ wsp.tiles)) nofun,
        fun _ => nofun, h.trades⟩, h.sound howned.sound, fun _ => h.aimed,
        fun hspared hsolo => ?_, nofun⟩
      refine SoloHidden.erase (i := f.activeWorkspace) ?_ ?_ ?_ hsolo
      · intro id hid
        rwa [hsame] at hid
      · intro other hother
        rw [hws]
        exact hother
      · intro id hid other hother
        rw [hwsp] at hother
        cases hother
        rw [hsame] at hid
        exact hspared id hid wsp hwsp htrue

theorem closeWorkspace_account (howned : f.Owned) (idx : Nat) :
    Account f (.closeWorkspace idx) (.ok ⟨⟩) (f.closeWorkspace idx) := by
  by_cases hkeep : f.workspaces.length ≤ idx ∨ f.workspaces.length ≤ 1
  · rw [closeWorkspace, if_pos hkeep]
    exact .unchanged howned
  obtain ⟨hidx, -⟩ := not_or.1 hkeep
  have hat := List.getElem?_eq_getElem (Nat.not_le.1 hidx)
  have hws : (f.closeWorkspace idx).workspaces = f.workspaces.eraseIdx idx := by
    rw [closeWorkspace, if_neg hkeep]
  have h := Rearranged.erase hat
  rw [← hws] at h
  refine ⟨⟨[], _, .nothing, .workspace hat, fun _ => List.forall_mem_nil _, h.trades⟩,
    h.sound howned.sound, fun _ => h.aimed, fun _ hsolo => ?_, fun _ h => by cases h⟩
  -- The presented tile stays presented only while it is somewhere.
  have hstays (id : WindowId) (hid : id ∈ (f.closeWorkspace idx).soloPresentation) :
      id ∈ f.soloPresentation ∧ id ∈ (f.closeWorkspace idx).ids := by
    rw [closeWorkspace, if_neg hkeep] at hid
    obtain ⟨hsame, hsome⟩ := Option.filter_eq_some_iff.1 hid
    refine ⟨hsame, ?_⟩
    rw [ids, tiles, hws]
    by_contra hgone
    rw [tileMembership_eq_none.2 hgone] at hsome
    cases hsome
  have hgone := (h.trades.nodup Window.id howned.distinct List.nodup_nil
    (List.forall_mem_nil _)).2
  refine SoloHidden.erase (i := idx) (fun id hid => (hstays id hid).1) ?_ ?_ hsolo
  · intro other hother
    rw [hws]
    exact hother
  · intro id hid other hother hhidden
    rw [hat] at hother
    cases hother
    obtain ⟨tile, htile, rfl⟩ := List.mem_map.1 hhidden
    exact hgone tile.window (List.mem_append_right _ (List.mem_map_of_mem htile))
      (hstays _ hid).2

/-- Hidden tiles stay hidden where the hidden tiles only grow. -/
theorem SoloHidden.set {wsp wsp' : Workspace C}
    (hsolo : f'.soloPresentation = f.soloPresentation)
    (hws : f'.workspaces = f.workspaces.set i wsp') (hat : f.workspaces[i]? = some wsp)
    (hhidden : wsp.hiddenTiles ⊆ wsp'.hiddenTiles) (h : f.SoloHidden) : f'.SoloHidden := by
  intro id hid
  rw [hsolo] at hid
  obtain ⟨other, hother, htile⟩ := h id hid
  obtain ⟨k, hk⟩ := List.mem_iff_getElem?.1 hother
  rw [hws]
  by_cases hki : i = k
  · subst hki
    rw [hat] at hk
    cases hk
    obtain ⟨hi, -⟩ := List.getElem?_eq_some_iff.1 hat
    exact ⟨wsp', List.mem_set hi _, List.map_subset _ hhidden htile⟩
  · exact ⟨other, List.mem_iff_getElem?.2 ⟨k, by rw [List.getElem?_set_ne hki]; exact hk⟩, htile⟩

/-- A change of the arrangement moves no tile and no focus. -/
theorem arrange_account (howned : f.Owned) (i : Nat) {change : Workspace C → Workspace C}
    (hchange : Workspace.Arranges change) : Account f a (.ok ⟨⟩) (f.updateWorkspace i change) := by
  rw [updateWorkspace]
  split
  · next wsp hat =>
      have hsound := howned.sound wsp (List.mem_of_getElem? hat)
      obtain ⟨desktop, view, primaryCount, harranged⟩ := hchange wsp
      have hbecomes : wsp.Becomes { wsp with desktop, view, primaryCount } [] [] :=
        .of_same hsound rfl rfl rfl rfl
      have h := Rearranged.set hat hbecomes (List.forall_mem_nil _) fun haimed => haimed
      rw [harranged]
      exact ⟨⟨[], [], .nothing, .nothing, fun _ => List.forall_mem_nil _, h.trades⟩,
        h.sound howned.sound, fun _ => h.aimed,
        fun _ => SoloHidden.set rfl rfl hat (List.Subset.refl _), fun _ h => by cases h⟩
  · exact .unchanged howned

theorem present_account (howned : f.Owned) (id : WindowId) :
    Account f a (.ok ⟨⟩) (f.presentSolo id).1 := by
  rw [presentSolo]
  split
  · next workspace hat =>
      refine .same howned rfl fun _ presented hpresented => ?_
      cases hpresented
      obtain ⟨wsp, hwsp, hhidden⟩ := hidden_spec (tileMembership_hidden hat)
      exact ⟨wsp, List.mem_of_getElem? hwsp, hhidden⟩
  · exact .unchanged howned

theorem restoreSolo_account (howned : f.Owned) (id : WindowId) :
    Account f a (.ok ⟨⟩) (f.restoreSoloPresentation id).1 := by
  rw [restoreSoloPresentation]
  split
  · next workspace hat =>
      refine .same howned rfl fun _ presented hpresented => ?_
      cases hpresented
      obtain ⟨wsp, hwsp, hhidden⟩ := hidden_spec (tileMembership_hidden hat)
      exact ⟨wsp, List.mem_of_getElem? hwsp, hhidden⟩
  · exact .same howned rfl fun _ => .of_none rfl

theorem focusTile_account (howned : f.Owned) (id : WindowId) :
    Account f a (.ok ⟨⟩) (f.focusTile id).1 := by
  rw [focusTile]
  split
  · next workspace hat =>
      obtain ⟨wsp, hwsp, hid⟩ := tileMembership_visible hat
      have hsound := howned.sound wsp (List.mem_of_getElem? hwsp)
      have hput : f.updateWorkspace workspace (fun wsp => { wsp with focused := id }) =
          { f with workspaces := f.workspaces.set workspace { wsp with focused := id } } := by
        rw [updateWorkspace, hwsp]
      have hbecomes : wsp.Becomes { wsp with focused := id } [] [] :=
        .of_same hsound rfl rfl rfl rfl
      obtain ⟨hi, -⟩ := List.getElem?_eq_some_iff.1 hwsp
      show Account f a (.ok ⟨⟩) ((f.updateWorkspace workspace _).setActiveWorkspace workspace)
      rw [hput]
      refine .switch howned .nothing (fun _ => List.forall_mem_nil _)
        (.set hwsp hbecomes (List.forall_mem_nil _) fun _ _ => hid)
        (fun hout => ?_) fun wsp' hwsp' hne => ?_
      · rw [List.length_set] at hout
        exact absurd hi (Nat.not_lt.2 hout)
      · have hother : f.active = some wsp' :=
          (List.getElem?_set_ne (Ne.symm hne)).symm.trans hwsp'
        exact ⟨wsp', [], hother, rfl, List.Perm.refl _, List.forall_mem_nil _⟩
  · exact present_account howned id
  · exact .unchanged howned

theorem focusOn_account (howned : f.Owned) {target : Workspace C → Option WindowId}
    (hlands : f.Lands a → f.FocusMove target) (hexec : (focusOn target).exec f = (outcome, f')) :
    Account f a outcome f' := by
  rcases focusOn_cases (f := f) target with ⟨outcome', hsame, -⟩ | ⟨wsp, next, hnone, hwsp, hnext, hset⟩
  · rw [hsame] at hexec
    cases hexec
    exact .unchanged howned
  · rw [hset] at hexec
    cases hexec
    have hat : f.workspaces[f.activeWorkspace]? = some wsp := hwsp
    have hsound := howned.sound wsp (List.mem_of_getElem? hat)
    have hbecomes : wsp.Becomes { wsp with focused := next } [] [] :=
      .of_same hsound rfl rfl rfl rfl
    refine ⟨⟨[], [], .nothing, .nothing, fun _ => nofun, .set hat hbecomes.tiles⟩,
      fun other hother => ?_, fun hl haimed => ?_, fun _ _ => .of_none hnone, nofun⟩
    · rcases List.mem_or_eq_of_mem_set hother with hold | rfl
      · exact howned.sound other hold
      · exact hbecomes.sound hsound nofun
    · refine (Rearranged.set hat hbecomes nofun fun _ hleaves => ?_).aimed haimed
      exact hlands hl hnone wsp hwsp next hnext (List.map_eq_nil_iff.not.2 hleaves)

theorem move_account (howned : f.Owned) (target : Nat) (follow : Bool)
    (hexec : (moveAttachedToWorkspace id target follow).exec f = (outcome, f')) :
    Account f a outcome f' := by
  have hunique := List.nodup_iff_count_le_one.1 howned.distinct id
  rcases moveAttached_cases howned.sound target follow fun _ _ _ _ => hunique with hrefused |
    ⟨source, sourceWsp, targetWsp, f'', -, hmoved, hmove⟩
  · rw [hrefused] at hexec
    cases hexec
    exact .unchanged howned
  · rw [hmove] at hexec
    cases hexec
    exact .of_rearranged howned .nothing .nothing (fun _ => nofun) hmoved.rearranged hmoved.solo

theorem send_account (howned : f.Owned) (target : Nat) (follow : Bool)
    (hexec : (sendTileToWorkspace id target follow).exec f = (outcome, f')) :
    Account f (.sendTileToWorkspace id target follow) outcome f' := by
  have hunique := List.nodup_iff_count_le_one.1 howned.distinct id
  rcases sendTile_cases (f := f) id target follow with hstay | hmove | ⟨source, hat⟩
  · obtain ⟨outcome', hstay, -⟩ := hstay
    rw [hstay] at hexec
    cases hexec
    exact .unchanged howned
  · rw [hmove] at hexec
    exact move_account howned target follow hexec
  · rcases sendHidden_cases howned.sound hunique hat target follow with hrefused |
      ⟨ws', h, hactive, hsend⟩
    · rw [hrefused] at hexec
      cases hexec
      exact .unchanged howned
    · rw [hsend] at hexec
      cases hexec
      refine .switch howned .nothing (fun _ => nofun) h (fun _ => rfl) fun wsp' hwsp' hne => ?_
      -- Only a switch to the target can leave the active workspace.
      have htarget : f.activeWorkspace ≠ target := by
        intro hsame
        cases follow with
        | false => exact hne rfl
        | true => exact hne hsame
      obtain ⟨wsp, kept, hwsp, hephemeral, hperm, hkept⟩ := hactive wsp' hwsp' htarget
      exact ⟨wsp, kept, hwsp, hephemeral, hperm, fun tile htile =>
        ⟨target, follow, by rw [hkept tile htile]⟩⟩

/-! ### Any operation -/

/-- What an operation does, without the value it answers. -/
theorem exec_discard {α : Type} (m : FrameOp C α) (f : Frame C) :
    (do let _ ← m : FrameOp C PUnit).exec f = match m.exec f with
      | (.ok _, f') => (.ok ⟨⟩, f')
      | (.error e, f') => (.error e, f') := by
  rw [Effect.exec_bind]
  rcases m.exec f with ⟨_ | _, _⟩ <;> rfl

theorem account (howned : f.Owned) (hexec : (perform a).exec f = (outcome, f'))
    (hran : outcome ≠ .error .panicked) : Account f a outcome f' := by
  have hunique (id : WindowId) : f.ids.count id ≤ 1 := List.nodup_iff_count_le_one.1 howned.distinct id
  cases a with
  | pushInitialWorkspace content project =>
      cases hexec
      exact push_account howned rfl rfl
  | pushWorkspaceInheriting content =>
      cases hexec
      exact push_account howned rfl rfl
  | openTileInProject content project =>
      rw [perform, exec_discard] at hexec
      rcases openTileInProject_cases howned.sound content project with ⟨-, hpush⟩ | ⟨f'', hpanic⟩ |
        ⟨target, wsp, wsp', hwsp, -, -, h, hset⟩
      · rw [hpush] at hexec
        cases hexec
        exact push_account howned rfl rfl
      · rw [hpanic] at hexec
        cases hexec
        exact absurd rfl hran
      · rw [hset] at hexec
        cases hexec
        refine .switch howned (.opened rfl rfl) (Fresh.new rfl) h (fun _ => rfl)
          fun wsp'' hwsp'' hne => ?_
        have hother : f.active = some wsp'' :=
          (List.getElem?_set_ne (Ne.symm hne)).symm.trans hwsp''
        exact ⟨wsp'', [], hother, rfl, List.Perm.refl _, nofun⟩
  | splitFocused dir content =>
      obtain ⟨answer, f'', hsplit, -, hsolo, hws⟩ := splitFocused_cases howned.sound dir content
      rw [perform, exec_discard, hsplit] at hexec
      cases hexec
      rcases hws with hws | ⟨wsp, wsp', hnone, hwsp, hplace, -, -, h⟩
      · exact .same howned hws fun hhidden => SoloHidden.congr hsolo hws hhidden
      · refine .of_rearranged howned (.opened rfl rfl) .nothing (Fresh.new ?_) h (hsolo.trans hnone)
        -- A leaf was opened: the layout was empty, or the focus on a leaf.
        rw [opens, hnone, hwsp]
        rcases hplace with hempty | hfocused
        · simp [hempty]
        · simp [hfocused]
  | closeFocused =>
      rw [perform, exec_discard] at hexec
      rcases closeFocused_cases howned.sound with hrefused |
        ⟨index, wsp, wsp', window, -, -, hfocused, h, answer, hclose⟩
      · rw [hrefused] at hexec
        cases hexec
        exact .unchanged howned
      · rw [hclose] at hexec
        cases hexec
        exact .of_rearranged howned .nothing (.closed hfocused) (fun _ => nofun) h rfl
  | closeWorkspace idx =>
      cases hexec
      exact closeWorkspace_account howned idx
  | only =>
      rw [perform] at hexec
      rcases only_cases howned.sound with hrefused |
        ⟨wsp, wsp', window, others, hwsp, -, hid, hperm, h, honly⟩
      · rw [hrefused] at hexec
        cases hexec
        exact .unchanged howned
      · rw [honly] at hexec
        cases hexec
        exact .of_rearranged howned .nothing (.only hwsp hid hperm) (fun _ => nofun) h rfl
  | hideWindow id =>
      rw [perform] at hexec
      by_cases hat : ∃ i, f.tileMembership id = some ⟨i, .visible⟩
      · obtain ⟨i, hat⟩ := hat
        obtain ⟨wsp', -, h, hhide⟩ := hideWindow_spec howned.sound hat
        rw [hhide] at hexec
        cases hexec
        exact .of_rearranged howned .nothing .nothing (fun _ => nofun) h rfl
      · rw [hideWindow_refused (not_exists.1 hat)] at hexec
        cases hexec
        exact .unchanged howned
  | unhideWindow id =>
      rw [perform] at hexec
      by_cases hat : ∃ i, f.tileMembership id = some ⟨i, .hidden⟩
      · obtain ⟨i, hat⟩ := hat
        obtain ⟨wsp', h, hunhide⟩ := unhideWindow_spec howned.sound (hunique id) hat
        rw [hunhide] at hexec
        cases hexec
        refine .switch howned .nothing (fun _ => nofun) h (fun _ => rfl) fun wsp'' hwsp'' hne => ?_
        have hother : f.active = some wsp'' :=
          (List.getElem?_set_ne (Ne.symm hne)).symm.trans hwsp''
        exact ⟨wsp'', [], hother, rfl, List.Perm.refl _, nofun⟩
      · rw [unhideWindow_refused (not_exists.1 hat)] at hexec
        cases hexec
        exact .unchanged howned
  | moveAttachedToWorkspace id target follow =>
      exact move_account howned target follow hexec
  | sendTileToWorkspace id target follow =>
      exact send_account howned target follow hexec
  | insertRestoredHidden workspace window previousPlacement =>
      rw [perform] at hexec
      rcases insertRestoredHidden_cases window workspace previousPlacement howned.sound with
        ⟨error, hrefused⟩ | ⟨wsp, wsp', next, hwsp, -, hnone, h, hsub, hinsert⟩
      · rw [hrefused] at hexec
        cases hexec
        exact .unchanged howned
      · rw [hinsert] at hexec
        cases hexec
        refine ⟨⟨_, [], .restored, .nothing, fun _ tile htile => ?_, h.trades⟩,
          h.sound howned.sound, fun _ => h.aimed, fun _ => SoloHidden.set rfl rfl hwsp hsub, nofun⟩
        rw [List.mem_singleton.1 htile]
        exact tileMembership_eq_none.1 hnone
  | openEphemeralWorkspaceIn content project =>
      cases hexec
      exact openEphemeral_account howned rfl rfl fun h => h
  | openEphemeralWorkspace content =>
      cases hexec
      exact openEphemeral_account howned rfl rfl fun h => h
  | dismissEphemeralWorkspace =>
      cases hexec
      exact dismiss_account howned
  | setActiveWorkspace idx =>
      cases hexec
      exact .setActive howned idx
  | nextWorkspace =>
      cases hexec
      rw [nextWorkspace]
      split
      · exact .unchanged howned
      · exact .setActive howned _
  | prevWorkspace =>
      cases hexec
      rw [prevWorkspace]
      split
      · exact .unchanged howned
      · exact .setActive howned _
  | workspaceBackAndForth =>
      cases hexec
      show Account f _ _ f.workspaceBackAndForth.1
      rcases workspaceBackAndForth_cases f with hstay | ⟨target, hswitch⟩
      · rw [hstay]
        exact .unchanged howned
      · rw [hswitch]
        exact .setActive howned target
  | focusNext => exact focusOn_account howned (fun h => h) hexec
  | focusPrev => exact focusOn_account howned (fun h => h) hexec
  | focusMotion dir => exact focusOn_account howned (fun h => h) hexec
  | focusTile id =>
      cases hexec
      exact focusTile_account howned id
  | presentSolo id =>
      cases hexec
      exact present_account howned id
  | clearSoloPresentation =>
      cases hexec
      exact .same howned rfl fun _ => .of_none rfl
  | restoreSoloPresentation id =>
      cases hexec
      exact restoreSolo_account howned id
  | swapFocusedDirection workspace dir =>
      cases hexec
      exact arrange_account howned workspace (.swap dir)
  | rotatePlacements workspace forward =>
      cases hexec
      exact arrange_account howned workspace (.rotate forward)
  | undoArrangement workspace =>
      cases hexec
      exact arrange_account howned workspace .undo
  | setView workspace view =>
      cases hexec
      exact arrange_account howned workspace (.setView view)
  | increasePrimaryCount workspace =>
      cases hexec
      exact arrange_account howned workspace .increase
  | decreasePrimaryCount workspace =>
      cases hexec
      exact arrange_account howned workspace .decrease
  | reconcile workspace near newSpan =>
      cases hexec
      exact arrange_account howned workspace (.reconcile near newSpan)

/-! ### Runs -/

theorem withInitial_owned (content : C) (project : ProjectId) :
    (withInitial content project).Owned := by
  have h := (new project).pushInitialWorkspace_spec content project
  refine ⟨h.sound nofun, ?_⟩
  show [(1 : WindowId)].Nodup
  exact List.nodup_singleton 1

/-- Tiles keep their one place while no id is given twice. -/
theorem Account.owned (h : Account f a outcome f') (howned : f.Owned) (hfresh : f.Fresh a) :
    f'.Owned := by
  obtain ⟨born, retired, hborn, -, hnew, htrades⟩ := h.trades
  have hdistinct : (born.map Window.id).Nodup := by
    cases hborn with
    | nothing => exact List.nodup_nil
    | opened => exact List.nodup_singleton _
    | restored => exact List.nodup_singleton _
  exact ⟨h.sound, (htrades.nodup Window.id howned.distinct hdistinct (hnew hfresh)).1⟩

/-- A step is an operation that did not panic. -/
theorem step_cases (h : f.step a = some f') :
    ∃ outcome, (perform a).exec f = (outcome, f') ∧ outcome ≠ .error .panicked := by
  rw [step] at h
  split at h
  · cases h
  · next outcome f'' hran hexec =>
      cases h
      exact ⟨outcome, hexec, hran⟩

theorem owned_of_reaches (h : (machine C).Reaches Fresh f) : f.Owned := by
  refine h.invariant ?_ fun f a f' howned hfresh hstep => ?_
  · rintro _ ⟨content, project, rfl⟩
    exact withInitial_owned content project
  · obtain ⟨outcome, hexec, hran⟩ := step_cases hstep
    exact (account howned hexec hran).owned howned hfresh

/-- While no operation gives a tile an id that another has, every tile has
one place in a workspace of its project, no operation but those that
close tiles takes one away, and what is refused moves none. -/
theorem tiles_conserved (h : (machine C).Reaches Fresh f) :
    f.Owned ∧ ∀ a outcome f', f.Fresh a → (perform a).exec f = (outcome, f') →
      outcome ≠ .error .panicked →
        (∃ born retired, Brings f a born ∧ Retires f a retired ∧
          (∀ tile ∈ born, tile.id ∉ f.ids) ∧
          Trades Workspace.tiles f.workspaces f'.workspaces born retired) ∧
        ∀ e, outcome = .error e → f'.placement = f.placement := by
  have howned := owned_of_reaches h
  refine ⟨howned, fun a outcome f' hfresh hexec hran => ?_⟩
  have haccount := account howned hexec hran
  obtain ⟨born, retired, hborn, hretired, hnew, htrades⟩ := haccount.trades
  exact ⟨⟨born, retired, hborn, hretired, hnew hfresh, htrades⟩, haccount.refused⟩

/-- A tile is split off, hidden and sent to the workspace of another tile,
which is closed; then a tile that is gone should be hidden. -/
theorem tiles_conserved_sent :
    ((machine Nat).run (withInitial 0 ⟨0⟩)
      [.splitFocused .h 1, .pushInitialWorkspace 2 ⟨0⟩, .hideWindow 2,
        .sendTileToWorkspace 2 1 true, .focusTile 3, .closeFocused]).map Frame.ids =
      some [1, 2] ∧
    ∀ f ∈ (machine Nat).run (withInitial 0 ⟨0⟩)
      [.splitFocused .h 1, .pushInitialWorkspace 2 ⟨0⟩, .hideWindow 2,
        .sendTileToWorkspace 2 1 true, .focusTile 3, .closeFocused],
      f.Owned ∧ ∀ f', (perform (.hideWindow 3)).exec f = (.error .refused, f') →
        f'.placement = f.placement := by
  refine ⟨by decide, fun f hrun => ?_⟩
  obtain ⟨howned, haccount⟩ :=
    tiles_conserved (.of_run (.start ⟨_, _, rfl⟩) (by decide) hrun)
  exact ⟨howned, fun f' hexec => (haccount _ _ _ (fun hopens => by cases hopens) hexec nofun).2 _ rfl⟩

/-- A restored tile may have the last id there is, which the next tile
that is opened is then given too. -/
theorem restored_last_id_given_again :
    ¬ ∀ (f : Frame Nat), (machine Nat).Reachable f → f.ids.Nodup := by
  intro hall
  have hrun : ((machine Nat).run (withInitial 0 ⟨0⟩)
      [.insertRestoredHidden 0 ⟨18446744073709551615, ⟨0⟩, 7⟩ none,
        .pushInitialWorkspace 1 ⟨0⟩]).map Frame.ids =
      some [1, 18446744073709551615, 18446744073709551615] := by decide
  obtain ⟨f, hf, hids⟩ := Option.map_eq_some_iff.1 hrun
  have hnodup := hall f (Machine.reachable_of_run ⟨_, _, rfl⟩ hf)
  rw [hids] at hnodup
  exact absurd hnodup (by decide)

end Frame

end Yaldabaoth
