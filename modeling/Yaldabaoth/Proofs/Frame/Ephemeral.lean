import Yaldabaoth.Proofs.Frame.Tiles

/-!
# `Yaldabaoth.Proofs.Frame.Ephemeral`: virtual workspaces are transient

Which workspaces are ephemeral is a list of flags, and every operation
writes it in one of a few ways: it stays, a workspace is added at its
end, or one is taken out. `Strip` is what flags and active index must
satisfy, and has a lemma for each of these. `Frame.virtual_workspaces_transient` is the
result over runs, with the operations that break it left out.
-/

set_option autoImplicit false

namespace Yaldabaoth

variable {C : Type}

/-! ### Flags and the active index -/

/-- The active index is one of the strip, no workspace but the active one
is ephemeral, and some workspace is not. -/
structure Strip (flags : List Bool) (active : Nat) : Prop where
  valid : active < flags.length
  single : ∀ i, flags[i]? = some true → i = active
  durable : false ∈ flags

namespace Strip

variable {flags : List Bool} {active i : Nat}

/-- A strip whose active workspace is durable has no ephemeral one. -/
theorem plain (h : Strip flags active) (hactive : flags[active]? ≠ some true) : true ∉ flags := by
  intro hmem
  obtain ⟨i, hi⟩ := List.mem_iff_getElem?.1 hmem
  rw [h.single i hi] at hi
  exact hactive hi

theorem of_plain (hplain : true ∉ flags) (hvalid : active < flags.length) : Strip flags active where
  valid := hvalid
  single := fun i hi => absurd (List.mem_of_getElem? hi) hplain
  durable := by
    cases hflag : flags[active] with
    | false => exact List.mem_of_getElem hflag
    | true => exact absurd (List.mem_of_getElem hflag) hplain

/-- What an ephemeral workspace leaves behind. -/
theorem eraseActive (h : Strip flags active) (hactive : flags[active]? = some true) :
    true ∉ flags.eraseIdx active ∧ flags.eraseIdx active ≠ [] := by
  constructor
  · intro hmem
    obtain ⟨i, hne, hi⟩ := List.mem_eraseIdx_iff_getElem?.1 hmem
    exact hne (h.single i hi)
  · -- The durable workspace is not the active one.
    obtain ⟨i, hi⟩ := List.mem_iff_getElem?.1 h.durable
    have hne : i ≠ active := by
      rintro rfl
      rw [hactive] at hi
      cases hi
    exact List.ne_nil_of_mem (List.mem_eraseIdx_iff_getElem?.2 ⟨i, hne, hi⟩)

/-- Another workspace than the active one goes. -/
theorem erase (h : Strip flags active) (hne : i ≠ active) (hi : i < flags.length)
    (hdurable : false ∈ flags.eraseIdx i) :
    Strip (flags.eraseIdx i) (if i < active then active - 1 else active) := by
  have hvalid := h.valid
  refine ⟨?_, fun k hk => ?_, hdurable⟩
  · rw [List.length_eraseIdx_of_lt hi]
    split <;> omega
  · rw [List.getElem?_eraseIdx] at hk
    split at hk
    · next hlt =>
        have hactive := h.single k hk
        rw [if_neg (by omega)]
        exact hactive
    · next hge =>
        have hactive := h.single (k + 1) hk
        rw [if_pos (by omega)]
        omega

theorem push (hplain : true ∉ flags) (flag : Bool) (hne : flag = true → flags ≠ []) :
    Strip (flags ++ [flag]) flags.length := by
  refine ⟨by simp, fun i hi => ?_, ?_⟩
  · rw [List.getElem?_append] at hi
    split at hi
    · exact absurd (List.mem_of_getElem? hi) hplain
    · have hlast := (List.getElem?_eq_some_iff.1 hi).1
      rw [List.length_singleton] at hlast
      omega
  · cases flag with
    | false => exact List.mem_append_right _ (List.mem_singleton_self _)
    | true =>
        obtain ⟨first, rest, hflags⟩ := List.exists_cons_of_ne_nil (hne rfl)
        have hpos : 0 < flags.length := by rw [hflags]; exact Nat.succ_pos _
        exact List.mem_append_left _ (of_plain hplain hpos).durable

end Strip

namespace Frame

open Workspace (Rearranged AllSound)

variable {f f' g : Frame C} {a : Action C} {outcome : Except Fault PUnit} {id : WindowId} {i : Nat}

/-! ### The frame's strip -/

theorem isEphemeral_flags : f.isEphemeral i = true ↔ f.flags[i]? = some true := by
  rw [flags, List.getElem?_map, isEphemeral_iff, Option.map_eq_some_iff]

theorem activeIsEphemeral_flags :
    f.activeIsEphemeral = false ↔ f.flags[f.activeWorkspace]? ≠ some true := by
  rw [Ne, ← isEphemeral_flags, Bool.not_eq_true]
  exact Iff.rfl

theorem length_flags (f : Frame C) : f.flags.length = f.workspaces.length := List.length_map _

/-- Virtual workspaces are transient. -/
def Transient (f : Frame C) : Prop := Strip f.flags f.activeWorkspace

/-- With that, the workspaces are sound. -/
structure Settled (f : Frame C) : Prop where
  sound : AllSound f.workspaces
  transient : f.Transient

/-- A change of what the workspaces hold. -/
theorem Settled.same (h : f.Settled) (hsound : AllSound f'.workspaces)
    (hflags : f'.flags = f.flags) (hactive : f'.activeWorkspace = f.activeWorkspace) :
    f'.Settled := by
  refine ⟨hsound, ?_⟩
  rw [Transient, hflags, hactive]
  exact h.transient

/-- A change of what one workspace holds. -/
theorem Settled.set {wsp wsp' : Workspace C} (h : f.Settled) (hat : f.workspaces[i]? = some wsp)
    (hsound : AllSound (f.workspaces.set i wsp')) (hephemeral : wsp'.ephemeral = wsp.ephemeral)
    (hws : f'.workspaces = f.workspaces.set i wsp')
    (hactive : f'.activeWorkspace = f.activeWorkspace) : f'.Settled := by
  refine h.same (hws ▸ hsound) ?_ hactive
  rw [flags, hws]
  exact map_ephemeral_set hat hephemeral

theorem Settled.update (h : f.Settled) {change : Workspace C → Workspace C}
    (hchange : ∀ wsp, f.workspaces[i]? = some wsp → wsp.Sound →
      (change wsp).Sound ∧ (change wsp).ephemeral = wsp.ephemeral) :
    (f.updateWorkspace i change).Settled := by
  rw [updateWorkspace]
  split
  · next wsp hat =>
      obtain ⟨hsound, hephemeral⟩ := hchange wsp hat (h.sound wsp (List.mem_of_getElem? hat))
      refine h.set hat (fun other hother => ?_) hephemeral rfl rfl
      rcases List.mem_or_eq_of_mem_set hother with hold | rfl
      · exact h.sound other hold
      · exact hsound
  · exact h

theorem Settled.arrange (h : f.Settled) {change : Workspace C → Workspace C}
    (hchange : Workspace.Arranges change) : (f.updateWorkspace i change).Settled := by
  refine h.update fun wsp _ hsound => ?_
  obtain ⟨desktop, view, primaryCount, harranged⟩ := hchange wsp
  rw [harranged]
  exact ⟨⟨hsound.tidy, hsound.home⟩, rfl⟩

/-- A workspace that is left and was ephemeral is torn down. -/
theorem Settled.setActive (h : f.Settled) (idx : Nat) : (f.setActiveWorkspace idx).Settled := by
  by_cases hidx : f.workspaces.length ≤ idx
  · rw [setActiveWorkspace, if_pos hidx]
    exact h
  obtain ⟨-, ⟨hne, hephemeral, hws, hactive⟩ | ⟨hstays, hws, hactive⟩⟩ :=
    setActiveWorkspace_spec (Nat.not_le.1 hidx)
  · have hflag := isEphemeral_flags.1 hephemeral
    have hflags : (f.setActiveWorkspace idx).flags = f.flags.eraseIdx f.activeWorkspace := by
      rw [flags, hws, flags, List.eraseIdx_map]
    have hvalid := h.transient.valid
    refine ⟨fun wsp hwsp => ?_, ?_⟩
    · rw [hws] at hwsp
      exact h.sound wsp (List.mem_of_mem_eraseIdx hwsp)
    · rw [Transient, hflags, hactive]
      refine .of_plain (h.transient.eraseActive hflag).1 ?_
      rw [List.length_eraseIdx_of_lt hvalid]
      rw [length_flags] at hvalid ⊢
      split <;> omega
  · have hflags : (f.setActiveWorkspace idx).flags = f.flags := by rw [flags, hws, flags]
    refine ⟨hws ▸ h.sound, ?_⟩
    rw [Transient, hflags, hactive]
    by_cases hsame : f.activeWorkspace = idx
    · rw [← hsame]
      exact h.transient
    · have hdurable : f.activeIsEphemeral = false := by
        rw [← Bool.not_eq_true]
        exact fun htrue => hstays ⟨hsame, htrue⟩
      refine .of_plain (h.transient.plain (activeIsEphemeral_flags.1 hdurable)) ?_
      rw [length_flags]
      exact Nat.not_le.1 hidx

/-! ### Taking a hidden tile out and showing it -/

theorem keeps_removeHidden (workspace position : Nat) :
    Effect.Keeps Settled (removeHidden (C := C) workspace position) := by
  refine Effect.Keeps.get.bind fun f => ?_
  split
  · exact .throw _
  · refine (Effect.Keeps.modify fun f h => h.update fun wsp _ hsound => ⟨⟨hsound.tidy, ?_⟩, rfl⟩).bind
      fun _ => .pure _
    intro tile htile
    refine hsound.home tile ?_
    rcases List.mem_append.1 htile with hleaf | hhidden
    · exact List.mem_append_left _ hleaf
    · exact List.mem_append_right _ (List.map_subset _ (List.eraseIdx_subset ..) hhidden)

theorem keeps_insertLeaf (workspaceIdx : Nat) (window : Window C) :
    Effect.Keeps Settled (insertLeafIntoWorkspace workspaceIdx window) := by
  intro f h
  rw [Effect.Ends]
  rcases insertLeaf_cases (f := f) workspaceIdx window with hrefused | ⟨wsp, hwsp, hproject, hinsert⟩
  · rw [hrefused]
    exact h
  · rw [hinsert]
    obtain ⟨hbecomes, haimed⟩ :=
      insertLeaf_becomes window wsp.desktop (h.sound wsp (List.mem_of_getElem? hwsp))
    have hhome : ∀ tile ∈ [window], tile.project = wsp.project := by
      intro tile htile
      rw [List.mem_singleton.1 htile, hproject]
    have hsound := (Rearranged.set hwsp hbecomes hhome fun _ => haimed).sound h.sound
    exact h.set hwsp hsound hbecomes.ephemeral rfl rfl

theorem keeps_unhideWindow (id : WindowId) : Effect.Keeps Settled (unhideWindow (C := C) id) := by
  refine Effect.Keeps.get.bind fun f => ?_
  split
  · next workspace _ =>
      split
      · exact .throw _
      · next position _ =>
          refine (keeps_removeHidden workspace position).bind fun hidden => ?_
          refine (Effect.Keeps.modify fun f h => h.same h.sound rfl rfl).bind fun _ => ?_
          refine (keeps_insertLeaf workspace hidden.window).bind fun _ => ?_
          refine (Effect.Keeps.modify fun f h => h.arrange (.plane _)).bind fun _ => ?_
          have hthere : Effect.Keeps Settled (do
              modify fun f => f.updateWorkspace workspace fun wsp => { wsp with focused := id }
              modify fun f => f.setActiveWorkspace workspace : FrameOp C PUnit) :=
            (Effect.Keeps.modify fun f h => h.update fun wsp _ hsound =>
              ⟨⟨hsound.tidy, hsound.home⟩, rfl⟩).bind fun _ => .modify fun f h => h.setActive _
          split
          · exact (Effect.Keeps.modify fun f h => h.arrange (.plane _)).bind fun _ => hthere
          · exact hthere
  · exact .throw _

/-- A hidden tile is sent like it is shown: taken out and put in. -/
theorem keeps_sendHidden {source : Nat} (hat : f.tileMembership id = some ⟨source, .hidden⟩)
    (target : Nat) (follow : Bool) (h : f.Settled) :
    ((sendTileToWorkspace id target follow).exec f).2.Settled := by
  have hends : Effect.Ends (sendTileToWorkspace id target follow) f
      (fun _ => Settled) (fun _ => Settled) := by
    cases hsource : f.workspaces[source]? with
    | none =>
        simp only [sendTileToWorkspace, Effect.ends_bind, Effect.ends_get, hat, hsource]
        exact h
    | some sourceWsp =>
    cases htarget : f.workspaces[target]? with
    | none =>
        simp only [sendTileToWorkspace, Effect.ends_bind, Effect.ends_get, hat, hsource, htarget]
        exact h
    | some targetWsp =>
    by_cases hproject : targetWsp.project = sourceWsp.project
    · cases hposition : f.hiddenPosition source id with
      | none =>
          simp only [sendTileToWorkspace, Effect.ends_bind, Effect.ends_get, hat, hsource, htarget,
            hproject, ne_eq, not_true_eq_false, if_false, hposition]
          exact h
      | some position =>
          have hrest : Effect.Keeps Settled (do
              let hidden ← removeHidden source position
              modify fun f => { f with soloPresentation := none }
              insertLeafIntoWorkspace target hidden.window
              modify fun f => f.reconcileWorkspace target (some id)
              modify fun f' =>
                f'.setActiveWorkspace (if follow then target else f.activeWorkspace) :
                  FrameOp C PUnit) := by
            refine (keeps_removeHidden source position).bind fun hidden => ?_
            refine (Effect.Keeps.modify fun f h => h.same h.sound rfl rfl).bind fun _ => ?_
            refine (keeps_insertLeaf target hidden.window).bind fun _ => ?_
            refine (Effect.Keeps.modify fun f h => h.arrange (.plane _)).bind fun _ => ?_
            exact .modify fun f h => h.setActive _
          have hends := hrest f h
          simp only [sendTileToWorkspace, Effect.ends_bind, Effect.ends_get, hat, hsource, htarget,
            hproject, ne_eq, not_true_eq_false, if_false, hposition] at hends ⊢
          exact hends
    · simp only [sendTileToWorkspace, Effect.ends_bind, Effect.ends_get, hat, hsource, htarget,
        hproject, ne_eq, not_false_eq_true, if_true]
      exact h
  unfold Effect.Ends at hends
  split at hends
  · next hexec =>
      rw [hexec]
      exact hends
  · next hexec =>
      rw [hexec]
      exact hends

/-! ### The operations that add and remove workspaces -/

/-- A durable workspace is left when this one goes. -/
def LeavesDurable (f : Frame C) (idx : Nat) : Prop := false ∈ f.flags.eraseIdx idx

instance (f : Frame C) (idx : Nat) : Decidable (f.LeavesDurable idx) :=
  inferInstanceAs (Decidable (_ ∈ _))

/-- A move does not leave an active ephemeral workspace behind. When the
source goes with its last tile, it is not the last durable workspace. -/
def MovesOff (f : Frame C) (source target : Nat) (sourceWsp : Workspace C) (follow : Bool) : Prop :=
  if sourceWsp.tiles.length = 1 then
    f.LeavesDurable source ∧
      (f.activeIsEphemeral = true → f.activeWorkspace = source ∨ f.activeWorkspace = target)
  else follow = true → f.activeIsEphemeral = true → f.activeWorkspace = target

instance (f : Frame C) (source target : Nat) (sourceWsp : Workspace C) (follow : Bool) :
    Decidable (f.MovesOff source target sourceWsp follow) := by
  unfold MovesOff
  infer_instance

/-- What the operation must respect to leave virtual workspaces
transient. Nothing is asked of those that switch. -/
def Graceful (f : Frame C) : Action C → Prop
  | .pushInitialWorkspace _ _ => f.activeIsEphemeral = false
  | .pushWorkspaceInheriting _ => f.activeIsEphemeral = false
  | .openTileInProject _ project => f.workspaceFor project = none → f.activeIsEphemeral = false
  | .closeWorkspace idx =>
      idx < f.workspaces.length → 1 < f.workspaces.length → f.LeavesDurable idx
  | .moveAttachedToWorkspace id target follow | .sendTileToWorkspace id target follow =>
      ∀ source ∈ f.visibleWorkspaceIndexOfWindow id, ∀ sourceWsp ∈ f.workspaces[source]?,
        ∀ targetWsp ∈ f.workspaces[target]?, source ≠ target →
          sourceWsp.project = targetWsp.project →
            f.ids.count id ≤ 1 ∧ f.MovesOff source target sourceWsp follow
  | _ => True

instance (f : Frame C) : (a : Action C) → Decidable (f.Graceful a)
  | .pushInitialWorkspace .. | .pushWorkspaceInheriting _ | .openTileInProject .. | .closeWorkspace _
  | .moveAttachedToWorkspace .. | .sendTileToWorkspace .. | .splitFocused .. | .closeFocused | .only
  | .hideWindow _ | .unhideWindow _ | .insertRestoredHidden .. | .openEphemeralWorkspaceIn ..
  | .openEphemeralWorkspace _ | .dismissEphemeralWorkspace | .setActiveWorkspace _
  | .nextWorkspace | .prevWorkspace | .workspaceBackAndForth | .focusNext | .focusPrev
  | .focusMotion _ | .focusTile _ | .presentSolo _ | .clearSoloPresentation
  | .restoreSoloPresentation _ | .swapFocusedDirection .. | .rotatePlacements ..
  | .undoArrangement _ | .setView .. | .increasePrimaryCount _ | .decreasePrimaryCount _
  | .reconcile .. => by
      dsimp only [Graceful]
      infer_instance

theorem Settled.push (h : f.Settled) (content : C) (project : ProjectId)
    (hactive : f.activeIsEphemeral = false) :
    (f.pushInitialWorkspace content project).2.Settled := by
  refine ⟨(f.pushInitialWorkspace_spec content project).sound h.sound, ?_⟩
  have hflags : (f.pushInitialWorkspace content project).2.flags = f.flags ++ [false] :=
    List.map_append
  have hplain := h.transient.plain (activeIsEphemeral_flags.1 hactive)
  show Strip (f.pushInitialWorkspace content project).2.flags f.workspaces.length
  rw [hflags, ← length_flags]
  exact .push hplain false nofun

theorem Settled.openEphemeral (h : f.Settled) (content : C) (project : ProjectId) :
    (f.openEphemeralWorkspaceIn content project).2.Settled := by
  obtain ⟨retired, hre, -⟩ := f.openEphemeralWorkspaceIn_spec content project
  refine ⟨hre.sound h.sound, ?_⟩
  have hflags : (f.openEphemeralWorkspaceIn content project).2.flags =
      f.roomForEphemeral.flags ++ [true] := List.map_append
  show Strip (f.openEphemeralWorkspaceIn content project).2.flags f.roomForEphemeral.workspaces.length
  rw [hflags, ← length_flags]
  cases hephemeral : f.activeIsEphemeral with
  | false =>
      have hplain := h.transient.plain (activeIsEphemeral_flags.1 hephemeral)
      rw [roomForEphemeral_false hephemeral]
      exact .push hplain true fun _ => List.ne_nil_of_mem h.transient.durable
  | true =>
      obtain ⟨hplain, hne⟩ := h.transient.eraseActive (isEphemeral_flags.1 hephemeral)
      have herase : f.roomForEphemeral.flags = f.flags.eraseIdx f.activeWorkspace := by
        rw [roomForEphemeral_true hephemeral, flags, flags, List.eraseIdx_map]
      rw [herase]
      exact .push hplain true fun _ => hne

theorem Settled.dismiss (h : f.Settled) : f.dismissEphemeralWorkspace.Settled := by
  cases hephemeral : f.activeIsEphemeral with
  | false =>
      rw [dismissEphemeralWorkspace, if_pos hephemeral]
      exact h
  | true =>
      obtain ⟨hplain, hne⟩ := h.transient.eraseActive (isEphemeral_flags.1 hephemeral)
      have hpos := List.length_pos_iff_ne_nil.2 hne
      rw [flags, List.eraseIdx_map] at hplain hpos
      rw [List.length_map] at hpos
      rw [dismissEphemeralWorkspace, if_neg (by rw [hephemeral]; decide)]
      refine ⟨fun wsp hwsp => h.sound wsp (List.mem_of_mem_eraseIdx hwsp), .of_plain hplain ?_⟩
      rw [length_flags]
      dsimp only
      -- Wherever it goes from here, it is an index of what is left.
      split
      · split <;> omega
      · omega

theorem Settled.close (h : f.Settled) {idx : Nat} (hgraceful : f.Graceful (.closeWorkspace idx)) :
    (f.closeWorkspace idx).Settled := by
  by_cases hkeep : f.workspaces.length ≤ idx ∨ f.workspaces.length ≤ 1
  · rw [closeWorkspace, if_pos hkeep]
    exact h
  obtain ⟨hidx, hone⟩ := not_or.1 hkeep
  have hdurable := hgraceful (Nat.not_le.1 hidx) (Nat.not_le.1 hone)
  have hws : (f.closeWorkspace idx).workspaces = f.workspaces.eraseIdx idx := by
    rw [closeWorkspace, if_neg hkeep]
  have hflags : (f.closeWorkspace idx).flags = f.flags.eraseIdx idx := by
    rw [flags, hws, flags, List.eraseIdx_map]
  have hlength : (f.workspaces.eraseIdx idx).length = f.workspaces.length - 1 :=
    List.length_eraseIdx_of_lt (Nat.not_le.1 hidx)
  have hactive : (f.closeWorkspace idx).activeWorkspace =
      if f.workspaces.length - 1 ≤ f.activeWorkspace then f.workspaces.length - 1 - 1
      else if idx < f.activeWorkspace then f.activeWorkspace - 1 else f.activeWorkspace := by
    rw [closeWorkspace, if_neg hkeep, ← hlength]
  have hvalid := h.transient.valid
  refine ⟨?_, ?_⟩
  · intro wsp hwsp
    rw [hws] at hwsp
    exact h.sound wsp (List.mem_of_mem_eraseIdx hwsp)
  rw [Transient, hflags, hactive]
  rw [length_flags] at hvalid
  by_cases hother : f.flags[f.activeWorkspace]? = some true ∧ idx ≠ f.activeWorkspace
  · -- The ephemeral workspace stays, and stays active.
    have herase := h.transient.erase hother.2 (length_flags f ▸ Nat.not_le.1 hidx) hdurable
    have hsame : (if f.workspaces.length - 1 ≤ f.activeWorkspace then f.workspaces.length - 1 - 1
        else if idx < f.activeWorkspace then f.activeWorkspace - 1 else f.activeWorkspace) =
          if idx < f.activeWorkspace then f.activeWorkspace - 1 else f.activeWorkspace := by
      have hne := hother.2
      split
      · rw [if_pos (by omega)]
        omega
      · rfl
    rw [hsame]
    exact herase
  · have hplain : true ∉ f.flags.eraseIdx idx := by
      by_cases hflag : f.flags[f.activeWorkspace]? = some true
      · have hsame : idx = f.activeWorkspace := not_not.1 fun hne => hother ⟨hflag, hne⟩
        rw [hsame]
        exact (h.transient.eraseActive hflag).1
      · exact fun hmem => h.transient.plain hflag (List.mem_of_mem_eraseIdx hmem)
    refine .of_plain hplain ?_
    rw [List.length_eraseIdx_of_lt (length_flags f ▸ Nat.not_le.1 hidx), length_flags]
    split
    · omega
    · split <;> omega

/-- The tile that is moved takes the active workspace along, or leaves a
durable one. -/
theorem Settled.move (h : f.Settled) {source target : Nat} {sourceWsp targetWsp : Workspace C}
    {follow : Bool} (hmoves : f.Moves id target source sourceWsp targetWsp)
    (hmoved : f.Moved source target sourceWsp follow f')
    (hoff : f.MovesOff source target sourceWsp follow) : f'.Settled := by
  refine ⟨hmoved.rearranged.sound h.sound, ?_⟩
  have hne := hmoves.elsewhere
  have hsource : source < f.flags.length := by
    rw [length_flags]
    exact (List.getElem?_eq_some_iff.1 hmoves.departs).1
  have htarget : target < f.flags.length := by
    rw [length_flags]
    exact (List.getElem?_eq_some_iff.1 hmoves.arrives).1
  rcases hmoved.strip with ⟨hothers, hflags, hactive⟩ | ⟨hone, hflags, hactive⟩
  · rw [MovesOff, if_neg hothers] at hoff
    rw [Transient, hflags, hactive]
    cases follow with
    | false => exact h.transient
    | true =>
        cases hephemeral : f.activeIsEphemeral with
        | true =>
            have hsame := hoff rfl hephemeral
            rw [if_pos rfl, ← hsame]
            exact h.transient
        | false =>
            exact .of_plain (h.transient.plain (activeIsEphemeral_flags.1 hephemeral)) htarget
  · rw [MovesOff, if_pos hone] at hoff
    obtain ⟨hdurable, hactives⟩ := hoff
    rw [Transient, hflags, hactive]
    have hvalid : (if source < target then target - 1 else target) <
        (f.flags.eraseIdx source).length := by
      rw [List.length_eraseIdx_of_lt hsource]
      split <;> omega
    cases hephemeral : f.activeIsEphemeral with
    | true =>
        rcases hactives hephemeral with hsame | hsame
        · rw [← hsame] at hvalid ⊢
          exact .of_plain (h.transient.eraseActive (isEphemeral_flags.1 hephemeral)).1 hvalid
        · rw [← hsame]
          exact h.transient.erase (hsame ▸ hne) hsource hdurable
    | false =>
        have hplain := h.transient.plain (activeIsEphemeral_flags.1 hephemeral)
        exact .of_plain (fun hmem => hplain (List.mem_of_mem_eraseIdx hmem)) hvalid

/-! ### Any operation -/

theorem Settled.openTile (h : f.Settled) {content : C} {project : ProjectId}
    (hgraceful : f.Graceful (.openTileInProject content project)) :
    ((openTileInProject content project).exec f).1 = .error .panicked ∨
      ((openTileInProject content project).exec f).2.Settled := by
  rcases openTileInProject_cases h.sound content project with ⟨hnone, hpush⟩ | ⟨f'', hpanic⟩ |
    ⟨target, wsp, wsp', hwsp, -, hephemeral, hre, hset⟩
  · rw [hpush]
    exact .inr (h.push content project (hgraceful hnone))
  · rw [hpanic]
    exact .inl rfl
  · rw [hset]
    refine .inr (Settled.setActive ?_ target)
    exact h.set hwsp (hre.sound h.sound) hephemeral rfl rfl

theorem Settled.moveAttached (h : f.Settled) (target : Nat) (follow : Bool)
    (hgraceful : f.Graceful (.moveAttachedToWorkspace id target follow)) :
    ((moveAttachedToWorkspace id target follow).exec f).2.Settled := by
  have hoff (source : Nat) (sourceWsp targetWsp : Workspace C)
      (hmoves : f.Moves id target source sourceWsp targetWsp) :=
    hgraceful source hmoves.visible sourceWsp hmoves.departs targetWsp hmoves.arrives
      hmoves.elsewhere hmoves.project
  rcases moveAttached_cases h.sound target follow fun _ _ _ hmoves => (hoff _ _ _ hmoves).1 with
    hrefused | ⟨source, sourceWsp, targetWsp, f'', hmoves, hmoved, hmove⟩
  · rw [hrefused]
    exact h
  · rw [hmove]
    exact h.move hmoves hmoved (hoff _ _ _ hmoves).2

theorem Settled.sendTile (h : f.Settled) (target : Nat) (follow : Bool)
    (hgraceful : f.Graceful (.sendTileToWorkspace id target follow)) :
    ((sendTileToWorkspace id target follow).exec f).2.Settled := by
  rcases sendTile_cases (f := f) id target follow with ⟨outcome, hstay, -⟩ | hmove | ⟨source, hat⟩
  · rw [hstay]
    exact h
  · rw [hmove]
    exact h.moveAttached target follow hgraceful
  · exact keeps_sendHidden hat target follow h

theorem Settled.focusOn (h : f.Settled) (target : Workspace C → Option WindowId) :
    ((focusOn target).exec f).2.Settled := by
  rcases focusOn_cases (f := f) target with ⟨outcome, hsame, -⟩ | ⟨wsp, next, -, hwsp, -, hset⟩
  · rw [hsame]
    exact h
  · have hbecomes : wsp.Becomes { wsp with focused := next } [] [] :=
      .of_same (h.sound wsp (List.mem_of_getElem? hwsp)) rfl rfl rfl rfl
    have hsound : AllSound (f.workspaces.set f.activeWorkspace { wsp with focused := next }) := by
      intro other hother
      rcases List.mem_or_eq_of_mem_set hother with hold | rfl
      · exact h.sound other hold
      · exact hbecomes.sound (h.sound wsp (List.mem_of_getElem? hwsp)) nofun
    rw [hset]
    exact h.set hwsp hsound rfl rfl rfl

theorem Settled.focusTile (h : f.Settled) (id : WindowId) : (f.focusTile id).1.Settled := by
  rw [Frame.focusTile]
  split
  · next workspace _ =>
      show ((f.updateWorkspace workspace fun wsp =>
        { wsp with focused := id }).setActiveWorkspace workspace).Settled
      refine Settled.setActive (h.update fun wsp _ hsound => ?_) workspace
      exact ⟨⟨hsound.tidy, hsound.home⟩, rfl⟩
  · rw [presentSolo]
    split
    · exact h.same h.sound rfl rfl
    · exact h
  · exact h

theorem Settled.performed (h : f.Settled) (hgraceful : f.Graceful a)
    (hexec : (perform a).exec f = (outcome, f')) (hran : outcome ≠ .error .panicked) :
    f'.Settled := by
  have hdiscard {α : Type} (m : FrameOp C α) (hm : (m.exec f).1 = .error .panicked ∨
      (m.exec f).2.Settled) (hexec : (do let _ ← m : FrameOp C PUnit).exec f = (outcome, f')) :
      f'.Settled := by
    rw [exec_discard] at hexec
    rcases hrun : m.exec f with ⟨result, f''⟩
    rw [hrun] at hexec hm
    cases result with
    | ok value =>
        cases hexec
        exact hm.resolve_left nofun
    | error e =>
        cases hexec
        exact hm.resolve_left fun he => hran (congrArg Except.error (Except.error.inj he))
  have hplain (hm : ((perform a).exec f).2.Settled) : f'.Settled := by
    rw [hexec] at hm
    exact hm
  cases a with
  | pushInitialWorkspace content project => exact hplain (h.push content project hgraceful)
  | pushWorkspaceInheriting content => exact hplain (h.push content f.inheritedProject hgraceful)
  | openTileInProject content project => exact hdiscard _ (h.openTile hgraceful) hexec
  | splitFocused dir content =>
      obtain ⟨answer, f'', hsplit, hactive, -, hws⟩ := splitFocused_cases h.sound dir content
      refine hdiscard _ (.inr ?_) hexec
      rw [hsplit]
      rcases hws with hws | ⟨wsp, wsp', -, hwsp, -, hephemeral, hws, hre⟩
      · refine h.same (hws ▸ h.sound) ?_ hactive
        rw [flags, hws, flags]
      · exact h.set hwsp (hws ▸ hre.sound h.sound) hephemeral hws hactive
  | closeFocused =>
      refine hdiscard _ (.inr ?_) hexec
      rcases closeFocused_cases h.sound with hrefused |
        ⟨index, wsp, wsp', window, hwsp, hephemeral, -, hre, answer, hclose⟩
      · rw [hrefused]
        exact h
      · rw [hclose]
        exact h.set hwsp (hre.sound h.sound) hephemeral rfl rfl
  | closeWorkspace idx => exact hplain (h.close hgraceful)
  | only =>
      refine hplain ?_
      show (Frame.only.exec f).2.Settled
      rcases only_cases h.sound with hrefused |
        ⟨wsp, wsp', window, others, hwsp, hephemeral, -, -, hre, honly⟩
      · rw [hrefused]
        exact h
      · rw [honly]
        exact h.set hwsp (hre.sound h.sound) hephemeral rfl rfl
  | hideWindow id =>
      refine hplain ?_
      show ((Frame.hideWindow id).exec f).2.Settled
      by_cases hat : ∃ i, f.tileMembership id = some ⟨i, .visible⟩
      · obtain ⟨i, hat⟩ := hat
        obtain ⟨wsp', ⟨wsp, hwsp, hephemeral⟩, hre, hhide⟩ := hideWindow_spec h.sound hat
        rw [hhide]
        exact h.set hwsp (hre.sound h.sound) hephemeral rfl rfl
      · rw [hideWindow_refused (not_exists.1 hat)]
        exact h
  | unhideWindow id => exact hplain ((keeps_unhideWindow id).exec h)
  | moveAttachedToWorkspace id target follow => exact hplain (h.moveAttached target follow hgraceful)
  | sendTileToWorkspace id target follow => exact hplain (h.sendTile target follow hgraceful)
  | insertRestoredHidden workspace window previousPlacement =>
      refine hplain ?_
      show ((Frame.insertRestoredHidden workspace window previousPlacement).exec f).2.Settled
      rcases insertRestoredHidden_cases window workspace previousPlacement h.sound with
        ⟨error, hrefused⟩ | ⟨wsp, wsp', next, hwsp, hephemeral, -, hre, -, hinsert⟩
      · rw [hrefused]
        exact h
      · rw [hinsert]
        exact h.set hwsp (hre.sound h.sound) hephemeral rfl rfl
  | openEphemeralWorkspaceIn content project => exact hplain (h.openEphemeral content project)
  | openEphemeralWorkspace content => exact hplain (h.openEphemeral content f.inheritedProject)
  | dismissEphemeralWorkspace => exact hplain h.dismiss
  | setActiveWorkspace idx => exact hplain (h.setActive idx)
  | nextWorkspace =>
      refine hplain ?_
      show f.nextWorkspace.Settled
      rw [nextWorkspace]
      split
      · exact h
      · exact h.setActive _
  | prevWorkspace =>
      refine hplain ?_
      show f.prevWorkspace.Settled
      rw [prevWorkspace]
      split
      · exact h
      · exact h.setActive _
  | workspaceBackAndForth =>
      refine hplain ?_
      show f.workspaceBackAndForth.1.Settled
      rcases workspaceBackAndForth_cases f with hstay | ⟨target, hswitch⟩
      · rw [hstay]
        exact h
      · rw [hswitch]
        exact h.setActive target
  | focusNext => exact hplain (h.focusOn _)
  | focusPrev => exact hplain (h.focusOn _)
  | focusMotion dir => exact hplain (h.focusOn _)
  | focusTile id => exact hplain (h.focusTile id)
  | presentSolo id =>
      refine hplain ?_
      show (f.presentSolo id).1.Settled
      rw [presentSolo]
      split
      · exact h.same h.sound rfl rfl
      · exact h
  | clearSoloPresentation => exact hplain (h.same h.sound rfl rfl)
  | restoreSoloPresentation id =>
      refine hplain ?_
      show (f.restoreSoloPresentation id).1.Settled
      rw [restoreSoloPresentation]
      split <;> exact h.same h.sound rfl rfl
  | swapFocusedDirection workspace dir => exact hplain (h.arrange (.swap dir))
  | rotatePlacements workspace forward => exact hplain (h.arrange (.rotate forward))
  | undoArrangement workspace => exact hplain (h.arrange .undo)
  | setView workspace view => exact hplain (h.arrange (.setView view))
  | increasePrimaryCount workspace => exact hplain (h.arrange .increase)
  | decreasePrimaryCount workspace => exact hplain (h.arrange .decrease)
  | reconcile workspace near newSpan => exact hplain (h.arrange (.reconcile near newSpan))

/-! ### Runs -/

theorem settled_of_reaches (h : (machine C).Reaches Graceful f) : f.Settled := by
  refine h.invariant ?_ fun f a f' hsettled hgraceful hstep => ?_
  · rintro _ ⟨content, project, rfl⟩
    exact ⟨((new project).pushInitialWorkspace_spec content project).sound nofun,
      .of_plain (by simp [flags, withInitial, pushInitialWorkspace, new, freshWorkspace,
        Workspace.withLayout, allocWindowId]) Nat.one_pos⟩
  · obtain ⟨outcome, hexec, hran⟩ := step_cases hstep
    exact hsettled.performed hgraceful hexec hran

/-- In a run of graceful operations the active index is one of a
workspace, an ephemeral workspace is the active one and never the only
one. -/
theorem virtual_workspaces_transient (h : (machine C).Reaches Graceful f) : f.Transient :=
  (settled_of_reaches h).transient

/-- A tile of an ephemeral workspace is moved to the workspace before it,
which does not take the virtual one along. -/
theorem virtual_workspaces_transient_promoted :
    ((machine Nat).run (withInitial 0 ⟨0⟩)
      [.pushInitialWorkspace 1 ⟨0⟩, .openEphemeralWorkspace 2, .splitFocused .h 3,
        .moveAttachedToWorkspace 4 0 false, .moveAttachedToWorkspace 3 1 false,
        .openEphemeralWorkspace 5, .closeWorkspace 0]).map
          (fun f => (f.flags, f.activeWorkspace)) = some ([false, true], 1) ∧
    ∀ f ∈ (machine Nat).run (withInitial 0 ⟨0⟩)
      [.pushInitialWorkspace 1 ⟨0⟩, .openEphemeralWorkspace 2, .splitFocused .h 3,
        .moveAttachedToWorkspace 4 0 false, .moveAttachedToWorkspace 3 1 false,
        .openEphemeralWorkspace 5, .closeWorkspace 0], f.Transient := by
  refine ⟨by decide, fun f hrun => ?_⟩
  exact virtual_workspaces_transient (.of_run (.start ⟨_, _, rfl⟩) (by decide) hrun)

/-- The last durable workspace can be closed while an ephemeral one is
active. -/
theorem last_durable_closed :
    ¬ ∀ (f : Frame Nat), (machine Nat).Reachable f → f.Transient := by
  intro hall
  have hrun : ((machine Nat).run (withInitial 0 ⟨0⟩)
      [.openEphemeralWorkspace 1, .closeWorkspace 0]).map flags = some [true] := by
    decide
  obtain ⟨f, hf, hflags⟩ := Option.map_eq_some_iff.1 hrun
  have hdurable := (hall f (Machine.reachable_of_run ⟨_, _, rfl⟩ hf)).durable
  rw [hflags] at hdurable
  exact absurd hdurable (by decide)

-- A workspace pushed from an ephemeral one leaves that behind.
example : ((machine Nat).run (withInitial 0 ⟨0⟩)
    [.openEphemeralWorkspace 1, .pushInitialWorkspace 2 ⟨0⟩]).map
      (fun f => (f.flags, f.activeWorkspace)) = some ([false, true, false], 2) := by
  decide

end Frame

end Yaldabaoth
