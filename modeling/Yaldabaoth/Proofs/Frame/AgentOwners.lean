import Yaldabaoth.Model.PersistedFrame

/-!
# `Yaldabaoth.Proofs.Frame.AgentOwners`: each session belongs to one stored tile

The repair goes twice through the tiles of the frame and numbers them
both times: first to collect who has which session, then to clear those
that do not own theirs. `Collects` and `Clears` say that both passes see
the tiles in the order of `PersistedFrame.placed`, and so that a number
means the same tile in both. `Least` is what the choice in between keeps:
the owner of a session is the least of its candidates.
-/

set_option autoImplicit false

namespace Yaldabaoth

variable {ρ : Type}

/-! ### The tiles of a frame -/

namespace PersistedLeaf

def sessionId (leaf : PersistedLeaf ρ) : Option ServerSid :=
  match leaf.kind with
  | .agent sessionId => sessionId
  | _ => none

/-- The leaf but for its session. -/
def withoutSid (leaf : PersistedLeaf ρ) : PersistedLeaf ρ :=
  match leaf.kind with
  | .agent _ => { leaf with kind := .agent none }
  | _ => leaf

end PersistedLeaf

namespace PersistedWorkspace

def tiles (ws : PersistedWorkspace ρ) : List (PersistedLeaf ρ) :=
  ws.layout.leaves ++ ws.hiddenTiles.map PersistedHiddenTile.tile

def withoutSids (ws : PersistedWorkspace ρ) : PersistedWorkspace ρ :=
  { ws with
      layout := ws.layout.map PersistedLeaf.withoutSid
      hiddenTiles := ws.hiddenTiles.map fun hidden => { hidden with tile := hidden.tile.withoutSid } }

end PersistedWorkspace

namespace PersistedFrame

def tiles (frame : PersistedFrame ρ) : List (PersistedLeaf ρ) :=
  frame.workspaces.flatMap PersistedWorkspace.tiles

/-- The tiles with the directories of their workspaces. -/
def placed (frame : PersistedFrame ρ) (fallbackCwd : String) : List (PersistedLeaf ρ × String) :=
  frame.workspaces.flatMap fun ws => ws.tiles.map fun leaf => (leaf, ws.projectCwd fallbackCwd)

/-- The session of a tile, the tiles counted through the whole frame. -/
def sidAt (frame : PersistedFrame ρ) (k : Nat) : Option ServerSid :=
  frame.tiles[k]?.bind PersistedLeaf.sessionId

/-- Everything in the frame but the sessions of its tiles. -/
def withoutSids (frame : PersistedFrame ρ) : PersistedFrame ρ :=
  { frame with workspaces := frame.workspaces.map PersistedWorkspace.withoutSids }

theorem placed_fst (frame : PersistedFrame ρ) (fallbackCwd : String) :
    (frame.placed fallbackCwd).map Prod.fst = frame.tiles := by
  rw [placed, tiles, List.map_flatMap]
  congr 1
  funext ws
  rw [List.map_map]
  exact List.map_id _

end PersistedFrame

/-! ### What the first pass collects -/

def candidateOf (t : (PersistedLeaf ρ × String) × Nat) : Option PersistedAgentCandidate :=
  (t.1.1.sessionId.filter fun sid => !sid.text.isEmpty).map fun sid =>
    ⟨sid.text, t.1.1.id, t.1.2, t.2⟩

/-- A pass that sees the tiles of the list in their order. -/
def Collects (pass : Collected → Collected) (seen : List (PersistedLeaf ρ × String)) : Prop :=
  ∀ order out, pass (order, out) =
    (order + seen.length, out ++ (seen.zipIdx order).filterMap candidateOf)

theorem collects_nil : Collects (fun acc => acc) ([] : List (PersistedLeaf ρ × String)) := by
  intro order out
  simp

theorem Collects.append {first second : Collected → Collected}
    {front back : List (PersistedLeaf ρ × String)} (hfirst : Collects first front)
    (hsecond : Collects second back) : Collects (fun acc => second (first acc)) (front ++ back) := by
  intro order out
  show second (first (order, out)) = _
  rw [hfirst, hsecond, List.length_append, List.zipIdx_append, List.filterMap_append,
    List.append_assoc, Nat.add_assoc]

theorem collects_leaf (projectCwd : String) (leaf : PersistedLeaf ρ) :
    Collects (collectLeaf projectCwd leaf) [(leaf, projectCwd)] := by
  intro order out
  simp only [collectLeaf, List.zipIdx_cons, List.zipIdx_nil, List.filterMap_cons,
    List.filterMap_nil, candidateOf, PersistedLeaf.sessionId, List.length_singleton]
  cases leaf.kind with
  | agent sessionId =>
      cases sessionId with
      | none => simp
      | some sid => by_cases hempty : sid.text.isEmpty <;> simp [Option.filter, hempty]
  | _ => simp

theorem collects_layout (projectCwd : String) (layout : PersistedLayout ρ) :
    Collects (collectPersistedAgentCandidates projectCwd layout)
      (layout.leaves.map fun leaf => (leaf, projectCwd)) := by
  refine SplitTree.byChildren
    (P := fun layout => Collects (collectPersistedAgentCandidates projectCwd layout)
      (layout.leaves.map fun leaf => (leaf, projectCwd)))
    (Q := fun children => Collects (collectChildren projectCwd children)
      ((SplitTree.leavesOf children).map fun leaf => (leaf, projectCwd)))
    ?_ ?_ ?_ ?_ ?_ layout
  · exact collects_nil
  · exact collects_leaf projectCwd
  · intro _ children ih
    exact ih
  · exact collects_nil
  · intro child rest hchild hrest
    rw [SplitTree.leavesOf_cons, List.map_append]
    exact hchild.append hrest

theorem collects_hidden (projectCwd : String) (hiddenTiles : List (PersistedHiddenTile ρ)) :
    Collects
      (hiddenTiles.foldl fun acc hidden =>
        (acc.1 + 1, collectHiddenAgentCandidate projectCwd hidden acc.1 acc.2))
      (hiddenTiles.map fun hidden => (hidden.tile, projectCwd)) := by
  induction hiddenTiles with
  | nil => exact collects_nil
  | cons hidden rest ih =>
      -- a hidden tile is collected as a leaf of a layout is
      have hfirst : Collects
          (fun acc => (acc.1 + 1, collectHiddenAgentCandidate projectCwd hidden acc.1 acc.2))
          [(hidden.tile, projectCwd)] := by
        intro order out
        rw [← collects_leaf projectCwd hidden.tile order out]
        simp only [collectLeaf, collectHiddenAgentCandidate]
        split
        · split <;> rfl
        · rfl
      exact hfirst.append ih

theorem collects_workspaces (fallbackCwd : String) (workspaces : List (PersistedWorkspace ρ)) :
    Collects (workspaces.foldl (collectWorkspace fallbackCwd))
      (workspaces.flatMap fun ws => ws.tiles.map fun leaf => (leaf, ws.projectCwd fallbackCwd)) := by
  induction workspaces with
  | nil => exact collects_nil
  | cons ws rest ih =>
      have hws : Collects (fun acc => collectWorkspace fallbackCwd acc ws)
          (ws.tiles.map fun leaf => (leaf, ws.projectCwd fallbackCwd)) := by
        rw [PersistedWorkspace.tiles, List.map_append, List.map_map]
        exact (collects_layout _ ws.layout).append (collects_hidden _ ws.hiddenTiles)
      exact hws.append ih

/-! ### Who owns a session -/

/-- After some candidates each session among them belongs to the least
of those that have it. -/
structure Least (fs : Canonicalize) (authoritativeCwds : Map String String)
    (seen : List PersistedAgentCandidate) (owners : Owners) : Prop where
  known : ∀ c ∈ seen, (owners.canonical.lookup c.sid).isSome = true
  ranked : ∀ sid, (owners.rank.lookup sid).isSome = (owners.canonical.lookup sid).isSome
  least : ∀ sid order, owners.canonical.lookup sid = some order →
    ∃ c ∈ seen, c.sid = sid ∧ c.order = order ∧
      owners.rank.lookup sid = some (candidateRank fs authoritativeCwds c) ∧
      ∀ c' ∈ seen, c'.sid = sid →
        candidateRank fs authoritativeCwds c ≤ candidateRank fs authoritativeCwds c'

section owners

variable {fs : Canonicalize} {authoritativeCwds : Map String String}

theorem least_nil : Least fs authoritativeCwds [] ⟨∅, ∅⟩ where
  known c hc := by cases hc
  ranked sid := by
    rw [AList.lookup_empty, AList.lookup_empty]
    rfl
  least sid order h := by
    rw [AList.lookup_empty] at h
    cases h

theorem Least.taken {seen : List PersistedAgentCandidate} {owners : Owners}
    (h : Least fs authoritativeCwds seen owners) {candidate : PersistedAgentCandidate}
    (hbefore : ∀ current, owners.rank.lookup candidate.sid = some current →
      candidateRank fs authoritativeCwds candidate < current) :
    Least fs authoritativeCwds (seen ++ [candidate])
      { canonical := owners.canonical.insert candidate.sid candidate.order
        rank := owners.rank.insert candidate.sid (candidateRank fs authoritativeCwds candidate) } where
  known c hc := by
    rw [Map.get_insert]
    split
    · rfl
    · next hne =>
      rcases List.mem_append.1 hc with hseen | hlast
      · exact h.known c hseen
      · exact absurd (congrArg PersistedAgentCandidate.sid (List.mem_singleton.1 hlast)) hne
  ranked sid := by
    dsimp only
    rw [Map.get_insert, Map.get_insert]
    split
    · rfl
    · exact h.ranked sid
  least sid order howner := by
    dsimp only at howner ⊢
    rw [Map.get_insert] at howner ⊢
    by_cases hsid : sid = candidate.sid
    · subst hsid
      rw [if_pos rfl] at howner ⊢
      refine ⟨candidate, by simp, rfl, Option.some.inj howner, rfl, fun c' hc' hsame => ?_⟩
      rcases List.mem_append.1 hc' with hseen | hlast
      · -- it is before the one that was the least so far
        have hsome := h.known c' hseen
        rw [hsame] at hsome
        obtain ⟨owner, howner⟩ := Option.isSome_iff_exists.1 hsome
        obtain ⟨c, _, _, _, hrank, hleast⟩ := h.least _ owner howner
        exact le_of_lt (lt_of_lt_of_le (hbefore _ hrank) (hleast c' hseen hsame))
      · rw [List.mem_singleton.1 hlast]
    · rw [if_neg hsid] at howner ⊢
      obtain ⟨c, hc, hcsid, hcorder, hrank, hleast⟩ := h.least sid order howner
      refine ⟨c, List.mem_append_left _ hc, hcsid, hcorder, hrank, fun c' hc' hsame => ?_⟩
      rcases List.mem_append.1 hc' with hseen | hlast
      · exact hleast c' hseen hsame
      · rw [List.mem_singleton.1 hlast] at hsame
        exact absurd hsame.symm hsid

theorem Least.passed {seen : List PersistedAgentCandidate} {owners : Owners}
    (h : Least fs authoritativeCwds seen owners) {candidate : PersistedAgentCandidate}
    {current : CandidateRank} (hcurrent : owners.rank.lookup candidate.sid = some current)
    (hle : current ≤ candidateRank fs authoritativeCwds candidate) :
    Least fs authoritativeCwds (seen ++ [candidate]) owners where
  known c hc := by
    rcases List.mem_append.1 hc with hseen | hlast
    · exact h.known c hseen
    · rw [List.mem_singleton.1 hlast, ← h.ranked, hcurrent]
      rfl
  ranked := h.ranked
  least sid order howner := by
    obtain ⟨c, hc, hcsid, hcorder, hrank, hleast⟩ := h.least sid order howner
    refine ⟨c, List.mem_append_left _ hc, hcsid, hcorder, hrank, fun c' hc' hsame => ?_⟩
    rcases List.mem_append.1 hc' with hseen | hlast
    · exact hleast c' hseen hsame
    · rw [List.mem_singleton.1 hlast] at hsame ⊢
      rw [hsame, hrank] at hcurrent
      rw [Option.some.inj hcurrent]
      exact hle

theorem Least.consider {seen : List PersistedAgentCandidate} {owners : Owners}
    (h : Least fs authoritativeCwds seen owners) (candidate : PersistedAgentCandidate) :
    Least fs authoritativeCwds (seen ++ [candidate])
      (owners.consider fs authoritativeCwds candidate) := by
  rw [Owners.consider]
  cases hcurrent : owners.rank.lookup candidate.sid with
  | none =>
      rw [if_pos (by rfl)]
      refine h.taken fun current hsome => ?_
      rw [hcurrent] at hsome
      cases hsome
  | some current =>
      by_cases hlt : candidateRank fs authoritativeCwds candidate < current
      · rw [if_pos (by simpa using hlt)]
        refine h.taken fun other hsome => ?_
        rw [hcurrent] at hsome
        exact Option.some.inj hsome ▸ hlt
      · rw [if_neg (by simpa using hlt)]
        exact h.passed hcurrent (not_lt.1 hlt)

theorem Least.foldl (candidates : List PersistedAgentCandidate) :
    ∀ {seen : List PersistedAgentCandidate} {owners : Owners},
      Least fs authoritativeCwds seen owners →
        Least fs authoritativeCwds (seen ++ candidates)
          (candidates.foldl (Owners.consider fs authoritativeCwds) owners) := by
  induction candidates with
  | nil =>
      intro seen owners h
      rw [List.append_nil]
      exact h
  | cons candidate rest ih =>
      intro seen owners h
      have hrest := ih (h.consider candidate)
      rwa [List.append_assoc] at hrest

end owners

/-! ### What the second pass clears -/

/-- Only an agent tile whose session has another owner is changed. -/
theorem clearLeaf_cases (canonical : Map String Nat) (leaf : PersistedLeaf ρ) (order : Nat) :
    (isDuplicate canonical leaf.sessionId order = true ∧
        clearLeaf canonical leaf order = (leaf.withoutSid, 1)) ∨
      (isDuplicate canonical leaf.sessionId order = false ∧
        clearLeaf canonical leaf order = (leaf, 0)) := by
  obtain ⟨id, kind, aside⟩ := leaf
  cases kind with
  | agent sessionId =>
      cases hduplicate : isDuplicate canonical sessionId order <;>
        simp [clearLeaf, PersistedLeaf.sessionId, PersistedLeaf.withoutSid, hduplicate]
  | _ => exact .inr ⟨rfl, rfl⟩

theorem PersistedLeaf.withoutSid_withoutSid (leaf : PersistedLeaf ρ) :
    leaf.withoutSid.withoutSid = leaf.withoutSid := by
  obtain ⟨id, kind, aside⟩ := leaf
  cases kind <;> rfl

theorem PersistedLeaf.withoutSid_sessionId (leaf : PersistedLeaf ρ) :
    leaf.withoutSid.sessionId = none := by
  obtain ⟨id, kind, aside⟩ := leaf
  cases kind <;> rfl

theorem clearLeaf_withoutSid (canonical : Map String Nat) (leaf : PersistedLeaf ρ) (order : Nat) :
    (clearLeaf canonical leaf order).1.withoutSid = leaf.withoutSid := by
  rcases clearLeaf_cases canonical leaf order with ⟨-, hclear⟩ | ⟨-, hkeep⟩
  · rw [hclear]
    exact leaf.withoutSid_withoutSid
  · rw [hkeep]

/-- The tiles after a pass that clears them from the number on, how many
it clears and where the numbers go on. -/
structure Clears (canonical : Map String Nat) (before : List (PersistedLeaf ρ)) (order : Nat)
    (after : List (PersistedLeaf ρ)) (cleared next : Nat) : Prop where
  after : after = (before.zipIdx order).map fun t => (clearLeaf canonical t.1 t.2).1
  cleared : cleared = ((before.zipIdx order).map fun t => (clearLeaf canonical t.1 t.2).2).sum
  next : next = order + before.length

section clears

variable {canonical : Map String Nat}

theorem clears_nil (order : Nat) :
    Clears canonical ([] : List (PersistedLeaf ρ)) order [] 0 order :=
  ⟨rfl, rfl, rfl⟩

theorem clears_leaf (leaf : PersistedLeaf ρ) (order : Nat) :
    Clears canonical [leaf] order [(clearLeaf canonical leaf order).1]
      (clearLeaf canonical leaf order).2 (order + 1) :=
  ⟨rfl, by simp, rfl⟩

theorem Clears.append {front back front' back' : List (PersistedLeaf ρ)}
    {order middle next cleared cleared' : Nat}
    (hfront : Clears canonical front order front' cleared middle)
    (hback : Clears canonical back middle back' cleared' next) :
    Clears canonical (front ++ back) order (front' ++ back') (cleared + cleared') next where
  after := by rw [List.zipIdx_append, List.map_append, ← hfront.after, ← hfront.next, ← hback.after]
  cleared := by
    rw [List.zipIdx_append, List.map_append, List.sum_append, ← hfront.cleared, ← hfront.next,
      ← hback.cleared]
  next := by
    rw [hback.next, hfront.next, List.length_append]
    omega

theorem clears_layout (canonical : Map String Nat) (layout : PersistedLayout ρ) (order : Nat) :
    Clears canonical layout.leaves order
        (clearNoncanonicalBoundAgentSids canonical layout order).1.leaves
        (clearNoncanonicalBoundAgentSids canonical layout order).2.1
        (clearNoncanonicalBoundAgentSids canonical layout order).2.2 ∧
      (clearNoncanonicalBoundAgentSids canonical layout order).1.map PersistedLeaf.withoutSid =
        layout.map PersistedLeaf.withoutSid := by
  refine SplitTree.byChildren
    (P := fun layout => ∀ order,
      Clears canonical layout.leaves order
          (clearNoncanonicalBoundAgentSids canonical layout order).1.leaves
          (clearNoncanonicalBoundAgentSids canonical layout order).2.1
          (clearNoncanonicalBoundAgentSids canonical layout order).2.2 ∧
        (clearNoncanonicalBoundAgentSids canonical layout order).1.map PersistedLeaf.withoutSid =
          layout.map PersistedLeaf.withoutSid)
    (Q := fun children => ∀ order,
      Clears canonical (SplitTree.leavesOf children) order
          (SplitTree.leavesOf (clearChildren canonical children order).1)
          (clearChildren canonical children order).2.1
          (clearChildren canonical children order).2.2 ∧
        SplitTree.mapAll PersistedLeaf.withoutSid (clearChildren canonical children order).1 =
          SplitTree.mapAll PersistedLeaf.withoutSid children)
    ?_ ?_ ?_ ?_ ?_ layout order
  · intro order
    exact ⟨clears_nil order, rfl⟩
  · intro leaf order
    refine ⟨clears_leaf leaf order, ?_⟩
    exact congrArg SplitTree.leaf (clearLeaf_withoutSid canonical leaf order)
  · intro label children ih order
    obtain ⟨hclears, hrest⟩ := ih order
    exact ⟨hclears, congrArg (SplitTree.split label) hrest⟩
  · intro order
    exact ⟨clears_nil order, rfl⟩
  · intro child rest hchild hrest order
    obtain ⟨hclears, hsame⟩ := hchild order
    obtain ⟨hclears', hsame'⟩ :=
      hrest (clearNoncanonicalBoundAgentSids canonical child order).2.2
    refine ⟨hclears.append hclears', ?_⟩
    exact congrArg₂ List.cons hsame hsame'

theorem clears_hidden (canonical : Map String Nat) (hiddenTiles : List (PersistedHiddenTile ρ)) : ∀ order,
    Clears canonical (hiddenTiles.map PersistedHiddenTile.tile) order
        ((clearHiddenTiles canonical hiddenTiles order).1.map PersistedHiddenTile.tile)
        (clearHiddenTiles canonical hiddenTiles order).2.1
        (clearHiddenTiles canonical hiddenTiles order).2.2 ∧
      (clearHiddenTiles canonical hiddenTiles order).1.map
          (fun hidden => { hidden with tile := hidden.tile.withoutSid }) =
        hiddenTiles.map fun hidden => { hidden with tile := hidden.tile.withoutSid } := by
  induction hiddenTiles with
  | nil =>
      intro order
      exact ⟨clears_nil order, rfl⟩
  | cons hidden rest ih =>
      intro order
      obtain ⟨hclears, hsame⟩ := ih (order + 1)
      refine ⟨(clears_leaf hidden.tile order).append hclears, ?_⟩
      refine congrArg₂ List.cons ?_ hsame
      show { hidden with tile := (clearLeaf canonical hidden.tile order).1.withoutSid } = _
      rw [clearLeaf_withoutSid]

theorem clears_workspaces (canonical : Map String Nat) (workspaces : List (PersistedWorkspace ρ)) : ∀ order, ∃ next,
    Clears canonical (workspaces.flatMap PersistedWorkspace.tiles) order
        ((clearWorkspaces canonical workspaces order).1.flatMap PersistedWorkspace.tiles)
        (clearWorkspaces canonical workspaces order).2 next ∧
      (clearWorkspaces canonical workspaces order).1.map PersistedWorkspace.withoutSids =
        workspaces.map PersistedWorkspace.withoutSids := by
  induction workspaces with
  | nil =>
      intro order
      exact ⟨order, clears_nil order, rfl⟩
  | cons ws rest ih =>
      intro order
      obtain ⟨hlayout, hsame⟩ := clears_layout canonical ws.layout order
      obtain ⟨hhidden, hsame'⟩ := clears_hidden canonical ws.hiddenTiles
        (clearNoncanonicalBoundAgentSids canonical ws.layout order).2.2
      obtain ⟨next, hrest, hsame''⟩ := ih
        (clearHiddenTiles canonical ws.hiddenTiles
          (clearNoncanonicalBoundAgentSids canonical ws.layout order).2.2).2.2
      refine ⟨next, (hlayout.append hhidden).append hrest, ?_⟩
      refine congrArg₂ List.cons ?_ hsame''
      simp only [PersistedWorkspace.withoutSids, hsame, hsame']

end clears

namespace PersistedFrame

/-! ### Owners and the tiles they are -/

/-- The workspace of the tile is in the project that the session has. -/
def InProject (fs : Canonicalize) (authoritativeCwds : Map String String) (fallbackCwd : String)
    (frame : PersistedFrame ρ) (k : Nat) (sid : ServerSid) : Prop :=
  ∃ cwd tile, authoritativeCwds.lookup sid.text = some cwd ∧
    (frame.placed fallbackCwd)[k]? = some tile ∧ cwdMatchKey fs cwd = cwdMatchKey fs tile.2

def candidates (frame : PersistedFrame ρ) (fallbackCwd : String) : List PersistedAgentCandidate :=
  ((frame.placed fallbackCwd).zipIdx).filterMap candidateOf

/-- The owners that the repair chooses. -/
def owners (fs : Canonicalize) (frame : PersistedFrame ρ) (authoritativeCwds : Map String String)
    (fallbackCwd : String) : Owners :=
  (frame.candidates fallbackCwd).foldl (Owners.consider fs authoritativeCwds) ⟨∅, ∅⟩

section repair

variable (fs : Canonicalize) (authoritativeCwds : Map String String) (fallbackCwd : String)
variable (frame : PersistedFrame ρ)

theorem heal_eq : healPersistedAgentOwnership fs frame authoritativeCwds fallbackCwd =
    ({ frame with
        workspaces := (clearWorkspaces (frame.owners fs authoritativeCwds fallbackCwd).canonical
          frame.workspaces 0).1 },
      (clearWorkspaces (frame.owners fs authoritativeCwds fallbackCwd).canonical
        frame.workspaces 0).2) := by
  have hcandidates : (frame.workspaces.foldl (collectWorkspace fallbackCwd) (0, [])).2 =
      frame.candidates fallbackCwd := by
    have hpass := congrArg Prod.snd (collects_workspaces fallbackCwd frame.workspaces 0 [])
    exact hpass.trans (List.nil_append _)
  rw [healPersistedAgentOwnership, hcandidates]
  rfl

theorem least_owners : Least fs authoritativeCwds (frame.candidates fallbackCwd)
    (frame.owners fs authoritativeCwds fallbackCwd) :=
  Least.foldl _ least_nil

variable {frame fallbackCwd}

theorem mem_candidates {c : PersistedAgentCandidate} :
    c ∈ frame.candidates fallbackCwd ↔
      ∃ tile, (frame.placed fallbackCwd)[c.order]? = some tile ∧
        tile.1.sessionId = some ⟨c.sid⟩ ∧ c.sid ≠ "" ∧ tile.1.id = c.id ∧
          tile.2 = c.projectCwd := by
  rw [candidates, List.mem_filterMap]
  constructor
  · rintro ⟨⟨tile, k⟩, hmem, hc⟩
    rw [List.mk_mem_zipIdx_iff_getElem?] at hmem
    obtain ⟨sid, hsid, rfl⟩ := Option.map_eq_some_iff.1 hc
    obtain ⟨hsid, hnonempty⟩ := Option.filter_eq_some_iff.1 hsid
    exact ⟨tile, hmem, hsid, by simpa using hnonempty, rfl, rfl⟩
  · rintro ⟨tile, hmem, hsid, hnonempty, hid, hcwd⟩
    refine ⟨(tile, c.order), List.mk_mem_zipIdx_iff_getElem?.2 hmem, ?_⟩
    simp [candidateOf, hsid, Option.filter, hnonempty, hid, hcwd]

theorem sidAt_eq (fallbackCwd : String) (k : Nat) : frame.sidAt k =
    (frame.placed fallbackCwd)[k]?.bind fun tile => tile.1.sessionId := by
  rw [sidAt, ← placed_fst frame fallbackCwd, List.getElem?_map, Option.bind_map]
  rfl

theorem no_owner_of_blank :
    (frame.owners fs authoritativeCwds fallbackCwd).canonical.lookup "" = none := by
  cases howner : (frame.owners fs authoritativeCwds fallbackCwd).canonical.lookup "" with
  | none => rfl
  | some order =>
      obtain ⟨c, hc, hsid, -, -, -⟩ :=
        (least_owners fs authoritativeCwds fallbackCwd frame).least _ _ howner
      obtain ⟨-, -, -, hnonempty, -, -⟩ := mem_candidates.1 hc
      exact absurd hsid hnonempty

/-- The owner of a session has it. -/
theorem sidAt_owner {sid : String} {order : Nat}
    (howner : (frame.owners fs authoritativeCwds fallbackCwd).canonical.lookup sid = some order) :
    frame.sidAt order = some ⟨sid⟩ := by
  obtain ⟨c, hc, rfl, rfl, -, -⟩ :=
    (least_owners fs authoritativeCwds fallbackCwd frame).least _ _ howner
  obtain ⟨tile, htile, hsid, -, -, -⟩ := mem_candidates.1 hc
  rw [sidAt_eq fallbackCwd, htile]
  exact hsid

variable {k : Nat} {sid : ServerSid}

theorem exists_candidate (fallbackCwd : String) (hk : frame.sidAt k = some sid) (hnonempty : sid.text ≠ "") :
    ∃ tile, (frame.placed fallbackCwd)[k]? = some tile ∧
      (⟨sid.text, tile.1.id, tile.2, k⟩ : PersistedAgentCandidate) ∈
        frame.candidates fallbackCwd := by
  rw [sidAt_eq fallbackCwd] at hk
  obtain ⟨tile, htile, hsid⟩ := Option.bind_eq_some_iff.1 hk
  exact ⟨tile, htile, mem_candidates.2 ⟨tile, htile, hsid, hnonempty, rfl, rfl⟩⟩

/-- A session that occurs has an owner, in its project where it occurs
there at all. -/
theorem exists_owner (hk : frame.sidAt k = some sid) (hnonempty : sid.text ≠ "") :
    ∃ order,
      (frame.owners fs authoritativeCwds fallbackCwd).canonical.lookup sid.text = some order ∧
        (frame.InProject fs authoritativeCwds fallbackCwd k sid →
          frame.InProject fs authoritativeCwds fallbackCwd order sid) := by
  have hleast := least_owners fs authoritativeCwds fallbackCwd frame
  obtain ⟨tile, htile, hmem⟩ := exists_candidate fallbackCwd hk hnonempty
  obtain ⟨order, howner⟩ := Option.isSome_iff_exists.1 (hleast.known _ hmem)
  refine ⟨order, howner, ?_⟩
  rintro ⟨cwd, tile', hcwd, htile', hkey⟩
  rw [htile] at htile'
  obtain rfl := Option.some.inj htile'
  obtain ⟨c, hc, hsid, rfl, -, hmin⟩ := hleast.least _ _ howner
  obtain ⟨owner, hownerAt, -, -, -, hprojectCwd⟩ := mem_candidates.1 hc
  have hle := hmin _ hmem rfl
  -- the candidate at `k` has the best rank of the two, so the owner has it as well
  have haway := Prod.Lex.monotone_fst _ _ hle
  have hcwd' : authoritativeCwds.lookup c.sid = some cwd := by
    rw [hsid]
    exact hcwd
  simp only [candidateRank, hcwd', hcwd] at haway
  have hmatch : (cwdMatchKey fs cwd == cwdMatchKey fs tile.2) = true := beq_iff_eq.2 hkey
  refine ⟨cwd, owner, hcwd, hownerAt, ?_⟩
  rw [hprojectCwd]
  by_contra hother
  have hnot : (cwdMatchKey fs cwd == cwdMatchKey fs c.projectCwd) = false :=
    beq_eq_false_iff_ne.2 hother
  rw [hmatch, hnot] at haway
  exact absurd (show 1 ≤ 0 from haway) (by omega)

/-! ### The repaired frame -/

theorem tiles_heal :
    (healPersistedAgentOwnership fs frame authoritativeCwds fallbackCwd).1.tiles =
        frame.tiles.zipIdx.map (fun t =>
          (clearLeaf (frame.owners fs authoritativeCwds fallbackCwd).canonical t.1 t.2).1) ∧
      (healPersistedAgentOwnership fs frame authoritativeCwds fallbackCwd).2 =
        (frame.tiles.zipIdx.map fun t =>
          (clearLeaf (frame.owners fs authoritativeCwds fallbackCwd).canonical t.1 t.2).2).sum ∧
      (healPersistedAgentOwnership fs frame authoritativeCwds fallbackCwd).1.withoutSids =
        frame.withoutSids := by
  obtain ⟨next, hclears, hsame⟩ := clears_workspaces
    (frame.owners fs authoritativeCwds fallbackCwd).canonical frame.workspaces 0
  rw [heal_eq]
  refine ⟨hclears.after, hclears.cleared, ?_⟩
  simp only [withoutSids, hsame]

theorem sidAt_heal (k : Nat) :
    (healPersistedAgentOwnership fs frame authoritativeCwds fallbackCwd).1.sidAt k =
      if isDuplicate (frame.owners fs authoritativeCwds fallbackCwd).canonical (frame.sidAt k) k
      then none else frame.sidAt k := by
  rw [sidAt, (tiles_heal fs authoritativeCwds).1, List.getElem?_map, List.getElem?_zipIdx, sidAt]
  cases frame.tiles[k]? with
  | none => rfl
  | some leaf =>
      simp only [Option.map_some, Option.bind_some, Nat.zero_add]
      rcases clearLeaf_cases (frame.owners fs authoritativeCwds fallbackCwd).canonical leaf k with
        ⟨hduplicate, hclear⟩ | ⟨hduplicate, hkeep⟩
      · rw [hclear, hduplicate]
        exact leaf.withoutSid_sessionId
      · rw [hkeep, hduplicate]
        rfl

theorem isDuplicate_iff {canonical : Map String Nat} {sessionId : Option ServerSid} {order : Nat} :
    isDuplicate canonical sessionId order = true ↔
      ∃ sid owner, sessionId = some sid ∧ canonical.lookup sid.text = some owner ∧
        owner ≠ order := by
  simp [isDuplicate, Option.any_eq_true]

/-- The tile keeps its session when it owns it. -/
theorem sidAt_heal_owner {order : Nat}
    (howner : (frame.owners fs authoritativeCwds fallbackCwd).canonical.lookup sid.text =
      some order) :
    (healPersistedAgentOwnership fs frame authoritativeCwds fallbackCwd).1.sidAt k = some sid ↔
      k = order := by
  rw [sidAt_heal]
  constructor
  · intro hk
    by_contra hne
    split at hk
    · cases hk
    · next hkept =>
      exact hkept (isDuplicate_iff.2 ⟨sid, order, hk, howner, Ne.symm hne⟩)
  · rintro rfl
    have hat := sidAt_owner fs authoritativeCwds howner
    rw [if_neg]
    · exact hat
    · rw [hat, isDuplicate_iff]
      rintro ⟨sid', owner, hsid, howner', hne⟩
      obtain rfl := Option.some.inj hsid
      rw [howner] at howner'
      exact hne (Option.some.inj howner').symm

end repair

/-- What the repair makes of a frame, and the count that it reports. -/
structure Repaired (fs : Canonicalize) (authoritativeCwds : Map String String)
    (fallbackCwd : String) (before after : PersistedFrame ρ) (cleared : Nat) : Prop where
  rest : after.withoutSids = before.withoutSids
  cleared_only : ∀ k sid, after.sidAt k = some sid → before.sidAt k = some sid
  blank : ∀ k sid, before.sidAt k = some sid → sid.text = "" → after.sidAt k = some sid
  once : ∀ k sid, before.sidAt k = some sid → sid.text ≠ "" → ∃! owner, after.sidAt owner = some sid
  home : ∀ k sid, before.sidAt k = some sid → sid.text ≠ "" →
    before.InProject fs authoritativeCwds fallbackCwd k sid →
      ∀ owner, after.sidAt owner = some sid →
        before.InProject fs authoritativeCwds fallbackCwd owner sid
  counted : cleared = (before.tiles.zip after.tiles).countP fun t => t.1.sessionId != t.2.sessionId
  again : ∀ fs' authoritativeCwds' fallbackCwd',
    (healPersistedAgentOwnership fs' after authoritativeCwds' fallbackCwd').2 = 0

theorem sum_clears (canonical : Map String Nat) (tiles : List (PersistedLeaf ρ)) : ∀ order : Nat,
    ((tiles.zipIdx order).map fun t => (clearLeaf canonical t.1 t.2).2).sum =
      (tiles.zip ((tiles.zipIdx order).map fun t => (clearLeaf canonical t.1 t.2).1)).countP
        fun t => t.1.sessionId != t.2.sessionId := by
  induction tiles with
  | nil => intro order; rfl
  | cons leaf rest ih =>
      intro order
      simp only [List.zipIdx_cons, List.map_cons, List.sum_cons, List.zip_cons_cons,
        List.countP_cons, ih (order + 1)]
      rcases clearLeaf_cases canonical leaf order with ⟨hduplicate, hclear⟩ | ⟨-, hkeep⟩
      · obtain ⟨sid, -, hsid, -, -⟩ := isDuplicate_iff.1 hduplicate
        have hchanged : (leaf.sessionId != leaf.withoutSid.sessionId) = true := by
          rw [leaf.withoutSid_sessionId, hsid]
          rfl
        rw [hclear, if_pos hchanged, Nat.add_comm]
      · rw [hkeep, if_neg (by simp)]
        exact Nat.zero_add _

/-- A frame in which no session occurs twice is left as it is. -/
theorem heal_cleared_zero {frame : PersistedFrame ρ} (fs : Canonicalize)
    (authoritativeCwds : Map String String) (fallbackCwd : String)
    (hunique : ∀ i j sid, sid.text ≠ "" → frame.sidAt i = some sid → frame.sidAt j = some sid →
      i = j) :
    (healPersistedAgentOwnership fs frame authoritativeCwds fallbackCwd).2 = 0 := by
  rw [(tiles_heal fs authoritativeCwds).2.1, List.sum_eq_zero_iff]
  intro n hn
  obtain ⟨⟨leaf, k⟩, hmem, rfl⟩ := List.mem_map.1 hn
  rw [List.mk_mem_zipIdx_iff_getElem?] at hmem
  rcases clearLeaf_cases (frame.owners fs authoritativeCwds fallbackCwd).canonical leaf k with
    ⟨hduplicate, -⟩ | ⟨-, hkeep⟩
  · obtain ⟨sid, owner, hsid, howner, hne⟩ := isDuplicate_iff.1 hduplicate
    have hk : frame.sidAt k = some sid := by
      rw [sidAt, hmem]
      exact hsid
    have hnonempty : sid.text ≠ "" := by
      intro hblank
      rw [hblank, no_owner_of_blank] at howner
      cases howner
    exact absurd (hunique owner k sid hnonempty (sidAt_owner fs authoritativeCwds howner) hk) hne
  · rw [hkeep]

theorem heal_repairs (fs : Canonicalize) (frame : PersistedFrame ρ)
    (authoritativeCwds : Map String String) (fallbackCwd : String) :
    Repaired fs authoritativeCwds fallbackCwd frame
      (healPersistedAgentOwnership fs frame authoritativeCwds fallbackCwd).1
      (healPersistedAgentOwnership fs frame authoritativeCwds fallbackCwd).2 := by
  have hkept : ∀ k sid,
      (healPersistedAgentOwnership fs frame authoritativeCwds fallbackCwd).1.sidAt k = some sid →
        frame.sidAt k = some sid := by
    intro k sid hk
    rw [sidAt_heal] at hk
    split at hk
    · cases hk
    · exact hk
  constructor
  case rest => exact (tiles_heal fs authoritativeCwds).2.2
  case cleared_only => exact hkept
  case blank =>
    intro k sid hk hblank
    rw [sidAt_heal, if_neg]
    · exact hk
    · rw [hk, isDuplicate_iff]
      rintro ⟨sid', owner, hsid, howner, -⟩
      obtain rfl := Option.some.inj hsid
      rw [hblank, no_owner_of_blank] at howner
      cases howner
  case once =>
    intro k sid hk hnonempty
    obtain ⟨owner, howner, -⟩ := exists_owner fs authoritativeCwds hk hnonempty
    exact ⟨owner, (sidAt_heal_owner fs authoritativeCwds howner).2 rfl,
      fun other => (sidAt_heal_owner fs authoritativeCwds howner).1⟩
  case home =>
    intro k sid hk hnonempty hproject owner hat
    obtain ⟨order, howner, hhome⟩ := exists_owner fs authoritativeCwds hk hnonempty
    obtain rfl := (sidAt_heal_owner fs authoritativeCwds howner).1 hat
    exact hhome hproject
  case counted =>
    rw [(tiles_heal fs authoritativeCwds).2.1, (tiles_heal fs authoritativeCwds).1]
    exact sum_clears _ frame.tiles 0
  case again =>
    intro fs' authoritativeCwds' fallbackCwd'
    refine heal_cleared_zero fs' authoritativeCwds' fallbackCwd' fun i j sid hnonempty hi hj => ?_
    obtain ⟨order, howner, -⟩ := exists_owner fs authoritativeCwds (hkept i sid hi) hnonempty
    rw [(sidAt_heal_owner fs authoritativeCwds howner).1 hi,
      (sidAt_heal_owner fs authoritativeCwds howner).1 hj]

end PersistedFrame

end Yaldabaoth
