import Yaldabaoth.Model.Workspace

/-!
# `Yaldabaoth.Model.PersistedFrame`: the stored workspaces and their agent tiles

`persist.rs`: the persisted frame, and the repair that leaves each agent
session to one tile of it. `ρ` is the type of what a record has besides
the fields that are named here: tags, names, rails, the camera. Nothing
below looks at it.

The weights of the children of a split stand in the label of the split.
-/

set_option autoImplicit false

namespace Yaldabaoth

/-- The durable id of a session. -/
structure ServerSid where
  text : String
deriving Repr, DecidableEq

inductive PersistedBufferMode where
  | viewing (path : String)
  | editing (path : String)
  | picking (dir : String)
deriving Repr, DecidableEq

inductive PersistedKind (ρ : Type) where
  | buffer (mode : PersistedBufferMode)
  | agent (sessionId : Option ServerSid)
  | linear
  | cog (state : ρ)
  | keymap
  | agentStats
  | diff (worktree : Option String)
deriving Repr, DecidableEq

structure PersistedLeaf (ρ : Type) where
  id : WindowId
  kind : PersistedKind ρ
  aside : ρ
deriving Repr, DecidableEq

structure PersistedPlacement where
  slot : Slot
  span : Span
deriving Repr, DecidableEq

structure PersistedHiddenTile (ρ : Type) where
  tile : PersistedLeaf ρ
  previousPlacement : Option PersistedPlacement
deriving Repr, DecidableEq

abbrev PersistedLayout (ρ : Type) := SplitTree (SplitDir × ρ) (PersistedLeaf ρ)

structure PersistedWorkspace (ρ : Type) where
  hiddenTiles : List (PersistedHiddenTile ρ)
  layout : PersistedLayout ρ
  cwd : Option String
  legacyKv : Map String String
  aside : ρ

structure PersistedFrame (ρ : Type) where
  workspaces : List (PersistedWorkspace ρ)
  aside : ρ

structure PersistedAgentCandidate where
  sid : String
  id : WindowId
  projectCwd : String
  order : Nat
deriving Repr, DecidableEq

/-! ### The candidates -/

section collect

variable {ρ : Type}

/-- The next number, and the candidates so far. -/
abbrev Collected := Nat × List PersistedAgentCandidate

/-- One leaf: an agent tile with a session is a candidate, and every
leaf has a number. -/
def collectLeaf (projectCwd : String) (leaf : PersistedLeaf ρ) : Collected → Collected
  | (order, out) =>
      match leaf.kind with
      | .agent (some sid) =>
          if sid.text.isEmpty then (order + 1, out)
          else (order + 1, out ++ [⟨sid.text, leaf.id, projectCwd, order⟩])
      | _ => (order + 1, out)

mutual

def collectPersistedAgentCandidates (projectCwd : String) :
    PersistedLayout ρ → Collected → Collected
  | .empty, acc => acc
  | .leaf leaf, acc => collectLeaf projectCwd leaf acc
  | .split _ children, acc => collectChildren projectCwd children acc

def collectChildren (projectCwd : String) : List (PersistedLayout ρ) → Collected → Collected
  | [], acc => acc
  | child :: rest, acc =>
      collectChildren projectCwd rest (collectPersistedAgentCandidates projectCwd child acc)

end

/-- The candidates with that of a hidden tile. -/
def collectHiddenAgentCandidate (projectCwd : String) (hidden : PersistedHiddenTile ρ)
    (order : Nat) (out : List PersistedAgentCandidate) : List PersistedAgentCandidate :=
  match hidden.tile.kind with
  | .agent (some sid) =>
      if sid.text.isEmpty then out
      else out ++ [⟨sid.text, hidden.tile.id, projectCwd, order⟩]
  | _ => out

def PersistedWorkspace.projectCwd (ws : PersistedWorkspace ρ) (fallbackCwd : String) : String :=
  (ws.cwd.or (ws.legacyKv.lookup "cwd")).getD fallbackCwd

def collectWorkspace (fallbackCwd : String) (acc : Collected) (ws : PersistedWorkspace ρ) :
    Collected :=
  ws.hiddenTiles.foldl
    (fun acc hidden =>
      (acc.1 + 1, collectHiddenAgentCandidate (ws.projectCwd fallbackCwd) hidden acc.1 acc.2))
    (collectPersistedAgentCandidates (ws.projectCwd fallbackCwd) ws.layout acc)

end collect

/-! ### The owner of each session -/

/-- Whether the workspace is in the project of the session comes first,
then the id of the tile, then its number. -/
abbrev CandidateRank := Nat ×ₗ Nat ×ₗ Nat

def candidateRank (fs : Canonicalize) (authoritativeCwds : Map String String)
    (candidate : PersistedAgentCandidate) : CandidateRank :=
  let correctProject : Bool :=
    match authoritativeCwds.lookup candidate.sid with
    | some cwd => cwdMatchKey fs cwd == cwdMatchKey fs candidate.projectCwd
    | none => false
  toLex ((!correctProject).toNat, toLex (candidate.id.toNat, candidate.order))

/-- `canonical` and `rank`. -/
structure Owners where
  canonical : Map String Nat
  rank : Map String CandidateRank

def Owners.consider (fs : Canonicalize) (authoritativeCwds : Map String String) (owners : Owners)
    (candidate : PersistedAgentCandidate) : Owners :=
  let rank := candidateRank fs authoritativeCwds candidate
  if (owners.rank.lookup candidate.sid).all fun current => decide (rank < current) then
    { canonical := owners.canonical.insert candidate.sid candidate.order
      rank := owners.rank.insert candidate.sid rank }
  else owners

/-! ### The repair -/

section clear

variable {ρ : Type}

/-- Whether another tile owns the session of the tile with the number. -/
def isDuplicate (canonical : Map String Nat) (sessionId : Option ServerSid) (order : Nat) : Bool :=
  sessionId.any fun sid => (canonical.lookup sid.text).any fun owner => owner != order

def clearLeaf (canonical : Map String Nat) (leaf : PersistedLeaf ρ) (order : Nat) :
    PersistedLeaf ρ × Nat :=
  match leaf.kind with
  | .agent sessionId =>
      if isDuplicate canonical sessionId order then ({ leaf with kind := .agent none }, 1)
      else (leaf, 0)
  | _ => (leaf, 0)

mutual

/-- The layout, how many tiles were cleared in it, and the next number. -/
def clearNoncanonicalBoundAgentSids (canonical : Map String Nat) :
    PersistedLayout ρ → Nat → PersistedLayout ρ × Nat × Nat
  | .empty, order => (.empty, 0, order)
  | .leaf leaf, order =>
      (.leaf (clearLeaf canonical leaf order).1, (clearLeaf canonical leaf order).2, order + 1)
  | .split label children, order =>
      let (children, cleared, order) := clearChildren canonical children order
      (.split label children, cleared, order)

def clearChildren (canonical : Map String Nat) :
    List (PersistedLayout ρ) → Nat → List (PersistedLayout ρ) × Nat × Nat
  | [], order => ([], 0, order)
  | child :: rest, order =>
      let (child, cleared, order) := clearNoncanonicalBoundAgentSids canonical child order
      let (rest, clearedRest, order) := clearChildren canonical rest order
      (child :: rest, cleared + clearedRest, order)

end

def clearNoncanonicalHiddenAgentSid (canonical : Map String Nat)
    (hidden : PersistedHiddenTile ρ) (order : Nat) : PersistedHiddenTile ρ × Nat :=
  ({ hidden with tile := (clearLeaf canonical hidden.tile order).1 },
    (clearLeaf canonical hidden.tile order).2)

def clearHiddenTiles (canonical : Map String Nat) :
    List (PersistedHiddenTile ρ) → Nat → List (PersistedHiddenTile ρ) × Nat × Nat
  | [], order => ([], 0, order)
  | hidden :: rest, order =>
      let (hidden, cleared) := clearNoncanonicalHiddenAgentSid canonical hidden order
      let (rest, clearedRest, order) := clearHiddenTiles canonical rest (order + 1)
      (hidden :: rest, cleared + clearedRest, order)

def clearWorkspaces (canonical : Map String Nat) :
    List (PersistedWorkspace ρ) → Nat → List (PersistedWorkspace ρ) × Nat
  | [], _ => ([], 0)
  | ws :: rest, order =>
      let (layout, bound, order) := clearNoncanonicalBoundAgentSids canonical ws.layout order
      let (hiddenTiles, hidden, order) := clearHiddenTiles canonical ws.hiddenTiles order
      let (rest, clearedRest) := clearWorkspaces canonical rest order
      ({ ws with layout, hiddenTiles } :: rest, bound + hidden + clearedRest)

/-- The frame, and how many tiles were cleared. -/
def healPersistedAgentOwnership (fs : Canonicalize) (frame : PersistedFrame ρ)
    (authoritativeCwds : Map String String) (fallbackCwd : String) : PersistedFrame ρ × Nat :=
  let candidates := (frame.workspaces.foldl (collectWorkspace fallbackCwd) (0, [])).2
  let owners := candidates.foldl (Owners.consider fs authoritativeCwds) ⟨∅, ∅⟩
  let (workspaces, cleared) := clearWorkspaces owners.canonical frame.workspaces 0
  ({ frame with workspaces }, cleared)

end clear

end Yaldabaoth
