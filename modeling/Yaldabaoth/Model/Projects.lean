import Yaldabaoth.Lib.Machine
import Yaldabaoth.Lib.Maps

/-!
# `Yaldabaoth.Model.Projects`: the store of projects and its two indexes

`project.rs`. A path is its text, without the separators that a
`PathBuf` ignores when it compares. The file system, at a call, is what
`canonicalize` answers for each path: it may answer differently at the
next call.

A panic leaves the store as it was: the one `expect` of the module stands
behind a `create` that was refused.
-/

set_option autoImplicit false

namespace Yaldabaoth

structure ProjectId where
  val : UInt64
deriving Repr, DecidableEq

structure Project where
  name : String
  cwd : String
deriving Repr, DecidableEq

inductive CreateError where
  | duplicateName
  | duplicateCwd (owner : ProjectId)
deriving Repr, DecidableEq

/-- What `canonicalize` answers, at one moment. -/
abbrev Canonicalize : Type := String → Option String

def cwdMatchKey (fs : Canonicalize) (path : String) : String := (fs path).getD path

structure Projects where
  byId : Map ProjectId Project
  byName : Map String ProjectId
  byCwd : Map String ProjectId
  next : UInt64

namespace Projects

def new : Projects := ⟨∅, ∅, ∅, 0⟩

/-- The store with the new project. -/
def create (ps : Projects) (name cwd : String) (fs : Canonicalize) :
    Except CreateError ProjectId × Projects :=
  if (ps.byName.lookup name).isSome then (.error .duplicateName, ps)
  else
    let key := cwdMatchKey fs cwd
    match ps.byCwd.lookup key with
    | some owner => (.error (.duplicateCwd owner), ps)
    | none =>
        let id : ProjectId := ⟨ps.next⟩
        (.ok id,
          { byId := ps.byId.insert id ⟨name, cwd⟩
            byName := ps.byName.insert name id
            byCwd := ps.byCwd.insert key id
            next := ps.next + 1 })

/-- The names that are tried in turn: the hint, then with a number from 2
on. -/
def nameCandidate (hint : String) : Nat → String
  | 0 => hint
  | n + 1 => hint ++ " (" ++ Nat.repr (n + 2) ++ ")"

/-- The first candidate from `n` on that is free, of the next so many. -/
def freeName (ps : Projects) (hint : String) : Nat → Nat → String
  | 0, n => nameCandidate hint n
  | fuel + 1, n =>
      if (ps.byName.lookup (nameCandidate hint n)).isSome then ps.freeName hint fuel (n + 1)
      else nameCandidate hint n

/-- `ensure_at_cwd`. There is no id where the `expect` panics: the file
system may have changed between the two looks at it. -/
def ensureAtCwd (ps : Projects) (cwd nameHint : String) (fs fs' : Canonicalize) :
    Option ProjectId × Projects :=
  match ps.byCwd.lookup (cwdMatchKey fs cwd) with
  | some id => (some id, ps)
  | none =>
      match ps.create (ps.freeName nameHint ps.byName.entries.length 0) cwd fs' with
      | (.ok id, ps') => (some id, ps')
      | (.error _, ps') => (none, ps')

def rename (ps : Projects) (id : ProjectId) (name : String) : Except CreateError Unit × Projects :=
  match ps.byName.lookup name with
  | some owner => (if owner = id then .ok () else .error .duplicateName, ps)
  | none =>
      match ps.byId.lookup id with
      | none => (.ok (), ps)
      | some p =>
          (.ok (),
            { ps with
                byName := (ps.byName.erase p.name).insert name id
                byId := ps.byId.insert id { p with name } })

/-- `set_cwd`. It looks at the file system for the new path, and for the
old one. -/
def setCwd (ps : Projects) (id : ProjectId) (cwd : String) (fs fs' : Canonicalize) :
    Except CreateError Unit × Projects :=
  let key := cwdMatchKey fs cwd
  match ps.byCwd.lookup key with
  | some owner => (if owner = id then .ok () else .error (.duplicateCwd owner), ps)
  | none =>
      match ps.byId.lookup id with
      | none => (.ok (), ps)
      | some p =>
          (.ok (),
            { ps with
                byCwd := (ps.byCwd.erase (cwdMatchKey fs' p.cwd)).insert key id
                byId := ps.byId.insert id { p with cwd } })

def close (ps : Projects) (id : ProjectId) (fs : Canonicalize) : Option Project × Projects :=
  match ps.byId.lookup id with
  | none => (none, ps)
  | some p =>
      (some p,
        { ps with
            byId := ps.byId.erase id
            byName := ps.byName.erase p.name
            byCwd := ps.byCwd.erase (cwdMatchKey fs p.cwd) })

/-- A call, with the file system at each look at it. -/
inductive Call where
  | create (name cwd : String) (fs : Canonicalize)
  | ensureAtCwd (cwd nameHint : String) (fs fs' : Canonicalize)
  | rename (id : ProjectId) (name : String)
  | setCwd (id : ProjectId) (cwd : String) (fs fs' : Canonicalize)
  | close (id : ProjectId) (fs : Canonicalize)

/-- The store after the call, and whether the call returned an error. -/
def perform (ps : Projects) : Call → Bool × Projects
  | .create name cwd fs => (!(ps.create name cwd fs).1.isOk, (ps.create name cwd fs).2)
  | .ensureAtCwd cwd nameHint fs fs' => (false, (ps.ensureAtCwd cwd nameHint fs fs').2)
  | .rename id name => (!(ps.rename id name).1.isOk, (ps.rename id name).2)
  | .setCwd id cwd fs fs' => (!(ps.setCwd id cwd fs fs').1.isOk, (ps.setCwd id cwd fs fs').2)
  | .close id fs => (false, (ps.close id fs).2)

/-- The store, with the ids that it gave out. -/
structure Issuing where
  projects : Projects
  issued : List ProjectId

/-- The id of the project that a call creates. -/
def created (ps : Projects) : Call → Option ProjectId
  | .create name cwd fs => (ps.create name cwd fs).1.toOption
  | .ensureAtCwd cwd nameHint fs fs' =>
      if (ps.byCwd.lookup (cwdMatchKey fs cwd)).isSome then none
      else (ps.ensureAtCwd cwd nameHint fs fs').1
  | _ => none

/-- Any calls, in any order. -/
def machine : Machine Issuing Call where
  start s := s = ⟨new, []⟩
  step s call := some ⟨(s.projects.perform call).2, s.issued ++ (s.projects.created call).toList⟩

end Projects

end Yaldabaoth
