import Yaldabaoth.Model.Projects

/-!
# `Yaldabaoth.Model.ProjectsFile`: the store of projects, loaded

`projects_from_persisted`. A record that clashes is folded onto the
project it clashes with. The parameters of the projects stand beside the
store, which never reads them; so does the list of where each record went.
-/

set_option autoImplicit false

namespace Yaldabaoth

structure PersistedProject where
  name : String
  cwd : String
  params : Map String String

/-- A record, with the file system while it is loaded. -/
structure Loading where
  record : PersistedProject
  fs : Canonicalize

structure LoadedProjects where
  projects : Projects
  params : ProjectId → Map String String
  /-- The project that each record was folded onto. -/
  filed : List ProjectId

namespace LoadedProjects

def new : LoadedProjects := ⟨Projects.new, fun _ => ∅, []⟩

/-- The project that a record goes onto, and the store with it. -/
def target (ps : Projects) (l : Loading) : Option ProjectId × Projects :=
  match ps.create l.record.name l.record.cwd l.fs with
  | (.ok id, ps') => (some id, ps')
  | (.error .duplicateName, ps') => (ps'.byName.lookup l.record.name, ps')
  | (.error (.duplicateCwd owner), ps') => (some owner, ps')

/-- One record. A project that is there gets the parameters of the record in
place of its own. -/
def load (s : LoadedProjects) (l : Loading) : LoadedProjects :=
  match target s.projects l with
  | (none, ps) => { s with projects := ps }
  | (some id, ps) =>
      { projects := ps
        params := if (ps.byId.lookup id).isSome then Function.update s.params id l.record.params
          else s.params
        filed := s.filed ++ [id] }

def projectsFromPersisted (doc : List Loading) : LoadedProjects := doc.foldl load new

end LoadedProjects

end Yaldabaoth
