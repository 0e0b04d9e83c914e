import Yaldabaoth.Model.ProjectsFile

/-!
# `Yaldabaoth.Proofs.Frame.ProjectsFile`: what loading projects loses

A record goes to the project of the earlier record that has its name, else
of the one that has its directory, else it founds one (`homesFrom`). Every
record finds its project; but a project ends up with the parameters of the
last record alone, so the keys of the others are there only if that one
has them (`Carried`).
-/

set_option autoImplicit false

namespace Yaldabaoth

namespace LoadedProjects

open Map

/-! ### Where records go -/

/-- The key of a record's directory when it is loaded. -/
def keyOf (l : Loading) : String := cwdMatchKey l.fs l.record.cwd

/-- The founder that a record shares its name with, or else its directory. -/
def founderOf (founders : List Loading) (l : Loading) : Option Nat :=
  (founders.findIdx? fun f => f.record.name = l.record.name).or
    (founders.findIdx? fun f => keyOf f = keyOf l)

/-- The number of the founder whose project a record goes to. -/
def homeOf (founders : List Loading) (l : Loading) : Nat :=
  (founderOf founders l).getD founders.length

def foundersAfter (founders : List Loading) (l : Loading) : List Loading :=
  if founderOf founders l = none then founders ++ [l] else founders

def homesFrom (founders : List Loading) : List Loading → List Nat
  | [] => []
  | l :: rest => homeOf founders l :: homesFrom (foundersAfter founders l) rest

/-- The last record that goes to a project has the keys of all the others
that go there. -/
def Carried (doc : List Loading) : Prop :=
  ∀ (i j k : Nat) (l m : Loading), (homesFrom [] doc)[i]? = some k → doc[i]? = some l →
    (homesFrom [] doc)[j]? = some k → doc[j]? = some m → k ∉ (homesFrom [] doc).drop (j + 1) →
      ∀ key ∈ l.record.params, key ∈ m.record.params

/-- Every record has its project, with all its parameter keys. -/
structure Lossless (doc : List Loading) (s : LoadedProjects) : Prop where
  filed : s.filed.length = doc.length
  live : ∀ (i : Nat) (l : Loading) (id : ProjectId), doc[i]? = some l → s.filed[i]? = some id →
    ∃ p, s.projects.byId.lookup id = some p ∧
      (p.name = l.record.name ∨ s.projects.byCwd.lookup (keyOf l) = some id)
  params : ∀ (i : Nat) (l : Loading) (id : ProjectId), doc[i]? = some l → s.filed[i]? = some id →
    ∀ key ∈ l.record.params, ∃ value, (s.params id).lookup key = some value ∧
      ∃ (j : Nat) (m : Loading), doc[j]? = some m ∧ s.filed[j]? = some id ∧
        m.record.params.lookup key = some value

/-! ### The store and its founders -/

def idOf (k : Nat) : ProjectId := ⟨UInt64.ofNat k⟩

theorem idOf_injective {k m : Nat} (hk : k < UInt64.size) (hm : m < UInt64.size)
    (h : idOf k = idOf m) : k = m := by
  have hval := congrArg (fun id => id.val.toNat) h
  dsimp only [idOf] at hval
  rwa [UInt64.toNat_ofNat_of_lt' hk, UInt64.toNat_ofNat_of_lt' hm] at hval

/-- The projects of the store are the founders', numbered in order. -/
structure Founded (ps : Projects) (founders : List Loading) : Prop where
  byName : ∀ name, ps.byName.lookup name =
    (founders.findIdx? fun f => f.record.name = name).map idOf
  byCwd : ∀ key, ps.byCwd.lookup key = (founders.findIdx? fun f => keyOf f = key).map idOf
  byId : ∀ (k : Nat) (f : Loading), founders[k]? = some f →
    ps.byId.lookup (idOf k) = some ⟨f.record.name, f.record.cwd⟩
  next : ps.next = UInt64.ofNat founders.length

theorem founded_new : Founded Projects.new [] where
  byName _ := rfl
  byCwd _ := rfl
  byId _ _ h := by cases h
  next := rfl

/-- An index of the founders, with a founder more. -/
theorem index_added {index : Map String ProjectId} {founders : List Loading} {key : Loading → String}
    (h : ∀ x, index.lookup x = (founders.findIdx? fun f => key f = x).map idOf) {l : Loading}
    (hnone : index.lookup (key l) = none) (x : String) :
    (index.insert (key l) (idOf founders.length)).lookup x =
      ((founders ++ [l]).findIdx? fun f => key f = x).map idOf := by
  rw [get_insert, List.findIdx?_append]
  by_cases heq : x = key l
  · rw [h, Option.map_eq_none_iff] at hnone
    rw [if_pos heq, heq, hnone]
    simp [List.findIdx?_cons]
  · have hother : [l].findIdx? (fun f => key f = x) = none := by
      simp [List.findIdx?_cons, Ne.symm heq]
    rw [if_neg heq, h, hother, Option.map_none, Option.or_none]

/-- A founder more. -/
theorem Founded.added {ps : Projects} {founders : List Loading} (h : Founded ps founders)
    {l : Loading} (hname : ps.byName.lookup l.record.name = none)
    (hkey : ps.byCwd.lookup (keyOf l) = none) (hbound : founders.length < UInt64.size) :
    Founded
      { byId := ps.byId.insert (idOf founders.length) ⟨l.record.name, l.record.cwd⟩
        byName := ps.byName.insert l.record.name (idOf founders.length)
        byCwd := ps.byCwd.insert (keyOf l) (idOf founders.length)
        next := ps.next + 1 } (founders ++ [l]) where
  byName := index_added h.byName hname
  byCwd := index_added h.byCwd hkey
  byId k f hf := by
    rw [get_insert]
    by_cases hk : k < founders.length
    · rw [List.getElem?_append_left hk] at hf
      have hne : idOf k ≠ idOf founders.length := fun heq =>
        Nat.ne_of_lt hk (idOf_injective (Nat.lt_trans hk hbound) hbound heq)
      rw [if_neg hne]
      exact h.byId k f hf
    · have hlen := (List.getElem?_eq_some_iff.1 hf).1
      rw [List.length_append, List.length_singleton] at hlen
      obtain rfl : k = founders.length := by omega
      rw [List.getElem?_concat_length, Option.some.injEq] at hf
      rw [if_pos rfl, hf]
  next := by
    dsimp only
    rw [h.next, List.length_append, List.length_singleton]
    simp

/-! ### One record -/

theorem founderOf_eq_none {founders : List Loading} {l : Loading} : founderOf founders l = none ↔
    (founders.findIdx? fun f => f.record.name = l.record.name) = none ∧
      (founders.findIdx? fun f => keyOf f = keyOf l) = none := by
  rw [founderOf, Option.or_eq_none_iff]

/-- Where a record goes in the store is where it goes among the founders. -/
theorem target_founded {ps : Projects} {founders : List Loading} (h : Founded ps founders)
    (l : Loading) (hbound : founders.length < UInt64.size) :
    (target ps l).1 = some (idOf (homeOf founders l)) ∧
      Founded (target ps l).2 (foundersAfter founders l) := by
  have hname := h.byName l.record.name
  have hkey := h.byCwd (keyOf l)
  rw [target, Projects.create]
  cases hfound : founders.findIdx? fun f => f.record.name = l.record.name with
  | some k =>
      -- the name is taken
      have hhome : founderOf founders l = some k := by rw [founderOf, hfound]; rfl
      rw [hfound, Option.map_some] at hname
      rw [hname, homeOf, foundersAfter, hhome]
      exact ⟨hname, h⟩
  | none =>
      rw [hfound, Option.map_none] at hname
      rw [hname, if_neg (by decide)]
      cases hrooted : founders.findIdx? fun f => keyOf f = keyOf l with
      | some k =>
          have hhome : founderOf founders l = some k := by rw [founderOf, hfound, hrooted]; rfl
          rw [hrooted, Option.map_some] at hkey
          rw [keyOf] at hkey
          dsimp only
          rw [hkey, homeOf, foundersAfter, hhome]
          exact ⟨rfl, h⟩
      | none =>
          have hhome : founderOf founders l = none := founderOf_eq_none.2 ⟨hfound, hrooted⟩
          rw [hrooted, Option.map_none] at hkey
          have hadded := h.added hname hkey hbound
          rw [keyOf] at hkey
          dsimp only
          rw [hkey, homeOf, foundersAfter, hhome, h.next]
          exact ⟨rfl, by rw [h.next] at hadded; exact hadded⟩

/-- The founder at a record's home has its name, or its directory. -/
theorem exists_founder (founders : List Loading) (l : Loading) :
    ∃ f, (foundersAfter founders l)[homeOf founders l]? = some f ∧
      (f.record.name = l.record.name ∨
        ((foundersAfter founders l).findIdx? fun f => keyOf f = keyOf l) =
          some (homeOf founders l)) := by
  rw [homeOf, foundersAfter]
  cases hhome : founderOf founders l with
  | none =>
      rw [if_pos rfl, Option.getD_none, List.getElem?_concat_length]
      exact ⟨l, rfl, .inl rfl⟩
  | some k =>
      rw [if_neg (Option.some_ne_none k), Option.getD_some]
      rw [founderOf, Option.or_eq_some_iff] at hhome
      rcases hhome with hname | ⟨-, hkey⟩
      · obtain ⟨hk, hsame, -⟩ := List.findIdx?_eq_some_iff_getElem.1 hname
        exact ⟨founders[k], List.getElem?_eq_getElem hk, .inl (by simpa using hsame)⟩
      · obtain ⟨hk, -, -⟩ := List.findIdx?_eq_some_iff_getElem.1 hkey
        exact ⟨founders[k], List.getElem?_eq_getElem hk, .inr hkey⟩

theorem foundersAfter_extends (founders : List Loading) (l : Loading) :
    ∃ more, foundersAfter founders l = founders ++ more ∧ more.length ≤ 1 := by
  rw [foundersAfter]
  split
  · exact ⟨[l], rfl, Nat.le_refl 1⟩
  · exact ⟨[], (List.append_nil _).symm, Nat.zero_le 1⟩

/-- One record is folded onto its project, which gets its parameters. -/
theorem load_founded {s : LoadedProjects} {founders : List Loading}
    (h : Founded s.projects founders) (l : Loading) (hbound : founders.length < UInt64.size) :
    Founded (s.load l).projects (foundersAfter founders l) ∧
      (s.load l).filed = s.filed ++ [idOf (homeOf founders l)] ∧
      (s.load l).params = Function.update s.params (idOf (homeOf founders l)) l.record.params := by
  obtain ⟨hid, hfounded⟩ := target_founded h l hbound
  obtain ⟨f, hf, -⟩ := exists_founder founders l
  have hlive := hfounded.byId _ f hf
  have htarget : target s.projects l = (some (idOf (homeOf founders l)), (target s.projects l).2) :=
    Prod.ext hid rfl
  rw [load, htarget]
  dsimp only
  rw [hlive]
  exact ⟨hfounded, rfl, rfl⟩

/-! ### All records -/

/-- The parameters of the last record that goes home `k`. -/
def lastParams (k : Nat) (entries : List (Nat × Loading)) : Option (Map String String) :=
  ((entries.filter fun entry => entry.1 = k).getLast?).map fun entry => entry.2.record.params

theorem length_homesFrom (founders doc : List Loading) :
    (homesFrom founders doc).length = doc.length := by
  induction doc generalizing founders with
  | nil => rfl
  | cons l rest ih => rw [homesFrom, List.length_cons, ih, List.length_cons]

theorem lastParams_cons (k : Nat) (entry : Nat × Loading) (rest : List (Nat × Loading)) :
    lastParams k (entry :: rest) = (lastParams k rest).or
      (if entry.1 = k then some entry.2.record.params else none) := by
  rw [lastParams, lastParams, List.filter_cons]
  by_cases hk : entry.1 = k
  · rw [if_pos (by simpa using hk), if_pos hk, List.getLast?_cons]
    cases (rest.filter fun entry => entry.1 = k).getLast? <;> rfl
  · rw [if_neg (by simpa using hk), if_neg hk, Option.or_none]

/-- The founders after all records. -/
def foundersFrom (founders doc : List Loading) : List Loading := doc.foldl foundersAfter founders

theorem foundersFrom_extends (founders doc : List Loading) :
    ∃ more, foundersFrom founders doc = founders ++ more := by
  induction doc generalizing founders with
  | nil => exact ⟨[], (List.append_nil _).symm⟩
  | cons l rest ih =>
      obtain ⟨first, hfirst, -⟩ := foundersAfter_extends founders l
      obtain ⟨more, hmore⟩ := ih (foundersAfter founders l)
      refine ⟨first ++ more, ?_⟩
      rw [foundersFrom, List.foldl_cons, ← List.append_assoc, ← hfirst]
      exact hmore

/-- Loading, from any store on: the founders have their projects, each
record is filed at its home, and a project has the parameters of the last
record that went there. -/
theorem loaded {s : LoadedProjects} {founders doc : List Loading} (h : Founded s.projects founders)
    (hbound : founders.length + doc.length ≤ UInt64.size) :
    Founded (doc.foldl load s).projects (foundersFrom founders doc) ∧
      (doc.foldl load s).filed = s.filed ++ (homesFrom founders doc).map idOf ∧
      ∀ k < UInt64.size, (doc.foldl load s).params (idOf k) =
        (lastParams k ((homesFrom founders doc).zip doc)).getD (s.params (idOf k)) := by
  induction doc generalizing s founders with
  | nil =>
      refine ⟨h, (List.append_nil _).symm, fun k _ => rfl⟩
  | cons l rest ih =>
      rw [List.length_cons] at hbound
      obtain ⟨hfounded, hfiled, hparams⟩ := load_founded h l (by omega)
      obtain ⟨more, hafter, hmore⟩ := foundersAfter_extends founders l
      obtain ⟨f, hf, -⟩ := exists_founder founders l
      have hlt : homeOf founders l < UInt64.size := by
        have hlen := (List.getElem?_eq_some_iff.1 hf).1
        rw [hafter, List.length_append] at hlen
        omega
      obtain ⟨hall, hallfiled, hallparams⟩ := ih hfounded (by
        rw [hafter, List.length_append]
        omega)
      refine ⟨hall, ?_, fun k hk => ?_⟩
      · rw [List.foldl_cons, hallfiled, hfiled, homesFrom, List.map_cons, List.append_assoc]
        rfl
      · rw [List.foldl_cons, hallparams k hk, hparams, homesFrom, List.zip_cons_cons,
          lastParams_cons]
        cases lastParams k ((homesFrom (foundersAfter founders l) rest).zip rest) with
        | some params => rfl
        | none =>
            by_cases heq : homeOf founders l = k
            · subst heq
              simp
            · have hne : idOf k ≠ idOf (homeOf founders l) := fun hsame =>
                heq (idOf_injective hk hlt hsame).symm
              simp [heq, Function.update_of_ne hne]

/-- The founder at a record's home is there to the end. -/
theorem home_founder {founders doc : List Loading} {i k : Nat} {l : Loading}
    (hk : (homesFrom founders doc)[i]? = some k) (hl : doc[i]? = some l) :
    ∃ f, (foundersFrom founders doc)[k]? = some f ∧
      (f.record.name = l.record.name ∨
        ((foundersFrom founders doc).findIdx? fun f => keyOf f = keyOf l) = some k) := by
  induction doc generalizing founders i with
  | nil => cases hl
  | cons first rest ih =>
      cases i with
      | succ i => exact ih hk hl
      | zero =>
          obtain rfl := Option.some.inj hk
          obtain rfl := Option.some.inj hl
          obtain ⟨f, hf, hsame⟩ := exists_founder founders first
          obtain ⟨more, hmore⟩ := foundersFrom_extends (foundersAfter founders first) rest
          have hall : foundersFrom founders (first :: rest) =
              foundersAfter founders first ++ more := hmore
          rw [hall]
          refine ⟨f, ?_, ?_⟩
          · rw [List.getElem?_append_left (List.getElem?_eq_some_iff.1 hf).1]
            exact hf
          · rcases hsame with hname | hkey
            · exact .inl hname
            · rw [List.findIdx?_append, hkey]
              exact .inr rfl

theorem foundersFrom_length (founders doc : List Loading) :
    (foundersFrom founders doc).length ≤ founders.length + doc.length := by
  induction doc generalizing founders with
  | nil => exact Nat.le_refl _
  | cons l rest ih =>
      obtain ⟨more, hafter, hmore⟩ := foundersAfter_extends founders l
      have hrest := ih (foundersAfter founders l)
      rw [hafter, List.length_append, ← hafter] at hrest
      rw [List.length_cons]
      show (foundersFrom (foundersAfter founders l) rest).length ≤ _
      omega

/-- The last record at home `k` is the one whose parameters stay. -/
theorem exists_last {homes : List Nat} {doc : List Loading} (hlen : homes.length = doc.length)
    {k : Nat} (hk : k ∈ homes) : ∃ j m, homes[j]? = some k ∧ doc[j]? = some m ∧
      k ∉ homes.drop (j + 1) ∧ lastParams k (homes.zip doc) = some m.record.params := by
  induction homes generalizing doc with
  | nil => cases hk
  | cons home homes ih =>
      cases doc with
      | nil => cases hlen
      | cons first rest =>
          have hlen' : homes.length = rest.length := Nat.succ.inj hlen
          rw [List.zip_cons_cons, lastParams_cons]
          by_cases hlater : k ∈ homes
          · obtain ⟨j, m, hj, hm, hlast, hparams⟩ := ih hlen' hlater
            refine ⟨j + 1, m, hj, hm, hlast, ?_⟩
            rw [hparams]
            rfl
          · obtain rfl : k = home := (List.mem_cons.1 hk).resolve_right hlater
            have hnone : (homes.zip rest).filter (fun entry => entry.1 = k) = [] := by
              rw [List.filter_eq_nil_iff]
              intro entry hentry
              have hne : entry.1 ≠ k := by
                rintro rfl
                exact hlater (List.of_mem_zip hentry).1
              simpa using hne
            refine ⟨0, first, rfl, rfl, hlater, ?_⟩
            rw [lastParams, hnone, if_pos rfl]
            rfl

/-- There is one last place. -/
theorem last_unique {homes : List Nat} {i j k : Nat} (hi : homes[i]? = some k)
    (hilast : k ∉ homes.drop (i + 1)) (hj : homes[j]? = some k) (hjlast : k ∉ homes.drop (j + 1)) :
    i = j := by
  have hbelow : ∀ a b, homes[b]? = some k → k ∉ homes.drop (a + 1) → b ≤ a := by
    intro a b hb hlast
    by_contra hlt
    refine hlast (List.mem_of_getElem? (i := b - (a + 1)) ?_)
    rw [List.getElem?_drop, show a + 1 + (b - (a + 1)) = b by omega]
    exact hb
  have hle := hbelow i j hj hilast
  have hge := hbelow j i hi hjlast
  omega

/-! ### What is lost -/

/-- A document loads without loss exactly where the last record of each
project carries the parameter keys of the others. -/
theorem lossless_iff_carried (doc : List Loading) (hbound : doc.length ≤ UInt64.size) :
    Lossless doc (projectsFromPersisted doc) ↔ Carried doc := by
  have hstart : Founded LoadedProjects.new.projects [] := founded_new
  have hroom : ([] : List Loading).length + doc.length ≤ UInt64.size := by
    rw [List.length_nil]
    omega
  obtain ⟨hfounded, hfiled, hparams⟩ := loaded hstart hroom
  rw [show LoadedProjects.new.filed = [] from rfl, List.nil_append] at hfiled
  have hlen := length_homesFrom [] doc
  -- a record is filed at its home
  have hhome : ∀ (i : Nat) (id : ProjectId), (projectsFromPersisted doc).filed[i]? = some id →
      ∃ k, (homesFrom [] doc)[i]? = some k ∧ id = idOf k := by
    intro i id hid
    rw [projectsFromPersisted, hfiled, List.getElem?_map, Option.map_eq_some_iff] at hid
    obtain ⟨k, hk, rfl⟩ := hid
    exact ⟨k, hk, rfl⟩
  have hfile : ∀ (i k : Nat), (homesFrom [] doc)[i]? = some k →
      (projectsFromPersisted doc).filed[i]? = some (idOf k) := by
    intro i k hk
    rw [projectsFromPersisted, hfiled, List.getElem?_map, hk]
    rfl
  have hsmall : ∀ (i k : Nat) (l : Loading), (homesFrom [] doc)[i]? = some k → doc[i]? = some l →
      k < UInt64.size := by
    intro i k l hk hl
    obtain ⟨f, hf, -⟩ := home_founder hk hl
    have hlt := (List.getElem?_eq_some_iff.1 hf).1
    have hle := foundersFrom_length [] doc
    rw [List.length_nil] at hle
    omega
  have hlast : ∀ (i k : Nat) (l : Loading), (homesFrom [] doc)[i]? = some k → doc[i]? = some l →
      ∃ j m, (homesFrom [] doc)[j]? = some k ∧ doc[j]? = some m ∧
        k ∉ (homesFrom [] doc).drop (j + 1) ∧
          (projectsFromPersisted doc).params (idOf k) = m.record.params := by
    intro i k l hk hl
    obtain ⟨j, m, hj, hm, hend, heq⟩ := exists_last hlen (List.mem_of_getElem? hk)
    refine ⟨j, m, hj, hm, hend, ?_⟩
    rw [projectsFromPersisted, hparams k (hsmall i k l hk hl), heq, Option.getD_some]
  constructor
  · intro h i j k l m hi hl hj hm hend key hkey
    obtain ⟨value, hvalue, -⟩ := h.params i l (idOf k) hl (hfile i k hi) key hkey
    obtain ⟨j', m', hj', hm', hend', heq⟩ := hlast i k l hi hl
    -- both are the last one at home `k`
    obtain rfl := last_unique hj hend hj' hend'
    rw [heq] at hvalue
    rw [hm] at hm'
    obtain rfl := Option.some.inj hm'
    exact AList.lookup_isSome.1 (by rw [hvalue]; rfl)
  · intro h
    refine ⟨?_, fun i l id hl hid => ?_, fun i l id hl hid key hkey => ?_⟩
    · rw [projectsFromPersisted, hfiled, List.length_map, hlen]
    · obtain ⟨k, hk, rfl⟩ := hhome i id hid
      obtain ⟨f, hf, hshared⟩ := home_founder hk hl
      refine ⟨_, hfounded.byId k f hf, ?_⟩
      rcases hshared with hname | hkey
      · exact .inl hname
      · refine .inr ?_
        rw [projectsFromPersisted, hfounded.byCwd, hkey]
        rfl
    · obtain ⟨k, hk, rfl⟩ := hhome i id hid
      obtain ⟨j, m, hj, hm, hend, heq⟩ := hlast i k l hk hl
      have hcarried := h i j k l m hk hl hj hm hend key hkey
      obtain ⟨value, hvalue⟩ := Option.isSome_iff_exists.1 (AList.lookup_isSome.2 hcarried)
      exact ⟨value, by rw [heq]; exact hvalue, j, m, hm, hfile j k hj, hvalue⟩

/-- No file is there to be looked at: every path is its own key. -/
def recordAt (name cwd : String) (params : Map String String) : Loading :=
  ⟨⟨name, cwd, params⟩, fun _ => none⟩

/-- Of two records with one name, the first one's parameter is lost. -/
theorem overwritten_params :
    ¬ ∀ doc : List Loading, doc.length ≤ UInt64.size → Lossless doc (projectsFromPersisted doc) := by
  intro h
  have hlossless := h [recordAt "Notes" "/notes" (AList.singleton "theme" "dark"),
    recordAt "Notes" "/elsewhere" ∅] (by decide)
  obtain ⟨value, hvalue, -⟩ := hlossless.params 0 _ ⟨0⟩ rfl (by decide) "theme"
    (by decide)
  have hnone : ((projectsFromPersisted [recordAt "Notes" "/notes" (AList.singleton "theme" "dark"),
      recordAt "Notes" "/elsewhere" ∅]).params ⟨0⟩).lookup "theme" = none := by
    decide
  rw [hnone] at hvalue
  cases hvalue

theorem lossless_iff_carried_sample :
    Lossless [recordAt "Notes" "/notes" ∅, recordAt "Notes" "/elsewhere" ∅]
        (projectsFromPersisted [recordAt "Notes" "/notes" ∅, recordAt "Notes" "/elsewhere" ∅]) ↔
      Carried [recordAt "Notes" "/notes" ∅, recordAt "Notes" "/elsewhere" ∅] :=
  lossless_iff_carried _ (by decide)

end LoadedProjects

end Yaldabaoth
