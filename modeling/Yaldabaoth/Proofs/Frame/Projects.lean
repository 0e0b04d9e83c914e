import Yaldabaoth.Model.Projects

/-!
# `Yaldabaoth.Proofs.Frame.Projects`: the indexes of the project store

`Sound` is what the store promises of its two indexes, in one state.
`Kept` is the invariant behind it. A call that takes a path out of the
index asks the file system for the key of the path again; `Remembers`
says that it gets the key that the project has in the index. Such calls,
and those that look for no key, keep the invariant. Any other leaves a
key behind that belongs to nobody, or to a project that has another one.
-/

set_option autoImplicit false

namespace Yaldabaoth

namespace Projects

open Map

/-! ### What the store promises -/

structure Sound (s : Issuing) : Prop where
  live_names : ∀ name id, s.projects.byName.lookup name = some id →
    (s.projects.byId.lookup id).isSome = true
  live_cwds : ∀ key id, s.projects.byCwd.lookup key = some id →
    (s.projects.byId.lookup id).isSome = true
  named : ∀ id p, s.projects.byId.lookup id = some p → s.projects.byName.lookup p.name = some id
  rooted : ∀ id p, s.projects.byId.lookup id = some p → Owns s.projects.byCwd id
  fresh : s.issued.Nodup
  refused : ∀ call, (s.projects.perform call).1 = true → (s.projects.perform call).2 = s.projects

/-- What is true of the store besides, along a run. -/
structure Kept (s : Issuing) : Prop where
  names : ∀ name id, s.projects.byName.lookup name = some id ↔
    ∃ p, s.projects.byId.lookup id = some p ∧ p.name = name
  live_cwds : ∀ key id, s.projects.byCwd.lookup key = some id →
    (s.projects.byId.lookup id).isSome = true
  rooted : ∀ id p, s.projects.byId.lookup id = some p → Owns s.projects.byCwd id
  issued : s.issued = (List.range s.issued.length).map fun k => ⟨UInt64.ofNat k⟩
  next : s.projects.next = UInt64.ofNat s.issued.length
  bounded : s.issued.length ≤ UInt64.size
  known : ∀ id, (s.projects.byId.lookup id).isSome = true → id ∈ s.issued

/-- The key that a call finds for a path that it takes out of the index
is the one that the project has there. And while it creates a project,
there are ids left. -/
def Remembers (s : Issuing) : Call → Prop
  | .create name cwd fs =>
      s.projects.byName.lookup name = none →
        s.projects.byCwd.lookup (cwdMatchKey fs cwd) = none → s.issued.length < UInt64.size
  | .ensureAtCwd cwd _ fs fs' =>
      s.projects.byCwd.lookup (cwdMatchKey fs cwd) = none →
        s.projects.byCwd.lookup (cwdMatchKey fs' cwd) = none → s.issued.length < UInt64.size
  | .rename _ _ => True
  | .setCwd id cwd fs fs' =>
      s.projects.byCwd.lookup (cwdMatchKey fs cwd) = none →
        ∀ p ∈ s.projects.byId.lookup id,
          s.projects.byCwd.lookup (cwdMatchKey fs' p.cwd) = some id
  | .close id fs =>
      ∀ p ∈ s.projects.byId.lookup id, s.projects.byCwd.lookup (cwdMatchKey fs p.cwd) = some id

/-! ### What a refused call does -/

/-- The store with one more project. -/
def added (ps : Projects) (name cwd key : String) : Projects where
  byId := ps.byId.insert ⟨ps.next⟩ ⟨name, cwd⟩
  byName := ps.byName.insert name ⟨ps.next⟩
  byCwd := ps.byCwd.insert key ⟨ps.next⟩
  next := ps.next + 1

theorem create_cases (ps : Projects) (name cwd : String) (fs : Canonicalize) :
    (∃ e, ps.create name cwd fs = (.error e, ps)) ∨
      ps.byName.lookup name = none ∧ ps.byCwd.lookup (cwdMatchKey fs cwd) = none ∧
        ps.create name cwd fs = (.ok ⟨ps.next⟩, ps.added name cwd (cwdMatchKey fs cwd)) := by
  rw [create]
  cases hname : ps.byName.lookup name with
  | some owner => exact .inl ⟨_, rfl⟩
  | none =>
      rw [if_neg (by simp)]
      dsimp only
      cases hcwd : ps.byCwd.lookup (cwdMatchKey fs cwd) with
      | some owner => exact .inl ⟨_, rfl⟩
      | none => exact .inr ⟨rfl, rfl, rfl⟩

theorem perform_refused (ps : Projects) (call : Call) (h : (ps.perform call).1 = true) :
    (ps.perform call).2 = ps := by
  cases call with
  | create name cwd fs =>
      rcases ps.create_cases name cwd fs with ⟨e, he⟩ | ⟨-, -, hok⟩
      · show (ps.create name cwd fs).2 = ps
        rw [he]
      · change (!(ps.create name cwd fs).1.isOk) = true at h
        rw [hok] at h
        cases h
  | ensureAtCwd cwd nameHint fs fs' => cases h
  | rename id name =>
      change (!(ps.rename id name).1.isOk) = true at h
      show (ps.rename id name).2 = ps
      rw [rename] at h ⊢
      split at h
      · rfl
      · split at h <;> cases h
  | setCwd id cwd fs fs' =>
      change (!(ps.setCwd id cwd fs fs').1.isOk) = true at h
      show (ps.setCwd id cwd fs fs').2 = ps
      rw [setCwd] at h ⊢
      split at h
      · rfl
      · split at h <;> cases h
  | close id fs => cases h

theorem Kept.sound {s : Issuing} (h : Kept s) : Sound s where
  live_names name id hname := by
    obtain ⟨p, hp, -⟩ := (h.names name id).1 hname
    rw [hp]
    rfl
  live_cwds := h.live_cwds
  named id p hp := (h.names p.name id).2 ⟨p, hp, rfl⟩
  rooted := h.rooted
  fresh := by
    rw [h.issued]
    refine List.Nodup.map_on (fun i hi j hj heq => ?_) List.nodup_range
    have hi := List.mem_range.1 hi
    have hj := List.mem_range.1 hj
    have hsize := h.bounded
    have hval : UInt64.ofNat i = UInt64.ofNat j := congrArg ProjectId.val heq
    have htoNat := congrArg UInt64.toNat hval
    rw [UInt64.toNat_ofNat', UInt64.toNat_ofNat', Nat.mod_eq_of_lt (Nat.lt_of_lt_of_le hi hsize),
      Nat.mod_eq_of_lt (Nat.lt_of_lt_of_le hj hsize)] at htoNat
    exact htoNat
  refused := s.projects.perform_refused

/-! ### Names that are free -/

theorem nameCandidate_injective (hint : String) : Function.Injective (nameCandidate hint) := by
  intro m n heq
  have hlonger : ∀ k, nameCandidate hint (k + 1) ≠ nameCandidate hint 0 := by
    intro k h
    have hlength := congrArg String.length h
    simp only [nameCandidate, String.length_append] at hlength
    have : (" (" : String).length = 2 := rfl
    omega
  cases m with
  | zero =>
      cases n with
      | zero => rfl
      | succ n => exact absurd heq.symm (hlonger n)
  | succ m =>
      cases n with
      | zero => exact absurd heq (hlonger m)
      | succ n =>
          simp only [nameCandidate, String.append_right_inj, String.append_left_inj] at heq
          -- the digits of a number give it back
          have hdigits := congrArg (fun t => Nat.ofDigitChars 10 (String.toList t) 0) heq
          simp only [Nat.toList_repr, Nat.ofDigitChars_ten_toDigits] at hdigits
          omega

/-- Of more candidates than there are names in the store, one is free. -/
theorem freeName_free (ps : Projects) (hint : String) (fuel : Nat) : ∀ n : Nat,
    (∃ k ≤ fuel, ps.byName.lookup (nameCandidate hint (n + k)) = none) →
      ps.byName.lookup (ps.freeName hint fuel n) = none := by
  induction fuel with
  | zero =>
      rintro n ⟨k, hk, hfree⟩
      obtain rfl : k = 0 := by omega
      exact hfree
  | succ fuel ih =>
      rintro n ⟨k, hk, hfree⟩
      rw [freeName]
      by_cases htaken : (ps.byName.lookup (nameCandidate hint n)).isSome = true
      · rw [if_pos htaken]
        refine ih (n + 1) ⟨k - 1, by omega, ?_⟩
        have hpos : k ≠ 0 := by
          rintro rfl
          rw [Nat.add_zero] at hfree
          rw [hfree] at htaken
          cases htaken
        have hsame : n + 1 + (k - 1) = n + k := by omega
        rw [hsame]
        exact hfree
      · rw [if_neg htaken]
        exact Option.not_isSome_iff_eq_none.1 htaken

theorem exists_free_candidate (ps : Projects) (hint : String) :
    ∃ k ≤ ps.byName.entries.length, ps.byName.lookup (nameCandidate hint (0 + k)) = none := by
  by_contra hnone
  have htaken : ∀ k ∈ List.range (ps.byName.entries.length + 1),
      nameCandidate hint k ∈ ps.byName.keys := by
    intro k hk
    have hk := List.mem_range.1 hk
    cases hlookup : ps.byName.lookup (nameCandidate hint k) with
    | some id => exact mem_keys_of_get hlookup
    | none => exact absurd ⟨k, by omega, by rw [Nat.zero_add]; exact hlookup⟩ hnone
  -- more distinct candidates than keys
  have hsub : (List.range (ps.byName.entries.length + 1)).map (nameCandidate hint) ⊆
      ps.byName.keys := by
    intro name hname
    obtain ⟨k, hk, rfl⟩ := List.mem_map.1 hname
    exact htaken k hk
  have hdistinct := List.Nodup.map (nameCandidate_injective hint)
    (List.nodup_range (n := ps.byName.entries.length + 1))
  have hle := (List.subperm_of_subset hdistinct hsub).length_le
  rw [List.length_map, List.length_range, AList.keys, List.keys, List.length_map] at hle
  omega

theorem freeName_unused (ps : Projects) (hint : String) :
    ps.byName.lookup (ps.freeName hint ps.byName.entries.length 0) = none :=
  ps.freeName_free hint _ 0 (ps.exists_free_candidate hint)

/-! ### What one call does to the invariant -/

/-- While there are ids left, the next one is new. -/
theorem Kept.unissued {s : Issuing} (h : Kept s) (hleft : s.issued.length < UInt64.size) :
    (⟨s.projects.next⟩ : ProjectId) ∉ s.issued := by
  intro hmem
  rw [h.issued, List.mem_map] at hmem
  obtain ⟨k, hk, heq⟩ := hmem
  have hk := List.mem_range.1 hk
  have hval : UInt64.ofNat k = s.projects.next := congrArg ProjectId.val heq
  have htoNat := congrArg UInt64.toNat (hval.trans h.next)
  rw [UInt64.toNat_ofNat', UInt64.toNat_ofNat', Nat.mod_eq_of_lt (Nat.lt_trans hk hleft),
    Nat.mod_eq_of_lt hleft] at htoNat
  omega

theorem Kept.not_live {s : Issuing} (h : Kept s) (hleft : s.issued.length < UInt64.size) :
    s.projects.byId.lookup ⟨s.projects.next⟩ = none := by
  cases hlookup : s.projects.byId.lookup ⟨s.projects.next⟩ with
  | none => rfl
  | some p => exact absurd (h.known _ (by rw [hlookup]; rfl)) (h.unissued hleft)

theorem Kept.no_key {s : Issuing} (h : Kept s) {id : ProjectId}
    (hdead : s.projects.byId.lookup id = none) (key : String) :
    s.projects.byCwd.lookup key ≠ some id := by
  intro hkey
  have hlive := h.live_cwds key id hkey
  rw [hdead] at hlive
  cases hlive

theorem Kept.start : Kept ⟨new, []⟩ where
  names name id := by simp [new]
  live_cwds key id hkey := by simp [new] at hkey
  rooted id p hp := by simp [new] at hp
  issued := rfl
  next := rfl
  bounded := Nat.zero_le _
  known id hlive := by simp [new] at hlive

theorem Kept.added {s : Issuing} (h : Kept s) {name cwd key : String}
    (hname : s.projects.byName.lookup name = none) (hkey : s.projects.byCwd.lookup key = none)
    (hleft : s.issued.length < UInt64.size) :
    Kept ⟨s.projects.added name cwd key, s.issued ++ [⟨s.projects.next⟩]⟩ := by
  have hdead := h.not_live hleft
  generalize hid : (⟨s.projects.next⟩ : ProjectId) = id at hdead
  constructor
  case names =>
    intro n i
    simp only [Projects.added, hid, get_insert]
    by_cases hi : i = id <;> by_cases hn : n = name
    · simp [hi, hn]
    · subst hi
      rw [if_neg hn, h.names, hdead]
      simp [Ne.symm hn]
    · subst hn
      rw [if_pos rfl, if_neg hi, ← h.names, hname]
      simp [Ne.symm hi]
    · rw [if_neg hn, if_neg hi]
      exact h.names n i
  case live_cwds =>
    intro k i hk
    simp only [Projects.added, hid, get_insert] at hk ⊢
    split at hk
    · obtain rfl := Option.some.inj hk
      simp
    · split
      · rfl
      · exact h.live_cwds k i hk
  case rooted =>
    intro i p hp
    simp only [Projects.added, hid, get_insert] at hp ⊢
    by_cases hi : i = id
    · subst hi
      exact owns_insert key (h.no_key hdead)
    · rw [if_neg hi] at hp
      exact (h.rooted i p hp).insert_other (Ne.symm hi) hkey
  case issued =>
    subst hid
    show s.issued ++ [⟨s.projects.next⟩] = _
    rw [List.length_append, List.length_singleton, List.range_succ, List.map_append, ← h.issued,
      h.next]
    rfl
  case next =>
    show s.projects.next + 1 = _
    rw [List.length_append, List.length_singleton, UInt64.ofNat_add, h.next]
    rfl
  case bounded =>
    rw [List.length_append, List.length_singleton]
    omega
  case known =>
    intro i hi
    simp only [Projects.added, hid, get_insert] at hi ⊢
    split at hi
    · next heq => simp [heq]
    · exact List.mem_append_left _ (h.known i hi)

theorem Kept.renamed {s : Issuing} (h : Kept s) {id : ProjectId} {p : Project} {name : String}
    (hp : s.projects.byId.lookup id = some p) (hname : s.projects.byName.lookup name = none) :
    Kept ⟨{ s.projects with
      byName := (s.projects.byName.erase p.name).insert name id
      byId := s.projects.byId.insert id { p with name } }, s.issued⟩ := by
  have hown := (h.names p.name id).2 ⟨p, hp, rfl⟩
  have hlive : (s.projects.byId.lookup id).isSome = true := by rw [hp]; rfl
  constructor
  case names =>
    intro n i
    simp only [get_insert, get_erase]
    by_cases hi : i = id <;> by_cases hn : n = name
    · simp [hi, hn]
    · subst hi
      simp only [if_neg hn, if_pos]
      split
      · simp [Ne.symm hn]
      · next hold =>
        rw [h.names, hp]
        simp [Ne.symm hn, Ne.symm hold]
    · subst hn
      rw [if_pos rfl, if_neg hi, ← h.names, hname]
      simp [Ne.symm hi]
    · rw [if_neg hn, if_neg hi]
      split
      · next hold =>
        rw [← h.names, hold, hown]
        simp [Ne.symm hi]
      · exact h.names n i
  case live_cwds =>
    intro k i hk
    simp only [get_insert]
    split
    · rfl
    · exact h.live_cwds k i hk
  case rooted =>
    intro i q hq
    simp only [get_insert] at hq
    split at hq
    · next heq => exact heq ▸ h.rooted id p hp
    · exact h.rooted i q hq
  case issued => exact h.issued
  case next => exact h.next
  case bounded => exact h.bounded
  case known =>
    intro i hi
    simp only [get_insert] at hi
    split at hi
    · next heq => exact heq ▸ h.known id hlive
    · exact h.known i hi

theorem Kept.repointed {s : Issuing} (h : Kept s) {id : ProjectId} {p : Project}
    {cwd key old : String} (hp : s.projects.byId.lookup id = some p)
    (hkey : s.projects.byCwd.lookup key = none) (hold : s.projects.byCwd.lookup old = some id) :
    Kept ⟨{ s.projects with
      byCwd := (s.projects.byCwd.erase old).insert key id
      byId := s.projects.byId.insert id { p with cwd } }, s.issued⟩ := by
  have hlive : (s.projects.byId.lookup id).isSome = true := by rw [hp]; rfl
  have hfree : (s.projects.byCwd.erase old).lookup key = none := by
    rw [get_erase, hkey, ite_self]
  constructor
  case names =>
    intro n i
    simp only [get_insert]
    rw [h.names]
    by_cases hi : i = id
    · subst hi
      simp [hp]
    · rw [if_neg hi]
  case live_cwds =>
    intro k i hk
    simp only [get_insert, get_erase] at hk ⊢
    split
    · rfl
    · next hi =>
      split at hk
      · exact absurd (Option.some.inj hk).symm hi
      · split at hk
        · cases hk
        · exact h.live_cwds k i hk
  case rooted =>
    intro i q hq
    simp only [get_insert] at hq
    by_cases hi : i = id
    · subst hi
      exact owns_insert key ((h.rooted i p hp).erase_own hold)
    · rw [if_neg hi] at hq
      have hother : s.projects.byCwd.lookup old ≠ some i := by
        rw [hold]
        exact fun heq => hi (Option.some.inj heq).symm
      exact ((h.rooted i q hq).erase_other hother).insert_other (Ne.symm hi) hfree
  case issued => exact h.issued
  case next => exact h.next
  case bounded => exact h.bounded
  case known =>
    intro i hi
    simp only [get_insert] at hi
    split at hi
    · next heq => exact heq ▸ h.known id hlive
    · exact h.known i hi

theorem Kept.closed {s : Issuing} (h : Kept s) {id : ProjectId} {p : Project} {old : String}
    (hp : s.projects.byId.lookup id = some p) (hold : s.projects.byCwd.lookup old = some id) :
    Kept ⟨{ s.projects with
      byId := s.projects.byId.erase id
      byName := s.projects.byName.erase p.name
      byCwd := s.projects.byCwd.erase old }, s.issued⟩ := by
  have hown := (h.names p.name id).2 ⟨p, hp, rfl⟩
  constructor
  case names =>
    intro n i
    simp only [get_erase]
    by_cases hi : i = id
    · subst hi
      rw [if_pos rfl]
      split
      · simp
      · next hn =>
        rw [h.names, hp]
        simp [Ne.symm hn]
    · rw [if_neg hi, ← h.names]
      split
      · next hn =>
        rw [hn, hown]
        simp [Ne.symm hi]
      · rfl
  case live_cwds =>
    intro k i hk
    simp only [get_erase] at hk ⊢
    split at hk
    · cases hk
    · next hne =>
      split
      · next hi =>
        -- the only key of the project that goes is the one that goes with it
        subst hi
        exact absurd ((h.rooted i p hp).unique hk hold) hne
      · exact h.live_cwds k i hk
  case rooted =>
    intro i q hq
    simp only [get_erase] at hq
    split at hq
    · cases hq
    · next hi =>
      refine (h.rooted i q hq).erase_other ?_
      rw [hold]
      exact fun heq => hi (Option.some.inj heq).symm
  case issued => exact h.issued
  case next => exact h.next
  case bounded => exact h.bounded
  case known =>
    intro i hi
    simp only [get_erase] at hi
    split at hi
    · cases hi
    · exact h.known i hi

/-! ### One call -/

/-- The store after a creation, with the id that it gave out. -/
def afterCreate (s : Issuing) (name cwd : String) (fs : Canonicalize) : Issuing :=
  ⟨(s.projects.create name cwd fs).2,
    s.issued ++ (s.projects.create name cwd fs).1.toOption.toList⟩

theorem ensureAtCwd_none {ps : Projects} {cwd : String} {fs : Canonicalize}
    (habsent : ps.byCwd.lookup (cwdMatchKey fs cwd) = none) (hint : String) (fs' : Canonicalize) :
    ps.ensureAtCwd cwd hint fs fs' =
      ((ps.create (ps.freeName hint ps.byName.entries.length 0) cwd fs').1.toOption,
        (ps.create (ps.freeName hint ps.byName.entries.length 0) cwd fs').2) := by
  rw [ensureAtCwd, habsent]
  dsimp only
  rcases ps.create_cases (ps.freeName hint ps.byName.entries.length 0) cwd fs' with
    ⟨e, he⟩ | ⟨-, -, hok⟩
  · rw [he]
    rfl
  · rw [hok]
    rfl

theorem step_ensureAtCwd (s : Issuing) (cwd hint : String) (fs fs' : Canonicalize) :
    machine.step s (.ensureAtCwd cwd hint fs fs') =
      some (if (s.projects.byCwd.lookup (cwdMatchKey fs cwd)).isSome then s
        else afterCreate s (s.projects.freeName hint s.projects.byName.entries.length 0) cwd fs') := by
  cases hfound : s.projects.byCwd.lookup (cwdMatchKey fs cwd) with
  | some id => simp [machine, perform, created, ensureAtCwd, hfound]
  | none => simp [machine, perform, created, hfound, ensureAtCwd_none hfound, afterCreate]

theorem Kept.afterCreate {s : Issuing} (h : Kept s) (name cwd : String) (fs : Canonicalize)
    (hleft : s.projects.byName.lookup name = none →
      s.projects.byCwd.lookup (cwdMatchKey fs cwd) = none → s.issued.length < UInt64.size) :
    Kept (afterCreate s name cwd fs) := by
  rw [Projects.afterCreate]
  rcases s.projects.create_cases name cwd fs with ⟨e, he⟩ | ⟨hname, hkey, hok⟩
  · rw [he]
    simpa [Except.toOption] using h
  · rw [hok]
    exact h.added hname hkey (hleft hname hkey)

/-- Without ids left, a creation gives out one again. -/
theorem Kept.afterCreate_repeats {s : Issuing} (h : Kept s) {name cwd : String}
    {fs : Canonicalize} (hname : s.projects.byName.lookup name = none)
    (hkey : s.projects.byCwd.lookup (cwdMatchKey fs cwd) = none)
    (hnone : ¬ s.issued.length < UInt64.size) : ¬ Sound (Projects.afterCreate s name cwd fs) := by
  intro hsound
  have hbounded := h.bounded
  have hfull : s.issued.length = UInt64.size := by omega
  have hnext : s.projects.next = UInt64.ofNat 0 := by
    rw [h.next, hfull]
    rfl
  have hfirst : (⟨s.projects.next⟩ : ProjectId) ∈ s.issued := by
    rw [h.issued, hnext]
    exact List.mem_map.2 ⟨0, List.mem_range.2 (by rw [hfull]; decide), rfl⟩
  rcases s.projects.create_cases name cwd fs with ⟨e, he⟩ | ⟨-, -, hok⟩
  · simp [create, hname, hkey] at he
  · have hfresh := hsound.fresh
    rw [Projects.afterCreate, hok] at hfresh
    have hdisjoint := (List.nodup_append.1 hfresh).2.2
    exact hdisjoint _ hfirst _ (List.mem_singleton.2 rfl) rfl

theorem Kept.step {s : Issuing} (h : Kept s) {call : Call} (hcall : Remembers s call) {s' : Issuing}
    (hs : machine.step s call = some s') : Kept s' := by
  cases call with
  | create name cwd fs =>
      obtain rfl := Option.some.inj hs
      exact h.afterCreate name cwd fs hcall
  | ensureAtCwd cwd hint fs fs' =>
      rw [step_ensureAtCwd] at hs
      obtain rfl := Option.some.inj hs
      cases hfound : s.projects.byCwd.lookup (cwdMatchKey fs cwd) with
      | some id => exact h
      | none => exact h.afterCreate _ cwd fs' fun _ hkey => hcall hfound hkey
  | rename id name =>
      obtain rfl := Option.some.inj hs
      simp only [perform, created, Option.toList_none, List.append_nil, rename]
      cases hname : s.projects.byName.lookup name with
      | some owner => exact h
      | none =>
          cases hp : s.projects.byId.lookup id with
          | none => exact h
          | some p => exact h.renamed hp hname
  | setCwd id cwd fs fs' =>
      obtain rfl := Option.some.inj hs
      simp only [perform, created, Option.toList_none, List.append_nil, setCwd]
      cases hkey : s.projects.byCwd.lookup (cwdMatchKey fs cwd) with
      | some owner => exact h
      | none =>
          cases hp : s.projects.byId.lookup id with
          | none => exact h
          | some p => exact h.repointed hp hkey (hcall hkey p hp)
  | close id fs =>
      obtain rfl := Option.some.inj hs
      simp only [perform, created, Option.toList_none, List.append_nil, close]
      cases hp : s.projects.byId.lookup id with
      | none => exact h
      | some p => exact h.closed hp (hcall p hp)

/-- A call that takes out another key than the one the project has. -/
theorem Kept.spoiled {s : Issuing} (h : Kept s) {call : Call} (hcall : ¬ Remembers s call) :
    ∃ s', machine.step s call = some s' ∧ ¬ Sound s' := by
  cases call with
  | create name cwd fs =>
      simp only [Remembers, Classical.not_imp] at hcall
      obtain ⟨hname, hkey, hnone⟩ := hcall
      exact ⟨_, rfl, h.afterCreate_repeats hname hkey hnone⟩
  | ensureAtCwd cwd hint fs fs' =>
      simp only [Remembers, Classical.not_imp] at hcall
      obtain ⟨habsent, hkey, hnone⟩ := hcall
      refine ⟨_, step_ensureAtCwd s cwd hint fs fs', ?_⟩
      rw [habsent]
      exact h.afterCreate_repeats (s.projects.freeName_unused hint) hkey hnone
  | rename id name => exact absurd trivial hcall
  | setCwd id cwd fs fs' =>
      simp only [Remembers, Classical.not_imp, not_forall] at hcall
      obtain ⟨hkey, p, hp, hother⟩ := hcall
      refine ⟨_, rfl, fun hsound => ?_⟩
      -- the key it had and the new one are both its own
      obtain ⟨own, hown, -⟩ := h.rooted id p hp
      have hstays : own ≠ cwdMatchKey fs' p.cwd := by
        rintro rfl
        exact hother hown
      have hnew : own ≠ cwdMatchKey fs cwd := by
        rintro rfl
        rw [hkey] at hown
        cases hown
      have hrooted := hsound.rooted id { p with cwd }
      have hlive_cwds := hrooted (by simp [perform, setCwd, hkey, Option.mem_def.1 hp])
      simp only [perform, setCwd, hkey, Option.mem_def.1 hp] at hlive_cwds
      refine hnew (hlive_cwds.unique ?_ ?_)
      · rw [get_insert, if_neg hnew, get_erase, if_neg hstays]
        exact hown
      · rw [get_insert, if_pos rfl]
  | close id fs =>
      simp only [Remembers, not_forall] at hcall
      obtain ⟨p, hp, hother⟩ := hcall
      refine ⟨_, rfl, fun hsound => ?_⟩
      -- the key it had now belongs to a project that is gone
      obtain ⟨own, hown, -⟩ := h.rooted id p hp
      have hstays : own ≠ cwdMatchKey fs p.cwd := by
        rintro rfl
        exact hother hown
      have hlive := hsound.live_cwds own id (by
        simp only [perform, close, Option.mem_def.1 hp]
        rw [get_erase, if_neg hstays]
        exact hown)
      simp only [perform, close, Option.mem_def.1 hp] at hlive
      rw [get_erase, if_pos rfl] at hlive
      cases hlive

/-- Along a run the store keeps its promises exactly when every path
that it forgets still has the key under which it was entered. -/
theorem sound_iff_remembers (calls : List Call) :
    (∀ front back s, calls = front ++ back → machine.run ⟨new, []⟩ front = some s → Sound s) ↔
      machine.Obeys Remembers ⟨new, []⟩ calls :=
  Machine.run_good_iff_obeys (fun _ => Kept.sound) (fun _ _ _ h hcall hs => h.step hcall hs)
    (fun _ _ h hcall => h.spoiled hcall) calls Kept.start

/-- A project at a path that does not exist yet, under a link; the
directory is made; the project is closed. Its key stays. -/
theorem close_behind_link : ¬ ∀ s, machine.Reachable s → Sound s := by
  intro hall
  have hsome : (machine.run ⟨new, []⟩
      [.create "notes" "/tmp/notes" fun _ => none,
        .close ⟨0⟩ fun path => if path = "/tmp/notes" then some "/private/tmp/notes" else none]).map
      (fun s => (s.projects.byCwd.lookup "/tmp/notes", s.projects.byId.lookup ⟨0⟩)) =
        some (some ⟨0⟩, none) := by
    decide
  obtain ⟨s, hrun, hs⟩ := Option.map_eq_some_iff.1 hsome
  obtain ⟨hkey, hdead⟩ := Prod.mk.inj hs
  have hlive := (hall s (Machine.reachable_of_run rfl hrun)).live_cwds "/tmp/notes" ⟨0⟩ hkey
  rw [hdead] at hlive
  cases hlive

end Projects

end Yaldabaoth
