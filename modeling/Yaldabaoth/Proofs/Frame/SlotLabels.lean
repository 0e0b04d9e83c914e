import Yaldabaoth.Model.SlotLabels

/-!
# `Yaldabaoth.Proofs.Frame.SlotLabels`: which labels survive a restore

The labels come out distinct and none is blank, whatever they were. That
the first slot with a label keeps it is another matter: an earlier slot
may have been given just that label. `Kept` says which labels were given
away, counted on the labels alone: of the numbers that no slot so far has,
the smallest ones, one for each slot that was renamed.
-/

set_option autoImplicit false

namespace Yaldabaoth

namespace SlotLabels

open DiffText (chars trimEnd)

attribute [local instance] labelLawful

/-! ### What the labels are to be -/

/-- The first slot with a label keeps it; `pre` are the labels before. -/
def KeepsFirst (pre labels result : List Label) : Prop :=
  ∀ (i : Nat) (label : Label), labels[i]? = some label → blank label = false →
    label ∉ pre ++ labels.take i → result[i]? = some label

structure Settled (labels result : List Label) : Prop where
  distinct : result.Nodup
  nonblank : ∀ label ∈ result, blank label = false
  first : KeepsFirst [] labels result

/-- How many of the numbers below are on none of the labels. -/
def vacancies (pre : List Label) (n : Nat) : Nat :=
  (List.range n).countP fun m => claude m ∉ pre

/-- How many slots do not come first with a label, behind the labels `seen`. -/
def renamedAfter (seen : List Label) : List Label → Nat
  | [] => 0
  | label :: rest =>
      (if blank label = true ∨ label ∈ seen then 1 else 0) + renamedAfter (seen ++ [label]) rest

def renamed (pre : List Label) : Nat := renamedAfter [] pre

/-- Wherever a label `claude-N` comes first, there are enough vacant
numbers below for all slots before it that are renamed. -/
def Room (pre labels : List Label) : Prop :=
  ∀ i n : Nat, labels[i]? = some (claude n) → claude n ∉ pre ++ labels.take i →
    renamed (pre ++ labels.take i) ≤ vacancies (pre ++ labels.take i) n

/-! ### Blank labels -/

theorem blank_claude (n : Nat) : blank (claude n) = false := by
  have hc : isWhitespace 'c' = false := by decide
  have htrim : DiffText.trim (claude n) = trimEnd (claude n) := by
    show trimEnd (List.dropWhile isWhitespace ('c' :: _)) = _
    rw [List.dropWhile_cons_of_neg (by rw [hc]; decide)]
    rfl
  have hne : trimEnd (claude n) ≠ [] := by
    intro hnil
    have hall := List.rdropWhile_eq_nil_iff.1 hnil 'c' (List.mem_cons_self ..)
    rw [hc] at hall
    cases hall
  rw [blank, htrim]
  simpa using hne

theorem uniqueLabel_spec (desired : Label) (used : List Label) :
    uniqueLabel desired used ∉ used ∧ blank (uniqueLabel desired used) = false := by
  rw [uniqueLabel]
  split
  · next h =>
    simp only [Bool.and_eq_true, Bool.not_eq_true', decide_eq_true_eq] at h
    exact ⟨h.2, h.1⟩
  · exact ⟨Nat.find_spec (exists_free used), blank_claude _⟩

/-! ### Vacant numbers -/

theorem vacancies_succ (pre : List Label) (n : Nat) :
    vacancies pre (n + 1) = vacancies pre n + if claude n ∈ pre then 0 else 1 := by
  rw [vacancies, vacancies, List.range_succ, List.countP_append]
  by_cases h : claude n ∈ pre <;> simp [h]

theorem vacancies_mono (pre : List Label) {m n : Nat} (h : m ≤ n) :
    vacancies pre m ≤ vacancies pre n := by
  induction h with
  | refl => exact Nat.le_refl _
  | step _ ih =>
      rw [vacancies_succ]
      omega

/-- A vacant number counts for all above. -/
theorem vacancies_lt {pre : List Label} {m n : Nat} (h : m < n) (hfree : claude m ∉ pre) :
    vacancies pre m < vacancies pre n := by
  have hsucc := vacancies_succ pre m
  rw [if_neg hfree] at hsucc
  have hmono := vacancies_mono pre h
  rw [hsucc] at hmono
  exact hmono

/-- Every count is reached at a vacant number. -/
theorem exists_vacancy {pre : List Label} {k n : Nat} (h : k < vacancies pre n) :
    ∃ m < n, claude m ∉ pre ∧ vacancies pre m = k := by
  induction n with
  | zero => cases h
  | succ n ih =>
      rw [vacancies_succ] at h
      by_cases hlt : k < vacancies pre n
      · obtain ⟨m, hm, hfree, hcount⟩ := ih hlt
        exact ⟨m, Nat.lt_succ_of_lt hm, hfree, hcount⟩
      · split at h
        · omega
        · next hfree => exact ⟨n, Nat.lt_succ_self n, hfree, by omega⟩

theorem vacancies_other {pre : List Label} {label : Label} {n : Nat}
    (h : ∀ m < n, claude m ∉ pre → claude m ≠ label) :
    vacancies (pre ++ [label]) n = vacancies pre n := by
  rw [vacancies, vacancies]
  refine List.countP_congr fun m hm => ?_
  have hne := h m (List.mem_range.1 hm)
  simp only [decide_eq_true_eq, List.mem_append, List.mem_singleton, not_or]
  exact ⟨fun hboth => hboth.1, fun hfree => ⟨hfree, hne hfree⟩⟩

/-- A label that takes a vacant number is one less for all above. -/
theorem vacancies_taken {pre : List Label} {m n : Nat} (h : m < n) (hfree : claude m ∉ pre) :
    vacancies (pre ++ [claude m]) n + 1 = vacancies pre n := by
  induction n with
  | zero => cases h
  | succ n ih =>
      rw [vacancies_succ, vacancies_succ]
      by_cases heq : m = n
      · subst heq
        have hbelow : ∀ k < m, claude k ∉ pre → claude k ≠ claude m := fun k hk _ hsame =>
          Nat.ne_of_lt hk (claude_injective hsame)
        rw [vacancies_other hbelow, if_pos (by simp), if_neg hfree]
      · have hrest := ih (by omega)
        have hsame : claude n ∈ pre ++ [claude m] ↔ claude n ∈ pre := by
          rw [List.mem_append, List.mem_singleton]
          exact ⟨fun hor => hor.resolve_right fun hnm => heq (claude_injective hnm).symm, .inl⟩
        rw [if_congr hsame rfl rfl]
        omega

/-! ### Slots that are renamed -/

theorem renamedAfter_concat (seen pre : List Label) (label : Label) :
    renamedAfter seen (pre ++ [label]) = renamedAfter seen pre +
      if blank label = true ∨ label ∈ seen ++ pre then 1 else 0 := by
  induction pre generalizing seen with
  | nil => rw [List.nil_append, renamedAfter, renamedAfter, List.append_nil, Nat.add_comm]; rfl
  | cons first pre ih =>
      rw [List.cons_append, renamedAfter, ih, renamedAfter, Nat.add_assoc, List.append_assoc]
      rfl

theorem renamed_concat (pre : List Label) (label : Label) : renamed (pre ++ [label]) =
    renamed pre + if blank label = true ∨ label ∈ pre then 1 else 0 :=
  renamedAfter_concat [] pre label

/-! ### The labels in use -/

/-- The labels in use, while every first slot kept its label: those of the
slots, and the smallest numbers that are vacant, one for each slot that is
renamed. -/
structure Kept (pre used : List Label) : Prop where
  kept : ∀ label ∈ pre, blank label = false → label ∈ used
  given : ∀ label ∈ used, label ∉ pre → ∃ n, label = claude n
  counted : ∀ n, claude n ∉ pre → (claude n ∈ used ↔ vacancies pre n < renamed pre)

namespace Kept

variable {pre used : List Label} {label : Label} (h : Kept pre used)

include h

/-- A label that comes first is free where there is room for it. -/
theorem free_iff (hfirst : label ∉ pre) : label ∉ used ↔
    ∀ n, label = claude n → renamed pre ≤ vacancies pre n := by
  constructor
  · rintro hfree n rfl
    rw [h.counted n hfirst] at hfree
    exact Nat.le_of_not_lt hfree
  · intro hroom hused
    obtain ⟨n, rfl⟩ := h.given label hused hfirst
    exact absurd ((h.counted n hfirst).1 hused) (Nat.not_lt.2 (hroom n rfl))

/-- A slot that comes first keeps its label. -/
theorem first (hblank : blank label = false) (hfirst : label ∉ pre) (hfree : label ∉ used) :
    Kept (pre ++ [label]) (used ++ [label]) where
  kept other hother hother' := by
    rcases List.mem_append.1 hother with hbefore | hlast
    · exact List.mem_append_left _ (h.kept other hbefore hother')
    · exact List.mem_append_right _ hlast
  given other hother hnot := by
    rw [List.mem_append, not_or] at hnot
    exact h.given other ((List.mem_append.1 hother).resolve_right hnot.2) hnot.1
  counted n hn := by
    rw [List.mem_append, not_or, List.mem_singleton] at hn
    have hroom := (h.free_iff hfirst).1 hfree
    have hnone : ¬ (blank label = true ∨ label ∈ pre) := by
      rw [hblank]
      simpa using hfirst
    rw [List.mem_append, List.mem_singleton, or_iff_left hn.2, h.counted n hn.1, renamed_concat,
      if_neg hnone, Nat.add_zero]
    -- the label may take a number below, but only where the count is reached already
    by_cases htaken : ∃ m < n, claude m ∉ pre ∧ claude m = label
    · obtain ⟨m, hm, hvacant, rfl⟩ := htaken
      have hlow := hroom m rfl
      have hless := vacancies_lt hm hvacant
      have htake := vacancies_taken hm hvacant
      omega
    · have hsame : vacancies (pre ++ [label]) n = vacancies pre n := by
        refine vacancies_other fun m hm hvacant hsame => ?_
        exact htaken ⟨m, hm, hvacant, hsame⟩
      rw [hsame]

/-- The number that is given is the first vacant one that no slot was
given before. -/
theorem freeNumber_spec : claude (freeNumber used) ∉ pre ∧
    vacancies pre (freeNumber used) = renamed pre := by
  have hfree : claude (freeNumber used) ∉ used := Nat.find_spec (exists_free used)
  have hbelow : ∀ m < freeNumber used, claude m ∈ used := fun m hm =>
    not_not.1 (Nat.find_min (exists_free used) hm)
  have hvacant : claude (freeNumber used) ∉ pre := fun hin =>
    hfree (h.kept _ hin (blank_claude _))
  rw [h.counted _ hvacant, Nat.not_lt] at hfree
  refine ⟨hvacant, Nat.le_antisymm (Nat.le_of_not_lt fun hmore => ?_) hfree⟩
  obtain ⟨m, hm, hmfree, hcount⟩ := exists_vacancy hmore
  have hused := (h.counted m hmfree).1 (hbelow m hm)
  omega

/-- A slot without a label of its own is given a number. -/
theorem again (hagain : blank label = true ∨ label ∈ pre) :
    Kept (pre ++ [label]) (used ++ [claude (freeNumber used)]) := by
  obtain ⟨hvacant, hcount⟩ := h.freeNumber_spec
  have hmem : ∀ n, claude n ∈ pre ++ [label] ↔ claude n ∈ pre := by
    intro n
    rw [List.mem_append, List.mem_singleton]
    refine ⟨fun hor => hor.elim id fun hsame => ?_, .inl⟩
    rcases hagain with hblank | hin
    · rw [← hsame, blank_claude] at hblank
      cases hblank
    · rw [hsame]
      exact hin
  have hsame : ∀ n, vacancies (pre ++ [label]) n = vacancies pre n := by
    intro n
    refine vacancies_other fun m _ hfree heq => hfree ?_
    rw [← hmem, heq]
    simp
  refine ⟨fun other hother hother' => ?_, fun other hother hnot => ?_, fun n hn => ?_⟩
  · rcases List.mem_append.1 hother with hbefore | hlast
    · exact List.mem_append_left _ (h.kept other hbefore hother')
    · rw [List.mem_singleton.1 hlast] at hother' ⊢
      refine List.mem_append_left _ (h.kept label ?_ hother')
      refine hagain.resolve_left fun hblank => ?_
      rw [hother'] at hblank
      cases hblank
  · rcases List.mem_append.1 hother with hbefore | hlast
    · rw [List.mem_append, not_or] at hnot
      exact h.given other hbefore hnot.1
    · exact ⟨_, List.mem_singleton.1 hlast⟩
  · rw [hmem] at hn
    rw [List.mem_append, List.mem_singleton, h.counted n hn, hsame, renamed_concat, if_pos hagain]
    constructor
    · intro hor
      rcases hor with hless | heq
      · omega
      · rw [claude_injective heq]
        omega
    · intro hless
      by_cases heq : n = freeNumber used
      · exact .inr (by rw [heq])
      · left
        rcases Nat.lt_or_gt_of_ne heq with hlt | hgt
        · have hmore := vacancies_lt hlt hn
          omega
        · have hmore := vacancies_lt hgt hvacant
          omega

end Kept

theorem kept_nil : Kept [] [] where
  kept _ hin := by cases hin
  given _ hin := by cases hin
  counted _ _ := iff_of_false List.not_mem_nil (Nat.not_lt_zero _)

/-! ### All slots -/

section slots

variable {ρ : Type}

/-- No label is handed out twice, and none is blank. -/
theorem dedupeFrom_fresh (used : List Label) (slots : List (PersistedSlot ρ)) :
    ((dedupeFrom used slots).map PersistedSlot.label).Nodup ∧
      ∀ label ∈ (dedupeFrom used slots).map PersistedSlot.label,
        label ∉ used ∧ blank label = false := by
  induction slots generalizing used with
  | nil => exact ⟨List.nodup_nil, fun _ h => by cases h⟩
  | cons s slots ih =>
      obtain ⟨hnodup, hfresh⟩ := ih (used ++ [uniqueLabel s.label used])
      obtain ⟨hfree, hblank⟩ := uniqueLabel_spec s.label used
      rw [dedupeFrom, List.map_cons]
      constructor
      · refine List.nodup_cons.2 ⟨fun hmem => ?_, hnodup⟩
        exact (hfresh _ hmem).1 (List.mem_append_right _ (List.mem_singleton.2 rfl))
      · intro label hlabel
        rcases List.mem_cons.1 hlabel with rfl | hrest
        · exact ⟨hfree, hblank⟩
        · obtain ⟨hnot, hnonblank⟩ := hfresh label hrest
          exact ⟨fun hin => hnot (List.mem_append_left _ hin), hnonblank⟩

theorem keepsFirst_cons {pre labels result : List Label} {label label' : Label} :
    KeepsFirst pre (label :: labels) (label' :: result) ↔
      (blank label = false → label ∉ pre → label' = label) ∧
        KeepsFirst (pre ++ [label]) labels result := by
  constructor
  · intro h
    refine ⟨fun hblank hfirst => ?_, fun i other hother hblank hfirst => ?_⟩
    · exact Option.some.inj (h 0 label rfl hblank (by simpa using hfirst))
    · exact h (i + 1) other hother hblank (by simpa using hfirst)
  · rintro ⟨hhead, htail⟩ i other hother hblank hfirst
    cases i with
    | zero =>
        obtain rfl := Option.some.inj hother
        exact congrArg some (hhead hblank (by simpa using hfirst))
    | succ i => exact htail i other hother hblank (by simpa using hfirst)

theorem room_cons {pre labels : List Label} {label : Label} : Room pre (label :: labels) ↔
    (∀ n, label = claude n → label ∉ pre → renamed pre ≤ vacancies pre n) ∧
      Room (pre ++ [label]) labels := by
  constructor
  · intro h
    refine ⟨?_, fun i n hn hfirst => ?_⟩
    · rintro n rfl hfirst
      have hroom := h 0 n rfl (by simpa using hfirst)
      rwa [List.take_zero, List.append_nil] at hroom
    · have hroom := h (i + 1) n hn (by simpa using hfirst)
      rwa [List.take_succ_cons, List.append_cons] at hroom
  · rintro ⟨hhead, htail⟩ i n hn hfirst
    cases i with
    | zero =>
        obtain rfl := Option.some.inj hn
        rw [List.take_zero, List.append_nil] at hfirst ⊢
        exact hhead n rfl hfirst
    | succ i =>
        rw [List.take_succ_cons, List.append_cons] at hfirst ⊢
        exact htail i n hn hfirst

/-- From any slot on: the first slots keep their labels where there is room
for every `claude-N` that comes first. -/
theorem keepsFirst_iff_room {pre used : List Label} (h : Kept pre used)
    (slots : List (PersistedSlot ρ)) :
    KeepsFirst pre (slots.map PersistedSlot.label)
        ((dedupeFrom used slots).map PersistedSlot.label) ↔
      Room pre (slots.map PersistedSlot.label) := by
  induction slots generalizing pre used with
  | nil => exact iff_of_true (fun i _ hi => by cases hi) fun i _ hi => by cases hi
  | cons s slots ih =>
      rw [dedupeFrom, List.map_cons, List.map_cons, keepsFirst_cons, room_cons]
      by_cases hfirst : blank s.label = false ∧ s.label ∉ pre
      · obtain ⟨hblank, hnew⟩ := hfirst
        have hhead : (∀ n, s.label = claude n → s.label ∉ pre → renamed pre ≤ vacancies pre n) ↔
            s.label ∉ used := by
          rw [h.free_iff hnew]
          exact ⟨fun hroom n hn => hroom n hn hnew, fun hroom n hn _ => hroom n hn⟩
        rw [hhead]
        by_cases hfree : s.label ∉ used
        · have hsame : uniqueLabel s.label used = s.label := by
            rw [uniqueLabel, if_pos (by simp [hblank, hfree])]
          rw [hsame, ih (h.first hblank hnew hfree)]
          exact and_congr_left' (iff_of_true (fun _ _ => rfl) hfree)
        · refine iff_of_false (fun hkeeps => ?_) fun hroom => hfree hroom.1
          have hsame : uniqueLabel s.label used = s.label := hkeeps.1 hblank hnew
          have hspec := (uniqueLabel_spec s.label used).1
          rw [hsame] at hspec
          exact hfree hspec
      · have hagain : blank s.label = true ∨ s.label ∈ pre := by
          rw [not_and_or, not_not, Bool.not_eq_false] at hfirst
          exact hfirst
        have htaken : uniqueLabel s.label used = claude (freeNumber used) := by
          rw [uniqueLabel, if_neg]
          simp only [Bool.and_eq_true, Bool.not_eq_true', decide_eq_true_eq, not_and, not_not]
          intro hblank
          refine h.kept _ (hagain.resolve_left fun hblank' => ?_) hblank
          rw [hblank] at hblank'
          cases hblank'
        rw [htaken, ih (h.again hagain)]
        refine and_congr_left' (iff_of_true (fun hblank hnew => ?_) ?_)
        · exact absurd ⟨hblank, hnew⟩ hfirst
        · rintro n hn hnew
          exact absurd ⟨by rw [hn]; exact blank_claude n, hnew⟩ hfirst

/-- The labels as they are in the file, the missing ones empty. -/
def storedLabels (entries : List (Option Label × ρ)) : List Label :=
  (entries.map slotOf).map PersistedSlot.label

def restoredLabels (entries : List (Option Label × ρ)) : List Label :=
  (dedupeSlotLabels (entries.map slotOf)).map PersistedSlot.label

/-- The restored labels are distinct, not blank and kept by the first slots
that have them exactly where there is room for every `claude-N` that comes
first. -/
theorem labels_settled_iff (entries : List (Option Label × ρ)) :
    Settled (storedLabels entries) (restoredLabels entries) ↔ Room [] (storedLabels entries) := by
  obtain ⟨hnodup, hfresh⟩ := dedupeFrom_fresh [] (entries.map slotOf)
  have hiff := keepsFirst_iff_room kept_nil (entries.map slotOf)
  constructor
  · intro h
    exact hiff.1 h.first
  · intro h
    exact ⟨hnodup, fun label hlabel => (hfresh label hlabel).2, hiff.2 h⟩

end slots

/-- A slot without a label takes `claude-1` from the slot behind it. -/
theorem label_taken : ¬ ∀ entries : List (Option Label × Unit),
    Settled (storedLabels entries) (restoredLabels entries) := by
  intro h
  have hfirst := (h [(none, ()), (some (claude 0), ())]).first 1 (claude 0) rfl (blank_claude 0)
    (by decide)
  have hzero : freeNumber [] = 0 := (Nat.find_eq_zero _).2 List.not_mem_nil
  have hgiven : uniqueLabel [] [] = claude 0 := by
    rw [uniqueLabel, if_neg (by decide), hzero]
  have hsecond : (restoredLabels [(none, ()), (some (claude 0), ())])[1]? =
      some (uniqueLabel (claude 0) [uniqueLabel [] []]) := rfl
  rw [hsecond, Option.some.injEq, hgiven] at hfirst
  have hspec := (uniqueLabel_spec (claude 0) [claude 0]).1
  rw [hfirst] at hspec
  exact hspec (List.mem_singleton.2 rfl)

end SlotLabels

end Yaldabaoth
