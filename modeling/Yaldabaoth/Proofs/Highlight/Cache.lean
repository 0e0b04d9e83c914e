import Mathlib.Data.List.Forall2
import Yaldabaoth.Model.HighlightCache
import Yaldabaoth.Proofs.Highlight.Lines

/-!
# `Yaldabaoth.Proofs.Highlight.Cache`: the cache and the fold

From scratch, a document is folded line by line, and the fence is reset
where the region changes (`scratch`). The cache keeps a line if its text
and the fence before it are the same (`reconcile_eq`), so its result is
that of the fold (`snapshots_from_scratch`), except where it looks at less
than the fold does: on its fast path not at the ranges, and of a theme not
at all styles (`Covered`).
-/

set_option autoImplicit false

namespace Yaldabaoth

namespace MdHighlight

/-! ### The fold -/

/-- The start of the range that contains a line. -/
def regionOf (ranges : List (Nat × Nat)) (i : Nat) : Option Nat :=
  (ranges.find? fun range => range.1 ≤ i ∧ i < range.2).map Prod.fst

section scratch

variable (theme : Theme) (hl : Option Highlighter) (ranges : List (Nat × Nat))

/-- The lines from `i` on, with the fence reset where the region changes. -/
def scratchFrom : List (List Char) → Nat → Option (Option Nat) → FenceState → Option (List LineHl)
  | [], _, _, _ => some []
  | line :: rest, i, prevRegion, fence => do
      let fence := if prevRegion = some (regionOf ranges i) then fence else {}
      let (raw, next) ← highlightOneLine theme false hl line fence
      let (stripped, _) ← highlightOneLine theme true hl line fence
      let more ← scratchFrom rest (i + 1) (some (regionOf ranges i)) next
      some (⟨raw, stripped⟩ :: more)

/-- The fence after a line. -/
def nextFence (line : List Char) (fence : FenceState) : FenceState :=
  (advanceFence line fence).getD {}

/-- The fence before each line. -/
def entriesFrom : List (List Char) → Nat → Option (Option Nat) → FenceState → List FenceState
  | [], _, _, _ => []
  | line :: rest, i, prevRegion, fence =>
      let fence := if prevRegion = some (regionOf ranges i) then fence else {}
      fence :: entriesFrom rest (i + 1) (some (regionOf ranges i)) (nextFence line fence)

def segmentsAt (strip : Bool) (line : List Char) (fence : FenceState) : List Segment :=
  ((highlightOneLine theme strip hl line fence).map Prod.fst).getD []

/-- Both highlights of a line. -/
def lineHl (line : List Char) (fence : FenceState) : LineHl :=
  ⟨segmentsAt theme hl false line fence, segmentsAt theme hl true line fence⟩

end scratch

theorem advanceFence_eq (line : List Char) (fence : FenceState) :
    advanceFence line fence = some (nextFence line fence) := by
  have hsome : ∃ next, advanceFence line fence = some next := by
    rw [advanceFence]
    cases fence.inFence with
    | true => cases opensOrClosesFence line <;> exact ⟨_, rfl⟩
    | false =>
        cases hopens : opensOrClosesFence line with
        | true =>
            obtain ⟨lang, hlang⟩ := fenceLang_some hopens
            rw [hlang]
            exact ⟨_, rfl⟩
        | false => exact ⟨_, rfl⟩
  obtain ⟨next, hnext⟩ := hsome
  rw [nextFence, hnext]
  rfl

/-- The highlighter leaves the fence that `advance_fence` computes. -/
theorem highlightOneLine_eq (theme : Theme) (strip : Bool) (hl : Option Highlighter)
    (line : List Char) (fence : FenceState) : highlightOneLine theme strip hl line fence =
      some (segmentsAt theme hl strip line fence, nextFence line fence) := by
  obtain ⟨segs, next, hone⟩ := highlightOneLine_some theme strip hl line fence
  have hnext : next = nextFence line fence := by
    have hadvance := advanceFence_eq line fence
    rw [highlightOneLine] at hone
    rw [advanceFence] at hadvance
    cases hin : fence.inFence with
    | true =>
        rw [hin] at hone hadvance
        cases hopens : opensOrClosesFence line with
        | true =>
            rw [hopens] at hone hadvance
            cases hone
            exact Option.some.inj hadvance
        | false =>
            rw [hopens] at hone hadvance
            cases hone
            exact Option.some.inj hadvance
    | false =>
        rw [hin] at hone hadvance
        cases hopens : opensOrClosesFence line with
        | true =>
            obtain ⟨lang, hlang⟩ := fenceLang_some hopens
            rw [hopens, hlang] at hone hadvance
            cases hone
            exact Option.some.inj hadvance
        | false =>
            obtain ⟨shown, hshown, -⟩ := highlightSourceLine_text theme strip line
            rw [hopens, hshown] at hone
            rw [hopens] at hadvance
            cases hone
            exact Option.some.inj hadvance
  rw [segmentsAt, hone, hnext]
  rfl

/-- The fold highlights every line with the fence before it. -/
theorem scratchFrom_eq (theme : Theme) (hl : Option Highlighter) (ranges : List (Nat × Nat))
    (lines : List (List Char)) (i : Nat) (prevRegion : Option (Option Nat)) (fence : FenceState) :
    scratchFrom theme hl ranges lines i prevRegion fence =
      some (List.zipWith (lineHl theme hl) lines
        (entriesFrom ranges lines i prevRegion fence)) := by
  induction lines generalizing i prevRegion fence with
  | nil => rfl
  | cons line lines ih =>
      rw [scratchFrom, entriesFrom]
      dsimp only
      rw [highlightOneLine_eq, highlightOneLine_eq]
      dsimp only [Option.bind_eq_bind, Option.bind_some]
      rw [ih]
      rfl

/-! ### Regions -/

/-- The walk over sorted ranges finds the region of a line. -/
theorem region_walk {ranges : List (Nat × Nat)}
    (hsorted : ranges.Pairwise fun range later => range.2 ≤ later.1) (i : Nat) :
    (((ranges.dropWhile fun range => range.2 ≤ i).head?.filter
      fun range => range.1 ≤ i ∧ i < range.2).map Prod.fst) = regionOf ranges i := by
  induction ranges with
  | nil => rfl
  | cons range ranges ih =>
      rw [List.pairwise_cons] at hsorted
      by_cases hpast : range.2 ≤ i
      · rw [List.dropWhile_cons_of_pos (by simpa using hpast), ih hsorted.2, regionOf, regionOf,
          List.find?_cons_of_neg (by simp only [decide_eq_true_eq]; omega)]
      · rw [List.dropWhile_cons_of_neg (by simpa using hpast), regionOf, List.head?_cons]
        by_cases hin : range.1 ≤ i ∧ i < range.2
        · rw [List.find?_cons_of_pos (by simpa using hin), Option.filter_some,
            if_pos (by simpa using hin)]
        · rw [List.find?_cons_of_neg (by simpa using hin), Option.filter_some,
            if_neg (by simpa using hin)]
          -- the later ranges begin behind the line
          have hnone : (ranges.find? fun range => range.1 ≤ i ∧ i < range.2) = none := by
            rw [List.find?_eq_none]
            intro later hlater
            have := hsorted.1 later hlater
            simp only [decide_eq_true_eq]
            omega
          rw [hnone]

/-- What was passed contains no later line. -/
theorem regionOf_dropWhile (ranges : List (Nat × Nat)) {i k : Nat} (h : i ≤ k) :
    regionOf (ranges.dropWhile fun range => range.2 ≤ i) k = regionOf ranges k := by
  induction ranges with
  | nil => rfl
  | cons range ranges ih =>
      by_cases hpast : range.2 ≤ i
      · rw [List.dropWhile_cons_of_pos (by simpa using hpast), ih, regionOf, regionOf,
          List.find?_cons_of_neg (by simp only [decide_eq_true_eq]; omega)]
      · rw [List.dropWhile_cons_of_neg (by simpa using hpast)]

/-! ### Alignment -/

section align

variable {α : Type} [DecidableEq α]

theorem commonPrefix_get (old new : List α) {i : Nat} (h : i < commonPrefix old new) :
    ∃ a, old[i]? = some a ∧ new[i]? = some a := by
  induction old generalizing new i with
  | nil =>
      rw [commonPrefix] at h
      · exact absurd h (Nat.not_lt_zero i)
      · intro _ _ _ _ hnil
        cases hnil
  | cons a old ih =>
      cases new with
      | nil =>
          rw [commonPrefix] at h
          · exact absurd h (Nat.not_lt_zero i)
          · intro _ _ _ _ _ hnil
            cases hnil
      | cons b new =>
          rw [commonPrefix] at h
          split at h
          · next hab =>
            cases i with
            | zero => exact ⟨a, rfl, by rw [hab]; rfl⟩
            | succ i => exact ih new (Nat.lt_of_succ_lt_succ h)
          · exact absurd h (Nat.not_lt_zero i)

theorem commonPrefix_le (old new : List α) : commonPrefix old new ≤ old.length := by
  by_contra hmore
  obtain ⟨a, hold, -⟩ := commonPrefix_get old new (Nat.lt_of_not_le hmore)
  rw [List.getElem?_eq_none (Nat.le_refl _)] at hold
  cases hold

/-- An aligned slot holds the same. -/
theorem oldSlot_get (old new : List α) {i j : Nat} (hi : i < new.length)
    (h : HighlightCache.oldSlot (commonPrefixSuffix old new).1 (commonPrefixSuffix old new).2
      old.length new.length i = some j) : ∃ a, old[j]? = some a ∧ new[i]? = some a := by
  rw [HighlightCache.oldSlot] at h
  split at h
  · next hpre =>
    cases h
    exact commonPrefix_get old new hpre
  · split at h
    · next hsuf =>
      cases h
      -- counted from the end, the line is one of the shared ones
      generalize hmax : min old.length new.length - commonPrefix old new = most at hsuf
      rw [commonPrefixSuffix] at hsuf
      dsimp only at hsuf
      rw [hmax] at hsuf
      have hle := commonPrefix_le (old.reverse.take most) (new.reverse.take most)
      rw [List.length_take, List.length_reverse] at hle
      obtain ⟨a, hold, hnew⟩ := commonPrefix_get (old.reverse.take most) (new.reverse.take most)
        (i := new.length - 1 - i) (by omega)
      rw [List.getElem?_take, if_pos (by omega), List.getElem?_reverse (by omega)] at hold hnew
      refine ⟨a, ?_, ?_⟩
      · rw [← hold]
        congr 1
        omega
      · rw [← hnew]
        congr 1
        omega
    · cases h

end align

/-! ### One call -/

open HighlightCache

/-- A line is kept or highlighted. -/
theorem lineAt_eq {hash : List Char → UInt64} {theme : Theme} {hl : Option Highlighter}
    {slot : Option Nat} {oldLines : List LineHl} {oldFence : List FenceFp} {line : List Char}
    {entry : FenceState}
    (hslot : ∀ j, slot = some j → oldFence[j]? = some (fenceFp hash entry) →
      oldLines[j]? = some (lineHl theme hl line entry)) :
    lineAt hash theme hl slot oldLines oldFence line entry = some (lineHl theme hl line entry) := by
  rw [lineAt]
  cases hkept : slot.filter fun j => oldFence[j]? = some (fenceFp hash entry) with
  | some j =>
      obtain ⟨hj, hfence⟩ := Option.filter_eq_some_iff.1 hkept
      exact hslot j hj (of_decide_eq_true hfence)
  | none =>
      rw [highlightOneLine_eq, highlightOneLine_eq]
      rfl

/-- The loop gives the fold, if what it may keep is right. -/
theorem reconcile_eq {hash : List Char → UInt64} {theme : Theme} {hl : Option Highlighter}
    {slot : Nat → Option Nat} {oldLines : List LineHl} {oldFence : List FenceFp}
    (ranges : List (Nat × Nat)) (lines : List (List Char)) (i : Nat)
    {walked : List (Nat × Nat)}
    (hsorted : walked.Pairwise fun range later => range.2 ≤ later.1)
    (hwalked : ∀ k, i ≤ k → regionOf walked k = regionOf ranges k)
    (prevRegion : Option (Option Nat)) (fence : FenceState)
    (hslot : ∀ (k : Nat) line entry, lines[k]? = some line →
      (entriesFrom ranges lines i prevRegion fence)[k]? = some entry →
        ∀ j, slot (i + k) = some j → oldFence[j]? = some (fenceFp hash entry) →
          oldLines[j]? = some (lineHl theme hl line entry)) :
    reconcile hash theme hl slot oldLines oldFence lines i walked prevRegion fence =
      some (List.zipWith (fun line entry => (lineHl theme hl line entry, fenceFp hash entry)) lines
        (entriesFrom ranges lines i prevRegion fence)) := by
  induction lines generalizing i walked prevRegion fence with
  | nil => rfl
  | cons line lines ih =>
      rw [entriesFrom] at hslot ⊢
      rw [reconcile]
      rw [region_walk hsorted, hwalked i (Nat.le_refl i)]
      generalize (if prevRegion = some (regionOf ranges i) then fence else {}) = entry at hslot ⊢
      have hline : lineAt hash theme hl (slot i) oldLines oldFence line entry =
          some (lineHl theme hl line entry) :=
        lineAt_eq fun j hj hfence => hslot 0 line entry rfl rfl j hj hfence
      rw [hline, advanceFence_eq]
      dsimp only [Option.bind_eq_bind, Option.bind_some]
      rw [ih (i + 1) (hsorted.sublist (List.dropWhile_sublist _))]
      · rfl
      · intro k hk
        rw [regionOf_dropWhile walked (Nat.le_of_succ_le hk), hwalked k (Nat.le_of_succ_le hk)]
      · intro k line' entry' hline' hentry' j hj hfence
        refine hslot (k + 1) line' entry' hline' hentry' j ?_ hfence
        rw [← hj]
        congr 1
        omega

/-! ### Fences of a run -/

/-- The language of a fence, if it has one, is among these. -/
def LangIn (langs : List Char → Prop) (fence : FenceState) : Prop :=
  ∀ lang, fence.lang = some lang → langs lang

theorem nextFence_lang {langs : List Char → Prop} {line : List Char} {fence : FenceState}
    (hfence : LangIn langs fence)
    (hline : ∀ lang, fenceLang line = some (some lang) → langs lang) :
    LangIn langs (nextFence line fence) := by
  intro lang hlang
  rw [nextFence, advanceFence] at hlang
  cases hin : fence.inFence with
  | true =>
      rw [hin] at hlang
      cases hopens : opensOrClosesFence line with
      | true =>
          rw [hopens] at hlang
          cases hlang
      | false =>
          rw [hopens] at hlang
          exact hfence lang hlang
  | false =>
      rw [hin] at hlang
      cases hopens : opensOrClosesFence line with
      | true =>
          obtain ⟨found, hfound⟩ := fenceLang_some hopens
          rw [hopens, hfound] at hlang
          refine hline lang ?_
          rw [hfound]
          exact congrArg some hlang
      | false =>
          rw [hopens] at hlang
          cases hlang

theorem entriesFrom_lang {langs : List Char → Prop} (ranges : List (Nat × Nat))
    {lines : List (List Char)}
    (hlines : ∀ line ∈ lines, ∀ lang, fenceLang line = some (some lang) → langs lang) (i : Nat)
    (prevRegion : Option (Option Nat)) {fence : FenceState} (hfence : LangIn langs fence) :
    ∀ entry ∈ entriesFrom ranges lines i prevRegion fence, LangIn langs entry := by
  induction lines generalizing i prevRegion fence with
  | nil =>
      intro entry hentry
      cases hentry
  | cons line lines ih =>
      have hfirst : LangIn langs (if prevRegion = some (regionOf ranges i) then fence else {}) := by
        split
        · exact hfence
        · intro lang hlang
          cases hlang
      intro entry hentry
      rw [entriesFrom] at hentry
      rcases List.mem_cons.1 hentry with rfl | hlater
      · exact hfirst
      · exact ih (fun line hline => hlines line (List.mem_cons_of_mem _ hline)) (i + 1) _
          (nextFence_lang hfirst (hlines line List.mem_cons_self)) entry hlater

theorem entriesFrom_length (ranges : List (Nat × Nat)) (lines : List (List Char)) (i : Nat)
    (prevRegion : Option (Option Nat)) (fence : FenceState) :
    (entriesFrom ranges lines i prevRegion fence).length = lines.length := by
  induction lines generalizing i prevRegion fence with
  | nil => rfl
  | cons line lines ih =>
      rw [entriesFrom, List.length_cons, List.length_cons, ih]

/-- No two of the lines, and no two of the languages, have the same hash; no
language has that of none. -/
structure CollisionFree (hash : List Char → UInt64) (texts langs : List Char → Prop) : Prop where
  line_inj : ∀ line line', texts line → texts line' → hash line = hash line' → line = line'
  lang_inj : ∀ lang lang', langs lang → langs lang' → hash lang = hash lang' → lang = lang'
  lang_ne : ∀ lang, langs lang → hash lang ≠ 0

theorem CollisionFree.fence {hash : List Char → UInt64} {texts langs : List Char → Prop}
    (h : CollisionFree hash texts langs) {fence fence' : FenceState} (hf : LangIn langs fence)
    (hf' : LangIn langs fence') (hfp : fenceFp hash fence = fenceFp hash fence') :
    fence = fence' := by
  obtain ⟨inFence, lang⟩ := fence
  obtain ⟨inFence', lang'⟩ := fence'
  obtain ⟨hin, hhash⟩ := FenceFp.mk.inj hfp
  dsimp only at hin hhash
  have hlang : lang = lang' := by
    cases lang with
    | none =>
        cases lang' with
        | none => rfl
        | some lang' => exact absurd hhash.symm (h.lang_ne lang' (hf' lang' rfl))
    | some lang =>
        cases lang' with
        | none => exact absurd hhash (h.lang_ne lang (hf lang rfl))
        | some lang' => exact congrArg some (h.lang_inj lang lang' (hf lang rfl) (hf' lang' rfl) hhash)
  rw [hin, hlang]

/-! ### Runs -/

namespace HighlightCache

/-- The calls of a run. -/
def calls : List Op → List Call
  | [] => []
  | .reset :: ops => calls ops
  | .snapshot call :: ops => call :: calls ops

/-- Each call with the one before it, unless there was a reset between. -/
def sequels : Option Call → List Op → List (Call × Call)
  | _, [] => []
  | _, .reset :: ops => sequels none ops
  | prev, .snapshot call :: ops =>
      (prev.toList.map fun before => (before, call)) ++ sequels (some call) ops

/-- The fence before each line of a call, from scratch. -/
def entries (call : Call) : List FenceState :=
  entriesFrom call.frozenRanges call.lines 0 none {}

/-- What the cache looks at of a call covers what the fold depends on: the
fingerprint all of the theme, and the edit the fences between the ranges. -/
structure Covered (before call : Call) : Prop where
  theme : ThemeFp.of before.theme = ThemeFp.of call.theme → before.theme = call.theme
  fences : before.theme = call.theme → before.editSeq = call.editSeq →
    entries before = entries call

variable {hash : List Char → UInt64} {hl : Highlighter}

/-- A call's lines from scratch. -/
def fresh (hl : Highlighter) (call : Call) : List LineHl :=
  List.zipWith (lineHl call.theme (some hl)) call.lines (entries call)

/-- The cache holds a call. -/
structure Holds (hash : List Char → UInt64) (hl : Highlighter) (cache : HighlightCache)
    (call : Call) : Prop where
  lines : cache.lines = fresh hl call
  hashes : cache.hashes = call.lines.map hash
  fenceBefore : cache.fenceBefore = (entries call).map (fenceFp hash)
  lastEditSeq : cache.lastEditSeq = call.editSeq
  primed : cache.primed = true
  themeFp : cache.themeFp = some (ThemeFp.of call.theme)
  snapshot : cache.snapshot = some (fresh hl call)

/-- The cache holds the call before, if there was one. -/
def HoldsLast (hash : List Char → UInt64) (hl : Highlighter) (cache : HighlightCache) :
    Option Call → Prop
  | none => cache = new
  | some call => Holds hash hl cache call

theorem entries_length (call : Call) : (entries call).length = call.lines.length :=
  entriesFrom_length _ _ _ _ _

theorem fresh_length (call : Call) : (fresh hl call).length = call.lines.length := by
  simp [fresh, entries_length]

theorem entries_lang {langs : List Char → Prop} {call : Call}
    (hlangs : ∀ line ∈ call.lines, ∀ lang, fenceLang line = some (some lang) → langs lang) :
    ∀ entry ∈ entries call, LangIn langs entry := by
  apply entriesFrom_lang _ hlangs
  intro lang hlang
  cases hlang

/-- The line kept from the call before is the fold's: its text and its fence
are the same. -/
theorem Holds.slot {texts langs : List Char → Prop} (hfree : CollisionFree hash texts langs)
    {cache : HighlightCache} {before call : Call} (hholds : Holds hash hl cache before)
    (htheme : before.theme = call.theme)
    (hbeforeTexts : ∀ line ∈ before.lines, texts line)
    (hbeforeLangs : ∀ line ∈ before.lines, ∀ lang, fenceLang line = some (some lang) → langs lang)
    (hcallTexts : ∀ line ∈ call.lines, texts line)
    (hcallLangs : ∀ line ∈ call.lines, ∀ lang, fenceLang line = some (some lang) → langs lang)
    {k : Nat} {line : List Char} {entry : FenceState} (hline : call.lines[k]? = some line)
    (hentry : (entries call)[k]? = some entry) {j : Nat}
    (hj : oldSlot (commonPrefixSuffix cache.hashes (call.lines.map hash)).1
      (commonPrefixSuffix cache.hashes (call.lines.map hash)).2 cache.hashes.length
      call.lines.length k = some j)
    (hfence : cache.fenceBefore[j]? = some (fenceFp hash entry)) :
    cache.lines[j]? = some (lineHl call.theme (some hl) line entry) := by
  have hk : k < (call.lines.map hash).length := by
    rw [List.length_map]
    exact (List.getElem?_eq_some_iff.1 hline).1
  have haligned := oldSlot_get cache.hashes (call.lines.map hash) hk
    (by rw [List.length_map]; exact hj)
  obtain ⟨code, hold, hnew⟩ := haligned
  rw [hholds.hashes, List.getElem?_map, Option.map_eq_some_iff] at hold
  rw [List.getElem?_map, hline, Option.map_some, Option.some.injEq] at hnew
  rw [hholds.fenceBefore, List.getElem?_map, Option.map_eq_some_iff] at hfence
  obtain ⟨oldLine, holdLine, holdHash⟩ := hold
  obtain ⟨oldEntry, holdEntry, holdFp⟩ := hfence
  -- equal hashes are equal texts
  have hsameLine : oldLine = line :=
    hfree.line_inj oldLine line (hbeforeTexts oldLine (List.mem_of_getElem? holdLine))
      (hcallTexts line (List.mem_of_getElem? hline)) (holdHash.trans hnew.symm)
  -- and equal fingerprints are equal fences
  have hsameEntry : oldEntry = entry :=
    hfree.fence (entries_lang hbeforeLangs oldEntry (List.mem_of_getElem? holdEntry))
      (entries_lang hcallLangs entry (List.mem_of_getElem? hentry)) holdFp
  rw [hholds.lines, fresh, List.getElem?_zipWith, holdLine, holdEntry, hsameLine, hsameEntry,
    htheme]

/-- The loop over the lines of a call. -/
theorem reconcile_call {call : Call}
    (hsorted : call.frozenRanges.Pairwise fun range later => range.2 ≤ later.1)
    {slot : Nat → Option Nat} {oldLines : List LineHl} {oldFence : List FenceFp}
    (hslot : ∀ (k : Nat) line entry, call.lines[k]? = some line →
      (entries call)[k]? = some entry → ∀ j, slot k = some j →
        oldFence[j]? = some (fenceFp hash entry) →
          oldLines[j]? = some (lineHl call.theme (some hl) line entry)) :
    ∃ done, reconcile hash call.theme (some hl) slot oldLines oldFence call.lines 0
        call.frozenRanges none {} = some done ∧
      done.map Prod.fst = fresh hl call ∧
      done.map Prod.snd = (entries call).map (fenceFp hash) := by
  refine ⟨_, reconcile_eq call.frozenRanges call.lines 0 hsorted (fun _ _ => rfl) none {} ?_,
    ?_, ?_⟩
  · intro k line entry hline hentry j hj hfence
    rw [Nat.zero_add] at hj
    exact hslot k line entry hline hentry j hj hfence
  · rw [List.map_zipWith]
    rfl
  · rw [List.map_zipWith]
    apply List.ext_getElem?
    intro k
    have hlength := entries_length call
    rw [entries] at hlength
    rw [List.getElem?_zipWith, List.getElem?_map, entries]
    by_cases hk : k < call.lines.length
    · rw [List.getElem?_eq_getElem hk, List.getElem?_eq_getElem (by omega)]
      rfl
    · rw [List.getElem?_eq_none (by omega), List.getElem?_eq_none (by omega)]
      rfl

/-- Where the cache reconciles, it gives the fold and holds the call. -/
theorem snapshotInner_slow {cache : HighlightCache} {call : Call}
    (hsorted : call.frozenRanges.Pairwise fun range later => range.2 ≤ later.1)
    (hfast : cache.fastPath call.lines call.theme call.editSeq = none)
    (hkept : cache.themeFp = some (ThemeFp.of call.theme) → ∀ (k : Nat) line entry,
      call.lines[k]? = some line → (entries call)[k]? = some entry →
        ∀ j, oldSlot (commonPrefixSuffix cache.hashes (call.lines.map hash)).1
          (commonPrefixSuffix cache.hashes (call.lines.map hash)).2 cache.hashes.length
          call.lines.length k = some j → cache.fenceBefore[j]? = some (fenceFp hash entry) →
            cache.lines[j]? = some (lineHl call.theme (some hl) line entry)) :
    ∃ after, snapshotInner hash call.theme (some hl) cache call.lines call.editSeq
      call.frozenRanges = some (fresh hl call, after) ∧ Holds hash hl after call := by
  rw [snapshotInner, hfast]
  dsimp only
  by_cases hchanged : cache.themeFp = some (ThemeFp.of call.theme)
  · simp only [hchanged, ne_eq, not_true_eq_false, if_false]
    obtain ⟨done, hdone, hlines, hfences⟩ := reconcile_call hsorted (hkept hchanged)
    rw [hdone]
    refine ⟨_, congrArg some (congrArg (Prod.mk · _) hlines), ?_⟩
    exact ⟨hlines, rfl, hfences, rfl, rfl, rfl, congrArg some hlines⟩
  · -- with another theme nothing is kept
    simp only [hchanged, ne_eq, not_false_eq_true, if_true]
    have hnothing : ∀ (slot : Nat → Option Nat) (k : Nat) line entry,
        call.lines[k]? = some line → (entries call)[k]? = some entry → ∀ j, slot k = some j →
          ([] : List FenceFp)[j]? = some (fenceFp hash entry) →
            ([] : List LineHl)[j]? = some (lineHl call.theme (some hl) line entry) := by
      intro slot k line entry _ _ j _ hfence
      cases hfence
    obtain ⟨done, hdone, hlines, hfences⟩ := reconcile_call hsorted (hnothing _)
    rw [hdone]
    refine ⟨_, congrArg some (congrArg (Prod.mk · _) hlines), ?_⟩
    exact ⟨hlines, rfl, hfences, rfl, rfl, rfl, congrArg some hlines⟩

/-- A call whose predecessor is covered gives the fold. -/
theorem snapshotInner_eq {texts langs : List Char → Prop}
    (hfree : CollisionFree hash texts langs) {cache : HighlightCache} {prev : Option Call}
    (hholds : HoldsLast hash hl cache prev) {call : Call}
    (htexts : ∀ known, known = call ∨ prev = some known → ∀ line ∈ known.lines, texts line)
    (hlangs : ∀ known, known = call ∨ prev = some known → ∀ line ∈ known.lines, ∀ lang,
      fenceLang line = some (some lang) → langs lang)
    (hsorted : call.frozenRanges.Pairwise fun range later => range.2 ≤ later.1)
    (hedit : ∀ before, prev = some before → before.editSeq = call.editSeq →
      before.lines = call.lines)
    (hcovered : ∀ before, prev = some before → Covered before call) :
    ∃ after, snapshotInner hash call.theme (some hl) cache call.lines call.editSeq
      call.frozenRanges = some (fresh hl call, after) ∧ Holds hash hl after call := by
  cases prev with
  | none =>
      cases hholds
      apply snapshotInner_slow hsorted rfl
      intro hfp
      cases hfp
  | some before =>
      have hcovers := hcovered before rfl
      by_cases hsame : ThemeFp.of before.theme = ThemeFp.of call.theme
      · have htheme := hcovers.theme hsame
        by_cases hfast : call.editSeq = before.editSeq
        · -- the fast path: the fold has not changed either
          have hlines := hedit before rfl hfast.symm
          have hfresh : fresh hl before = fresh hl call := by
            rw [fresh, fresh, hcovers.fences htheme hfast.symm, htheme, hlines]
          have hcached : cache.fastPath call.lines call.theme call.editSeq =
              some (fresh hl call) := by
            rw [fastPath, if_pos, hholds.snapshot, hfresh]
            refine ⟨hholds.primed, ?_, ?_, ?_⟩
            · rw [hholds.themeFp, htheme]
            · rw [hholds.lastEditSeq, hfast]
            · rw [hholds.lines, hfresh, fresh_length]
          refine ⟨cache, ?_, ?_⟩
          · rw [snapshotInner, hcached]
          · constructor
            · rw [hholds.lines, hfresh]
            · rw [hholds.hashes, hlines]
            · rw [hholds.fenceBefore, hcovers.fences htheme hfast.symm]
            · rw [hholds.lastEditSeq, hfast]
            · exact hholds.primed
            · rw [hholds.themeFp, htheme]
            · rw [hholds.snapshot, hfresh]
        · -- after an edit, what is kept is the fold's
          apply snapshotInner_slow hsorted
          · rw [fastPath, if_neg]
            intro hquick
            exact hfast (hquick.2.2.1.trans hholds.lastEditSeq)
          · intro _ k line entry hline hentry j hj hfence
            exact hholds.slot hfree htheme (htexts before (.inr rfl)) (hlangs before (.inr rfl))
              (htexts call (.inl rfl)) (hlangs call (.inl rfl)) hline hentry hj hfence
      · have hother : cache.themeFp ≠ some (ThemeFp.of call.theme) := by
          rw [hholds.themeFp]
          intro heq
          exact hsame (Option.some.inj heq)
        apply snapshotInner_slow hsorted
        · rw [fastPath, if_neg]
          intro hquick
          exact hother hquick.2.1
        · intro heq
          exact absurd heq hother

/-- Every call of a run gives the fold. -/
theorem run_fresh {texts langs : List Char → Prop} (hfree : CollisionFree hash texts langs)
    (ops : List Op) {cache : HighlightCache} {prev : Option Call}
    (hholds : HoldsLast hash hl cache prev)
    (htexts : ∀ known, known ∈ calls ops ∨ prev = some known → ∀ line ∈ known.lines, texts line)
    (hlangs : ∀ known, known ∈ calls ops ∨ prev = some known → ∀ line ∈ known.lines, ∀ lang,
      fenceLang line = some (some lang) → langs lang)
    (hsorted : ∀ call ∈ calls ops,
      call.frozenRanges.Pairwise fun range later => range.2 ≤ later.1)
    (hedit : ∀ before call, (before, call) ∈ sequels prev ops →
      before.editSeq = call.editSeq → before.lines = call.lines)
    (hcovered : ∀ before call, (before, call) ∈ sequels prev ops → Covered before call) :
    run hash hl cache ops = some ((calls ops).map (fresh hl)) := by
  induction ops generalizing cache prev with
  | nil => rfl
  | cons op ops ih =>
      cases op with
      | reset =>
          rw [run, calls]
          have hreset : HoldsLast hash hl (reset cache) none := rfl
          apply ih hreset
          · intro known hknown
            rcases hknown with hmem | hnone
            · exact htexts known (.inl hmem)
            · cases hnone
          · intro known hknown
            rcases hknown with hmem | hnone
            · exact hlangs known (.inl hmem)
            · cases hnone
          · exact hsorted
          · exact hedit
          · exact hcovered
      | snapshot call =>
          have hfirst : ∀ before, prev = some before →
              (before, call) ∈ sequels prev (.snapshot call :: ops) := by
            intro before hprev
            rw [hprev, sequels]
            simp
          have hrest : ∀ pair ∈ sequels (some call) ops,
              pair ∈ sequels prev (.snapshot call :: ops) := by
            intro pair hpair
            rw [sequels]
            exact List.mem_append_right _ hpair
          have hknown : ∀ known, known ∈ calls ops ∨ some call = some known →
              known ∈ calls (.snapshot call :: ops) := by
            intro known hknown
            rw [calls, List.mem_cons]
            rcases hknown with hmem | hsame
            · exact .inr hmem
            · exact .inl (Option.some.inj hsame).symm
          have hnow : ∀ known, known = call ∨ prev = some known →
              known ∈ calls (.snapshot call :: ops) ∨ prev = some known := by
            intro known hknown
            rcases hknown with rfl | hprev
            · exact .inl List.mem_cons_self
            · exact .inr hprev
          obtain ⟨after, hsnap, hafter⟩ := snapshotInner_eq hfree hholds
            (fun known hin => htexts known (hnow known hin))
            (fun known hin => hlangs known (hnow known hin))
            (hsorted call List.mem_cons_self)
            (fun before hprev => hedit before call (hfirst before hprev))
            (fun before hprev => hcovered before call (hfirst before hprev))
          have hheld : HoldsLast hash hl after (some call) := hafter
          have hmore := ih hheld
            (fun known hin => htexts known (.inl (hknown known hin)))
            (fun known hin => hlangs known (.inl (hknown known hin)))
            (fun later hlater => hsorted later (List.mem_cons_of_mem _ hlater))
            (fun before later hpair => hedit before later (hrest _ hpair))
            (fun before later hpair => hcovered before later (hrest _ hpair))
          rw [run, hsnap]
          dsimp only [Option.bind_eq_bind, Option.bind_some]
          rw [hmore]
          rfl

/-- A call's lines, folded. -/
def fromScratch (hl : Highlighter) (call : Call) : Option (List LineHl) :=
  scratchFrom call.theme (some hl) call.frozenRanges call.lines 0 none {}

/-- In a run whose calls are covered by the ones before them, each call gives
the fold. -/
theorem snapshots_from_scratch (hash : List Char → UInt64) (hl : Highlighter) (ops : List Op)
    (hfree : CollisionFree hash (fun text => ∃ call ∈ calls ops, text ∈ call.lines)
      fun lang => ∃ call ∈ calls ops, ∃ line ∈ call.lines, fenceLang line = some (some lang))
    (hsorted : ∀ call ∈ calls ops,
      call.frozenRanges.Pairwise fun range later => range.2 ≤ later.1)
    (hedit : ∀ before call, (before, call) ∈ sequels none ops →
      before.editSeq = call.editSeq → before.lines = call.lines)
    (hcovered : ∀ before call, (before, call) ∈ sequels none ops → Covered before call) :
    ∃ outs, run hash hl new ops = some outs ∧ (calls ops).mapM (fromScratch hl) = some outs := by
  refine ⟨(calls ops).map (fresh hl), ?_, ?_⟩
  · have hnew : HoldsLast hash hl new none := rfl
    apply run_fresh hfree ops hnew
    · intro known hknown line hline
      rcases hknown with hmem | hnone
      · exact ⟨known, hmem, hline⟩
      · cases hnone
    · intro known hknown line hline lang hlang
      rcases hknown with hmem | hnone
      · exact ⟨known, hmem, line, hline, hlang⟩
      · cases hnone
    · exact hsorted
    · exact hedit
    · exact hcovered
  · have hfold : fromScratch hl = fun call => some (fresh hl call) := by
      funext call
      exact scratchFrom_eq call.theme (some hl) call.frozenRanges call.lines 0 none {}
    rw [hfold]
    exact List.mapM_pure

/-- A theme whose code has a background. -/
def codeTheme : Theme := { plainTheme with codeBlockBg := { bg := some .black } }

def fencedLines : List (List Char) := ["\x60\x60\x60".toList, "---".toList]

/-- An opened fence and a rule. -/
def fencedCall (editSeq : UInt64) (frozenRanges : List (Nat × Nat)) : Call where
  lines := fencedLines
  theme := codeTheme
  editSeq := editSeq
  frozenRanges := frozenRanges

def plainHighlighter : Highlighter := fun _ _ _ => none

def sampleHash (text : List Char) : UInt64 :=
  if text = "---".toList then 2 else 1

theorem sampleHash_free {ops : List Op} (hops : ∀ call ∈ calls ops, call.lines = fencedLines) :
    CollisionFree sampleHash (fun text => ∃ call ∈ calls ops, text ∈ call.lines)
      fun lang => ∃ call ∈ calls ops, ∃ line ∈ call.lines, fenceLang line = some (some lang) := by
  have hlang : ∀ lang, ¬ ∃ call ∈ calls ops, ∃ line ∈ call.lines,
      fenceLang line = some (some lang) := by
    intro lang hexists
    obtain ⟨call, hcall, line, hline, hfound⟩ := hexists
    rw [hops call hcall] at hline
    have hnone : ∀ line ∈ fencedLines, (fenceLang line).join = none := by decide
    have := hnone line hline
    rw [hfound] at this
    cases this
  constructor
  · intro line line' hline hline' heq
    obtain ⟨call, hcall, hin⟩ := hline
    obtain ⟨call', hcall', hin'⟩ := hline'
    rw [hops call hcall] at hin
    rw [hops call' hcall'] at hin'
    have hinj : ∀ line ∈ fencedLines, ∀ line' ∈ fencedLines,
        sampleHash line = sampleHash line' → line = line' := by decide
    exact hinj line hin line' hin' heq
  · intro lang _ hin
    exact absurd hin (hlang lang)
  · intro lang hin
    exact absurd hin (hlang lang)

/-- A fence that is frozen with an edit, and the same after a reset. -/
theorem snapshots_from_scratch_sample : ∃ outs,
    run sampleHash plainHighlighter new
      [.snapshot (fencedCall 0 []), .snapshot (fencedCall 1 [(0, 1)]), .reset,
        .snapshot (fencedCall 1 [])] = some outs ∧
    [fencedCall 0 [], fencedCall 1 [(0, 1)], fencedCall 1 []].mapM
      (fromScratch plainHighlighter) = some outs := by
  apply snapshots_from_scratch sampleHash plainHighlighter
    [.snapshot (fencedCall 0 []), .snapshot (fencedCall 1 [(0, 1)]), .reset,
      .snapshot (fencedCall 1 [])]
  · apply sampleHash_free
    decide
  · decide
  · intro before call hpair _
    have hlines : ∀ pair ∈ sequels none [.snapshot (fencedCall 0 []),
        .snapshot (fencedCall 1 [(0, 1)]), .reset, .snapshot (fencedCall 1 [])],
        pair.1.lines = pair.2.lines := by decide
    exact hlines (before, call) hpair
  · intro before call hpair
    have hthemes : ∀ pair ∈ sequels none [.snapshot (fencedCall 0 []),
        .snapshot (fencedCall 1 [(0, 1)]), .reset, .snapshot (fencedCall 1 [])],
        pair.1.theme = pair.2.theme ∧ pair.1.editSeq ≠ pair.2.editSeq := by decide
    have hpairs := hthemes (before, call) hpair
    exact ⟨fun _ => hpairs.1, fun _ hseq => absurd hseq hpairs.2⟩

/-- The fast path does not look at the ranges: the rule stays code when its
fence has been frozen. -/
theorem frozen_without_edit : ¬ ∀ (hash : List Char → UInt64) (hl : Highlighter) (ops : List Op),
    CollisionFree hash (fun text => ∃ call ∈ calls ops, text ∈ call.lines)
      (fun lang => ∃ call ∈ calls ops, ∃ line ∈ call.lines, fenceLang line = some (some lang)) →
    (∀ call ∈ calls ops, call.frozenRanges.Pairwise fun range later => range.2 ≤ later.1) →
    (∀ call ∈ calls ops, ∀ call' ∈ calls ops, call.editSeq = call'.editSeq →
      call.lines = call'.lines) →
    ∃ outs, run hash hl new ops = some outs ∧ (calls ops).mapM (fromScratch hl) = some outs := by
  intro hclaim
  obtain ⟨outs, hrun, hfold⟩ := hclaim sampleHash plainHighlighter
    [.snapshot (fencedCall 0 []), .snapshot (fencedCall 0 [(0, 1)])]
    (sampleHash_free (by decide)) (by decide) (by decide)
  have hdiffer : run sampleHash plainHighlighter new
      [.snapshot (fencedCall 0 []), .snapshot (fencedCall 0 [(0, 1)])] ≠
      [fencedCall 0 [], fencedCall 0 [(0, 1)]].mapM (fromScratch plainHighlighter) := by
    decide
  exact hdiffer (hrun.trans hfold.symm)

end HighlightCache

end MdHighlight

end Yaldabaoth
