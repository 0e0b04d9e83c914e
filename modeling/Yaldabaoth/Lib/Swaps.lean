import Mathlib.Data.List.Basic
import Mathlib.Data.List.Nodup
import Mathlib.Data.List.Perm.Basic

/-!
# `Yaldabaoth.Lib.Swaps`: recorded replacements, and edits that come in between

A `Swap` replaces a stretch of a text by another one at a recorded
place. A list of swaps is a path through texts: each one is recorded in
the coordinates of the text that the ones before it left. `Walks` says
that every swap finds in the text what it takes out. `Visits` cuts a
path into groups and names the text at the end of each.

A text that is edited besides, by an insertion or a deletion that the
path does not know of, needs its swaps moved. `carry` follows the place
of an insertion along the path, `Spared` follows a deletion. Where these
succeed the moved path leads to the same texts as before, each with the
edit in it.

`Rewinds` cuts a path into groups, each with a `Ledger` of what the
group put in and what it took away.
-/

set_option autoImplicit false

universe u

/-- At `start`, `out` goes and `inn` comes. -/
structure Swap (α : Type u) where
  start : Nat
  out : List α
  inn : List α
deriving DecidableEq

namespace Swap

variable {α : Type u}

/-- The swap that takes this one back. -/
def flip (sw : Swap α) : Swap α := ⟨sw.start, sw.inn, sw.out⟩

/-- The text after the swap. -/
def apply (sw : Swap α) (text : List α) : List α :=
  text.take sw.start ++ sw.inn ++ text.drop (sw.start + sw.out.length)

/-- The text has what the swap takes out, where it takes it out. -/
def Fits (sw : Swap α) (text : List α) : Prop :=
  ∃ before after, text = before ++ sw.out ++ after ∧ before.length = sw.start

/-- The swap at another place. -/
def moved (remap : Nat → Nat) (sw : Swap α) : Swap α := { sw with start := remap sw.start }

theorem apply_of_parts (sw : Swap α) {before after : List α} (hstart : before.length = sw.start) :
    sw.apply (before ++ sw.out ++ after) = before ++ sw.inn ++ after := by
  have htake : (before ++ sw.out ++ after).take sw.start = before := by
    rw [List.append_assoc, ← hstart, List.take_left]
  have hdrop : (before ++ sw.out ++ after).drop (sw.start + sw.out.length) = after := by
    rw [← hstart, ← List.length_append, List.drop_left]
  rw [apply, htake, hdrop]

/-- A swap can be taken back. -/
theorem Fits.flip {sw : Swap α} {text : List α} (h : sw.Fits text) :
    sw.flip.Fits (sw.apply text) ∧ sw.flip.apply (sw.apply text) = text := by
  obtain ⟨before, after, rfl, hstart⟩ := h
  rw [apply_of_parts sw hstart]
  exact ⟨⟨before, after, rfl, hstart⟩, apply_of_parts sw.flip hstart⟩

theorem Fits.mem_apply {sw : Swap α} {text : List α} (h : sw.Fits text) {a : α}
    (ha : a ∈ sw.apply text) : a ∈ text ∨ a ∈ sw.inn := by
  obtain ⟨before, after, rfl, hstart⟩ := h
  rw [apply_of_parts sw hstart] at ha
  simp only [List.mem_append] at ha ⊢
  tauto

end Swap

namespace Swaps

variable {α : Type u}

/-! ### Paths -/

/-- The text at the end of a path. -/
def walk : List (Swap α) → List α → List α
  | [], text => text
  | sw :: rest, text => walk rest (sw.apply text)

/-- Every swap of the path fits where its turn comes. -/
def Walks : List (Swap α) → List α → Prop
  | [], _ => True
  | sw :: rest, text => sw.Fits text ∧ Walks rest (sw.apply text)

theorem walk_append (path rest : List (Swap α)) (text : List α) :
    walk (path ++ rest) text = walk rest (walk path text) := by
  induction path generalizing text with
  | nil => rfl
  | cons sw path ih => exact ih (sw.apply text)

theorem walks_append (path rest : List (Swap α)) (text : List α) :
    Walks (path ++ rest) text ↔ Walks path text ∧ Walks rest (walk path text) := by
  induction path generalizing text with
  | nil => simp [Walks, walk]
  | cons sw path ih =>
      show sw.Fits text ∧ Walks (path ++ rest) (sw.apply text) ↔ _
      rw [ih, ← and_assoc]
      rfl

/-- The path back, from the end to the beginning. -/
def back (path : List (Swap α)) : List (Swap α) := (path.map Swap.flip).reverse

/-- A path that was walked can be walked back. -/
theorem Walks.back {path : List (Swap α)} {text : List α} (h : Walks path text) :
    Walks (back path) (walk path text) ∧ walk (back path) (walk path text) = text := by
  induction path generalizing text with
  | nil => exact ⟨trivial, rfl⟩
  | cons sw path ih =>
      obtain ⟨hfits, hrest⟩ := h
      obtain ⟨hback, hto⟩ := ih hrest
      obtain ⟨hflip, hsame⟩ := hfits.flip
      have hsplit : Swaps.back (sw :: path) = Swaps.back path ++ [sw.flip] := by
        simp [Swaps.back]
      rw [hsplit, walks_append, walk_append]
      show (Walks (Swaps.back path) (walk path (sw.apply text)) ∧ _) ∧ _
      rw [show walk (sw :: path) text = walk path (sw.apply text) from rfl, hto]
      exact ⟨⟨hback, hflip, trivial⟩, hsame⟩

theorem Walks.mem_walk {path : List (Swap α)} {text : List α} (h : Walks path text) {a : α}
    (ha : a ∈ walk path text) : a ∈ text ∨ ∃ sw ∈ path, a ∈ sw.inn := by
  induction path generalizing text with
  | nil => exact .inl ha
  | cons sw path ih =>
      obtain ⟨hfits, hrest⟩ := h
      rcases ih hrest ha with ha | ⟨sw', hsw', ha⟩
      · rcases hfits.mem_apply ha with ha | ha
        · exact .inl ha
        · exact .inr ⟨sw, List.mem_cons_self, ha⟩
      · exact .inr ⟨sw', List.mem_cons_of_mem _ hsw', ha⟩

/-- What the path loses is something that it takes out. -/
theorem Walks.mem_text {path : List (Swap α)} {text : List α} (h : Walks path text) {a : α}
    (ha : a ∈ text) : a ∈ walk path text ∨ ∃ sw ∈ path, a ∈ sw.out := by
  obtain ⟨hback, hto⟩ := h.back
  rw [← hto] at ha
  rcases hback.mem_walk ha with ha | ⟨sw, hsw, ha⟩
  · exact .inl ha
  · obtain ⟨sw', hsw', rfl⟩ : ∃ sw' ∈ path, sw'.flip = sw := by
      simpa [Swaps.back] using hsw
    exact .inr ⟨sw', hsw', ha⟩

instance decidableFits [DecidableEq α] (sw : Swap α) (text : List α) : Decidable (sw.Fits text) :=
  decidable_of_iff (sw.start + sw.out.length ≤ text.length ∧
    (text.drop sw.start).take sw.out.length = sw.out) (by
    constructor
    · rintro ⟨hle, hout⟩
      refine ⟨text.take sw.start, text.drop (sw.start + sw.out.length), ?_, ?_⟩
      · conv_lhs => rw [← List.take_append_drop sw.start text,
          ← List.take_append_drop sw.out.length (text.drop sw.start), hout, List.drop_drop]
        rw [List.append_assoc]
      · rw [List.length_take]
        omega
    · rintro ⟨before, after, rfl, hstart⟩
      refine ⟨by simp [← hstart], ?_⟩
      rw [List.append_assoc, ← hstart, List.drop_left, List.take_left])

instance decidableWalks [DecidableEq α] :
    ∀ (path : List (Swap α)) (text : List α), Decidable (Walks path text)
  | [], _ => .isTrue trivial
  | sw :: rest, text =>
      have := decidableWalks rest (sw.apply text)
      inferInstanceAs (Decidable (sw.Fits text ∧ Walks rest (sw.apply text)))

/-! ### The stops of a path -/

/-- The groups of a path lead from the text to one stop after the other. -/
def Visits : List (List (Swap α)) → List (List α) → List α → Prop
  | [], [], _ => True
  | group :: groups, stop :: stops, text =>
      Walks group text ∧ walk group text = stop ∧ Visits groups stops stop
  | _, _, _ => False

theorem Visits.length {groups : List (List (Swap α))} {stops : List (List α)} {text : List α}
    (h : Visits groups stops text) : groups.length = stops.length := by
  induction groups generalizing stops text with
  | nil =>
      cases stops with
      | nil => rfl
      | cons stop stops => exact h.elim
  | cons group groups ih =>
      cases stops with
      | nil => exact h.elim
      | cons stop stops => simp [ih h.2.2]

/-- The stops farthest away can be forgotten. -/
theorem Visits.take {groups : List (List (Swap α))} {stops : List (List α)} {text : List α}
    (h : Visits groups stops text) (n : Nat) : Visits (groups.take n) (stops.take n) text := by
  induction n generalizing groups stops text with
  | zero => simp [Visits]
  | succ n ih =>
      cases groups with
      | nil =>
          cases stops with
          | nil => trivial
          | cons stop stops => exact h.elim
      | cons group groups =>
          cases stops with
          | nil => exact h.elim
          | cons stop stops => exact ⟨h.1, h.2.1, ih h.2.2⟩

/-- A path that can be walked has its stops. -/
theorem visits_of_walks {groups : List (List (Swap α))} {text : List α}
    (h : Walks groups.flatten text) : ∃ stops, Visits groups stops text := by
  induction groups generalizing text with
  | nil => exact ⟨[], trivial⟩
  | cons group groups ih =>
      rw [List.flatten_cons, walks_append] at h
      obtain ⟨stops, hstops⟩ := ih h.2
      exact ⟨walk group text :: stops, h.1, rfl, hstops⟩

/-! ### An insertion besides -/

/-- The text with more in it. -/
def insertAt (text : List α) (pos : Nat) (added : List α) : List α :=
  text.take pos ++ added ++ text.drop pos

theorem insertAt_append (before after added : List α) :
    insertAt (before ++ after) before.length added = before ++ added ++ after := by
  rw [insertAt, List.take_left, List.drop_left]

theorem mem_insertAt {text added : List α} {pos : Nat} {a : α} :
    a ∈ insertAt text pos added ↔ a ∈ text ∨ a ∈ added := by
  have hsplit : a ∈ text ↔ a ∈ text.take pos ∨ a ∈ text.drop pos := by
    rw [← List.mem_append, List.take_append_drop]
  rw [insertAt, List.mem_append, List.mem_append, hsplit]
  tauto

theorem nodup_insertAt {text added : List α} {pos : Nat} (htext : text.Nodup)
    (hadded : added.Nodup) (hfresh : ∀ a ∈ added, a ∉ text) :
    (insertAt text pos added).Nodup := by
  have hperm : (insertAt text pos added).Perm (added ++ text) := by
    have hswap : (text.take pos ++ added).Perm (added ++ text.take pos) := List.perm_append_comm
    have happend := hswap.append_right (text.drop pos)
    rwa [List.append_assoc added, List.take_append_drop] at happend
  rw [hperm.nodup_iff]
  exact hadded.append htext hfresh

/-- Where `cut` decides which swaps move: those that start there or
behind it. -/
def pushed (cut count start : Nat) : Nat := if start < cut then start else start + count

/-- The place of an insertion, followed along a path: `none` where a
swap of the path should have moved and did not, or the other way, or
where the insertion falls inside what a swap takes out. -/
def carry (cut : Nat) : List (Swap α) → Nat → Option Nat
  | [], pos => some pos
  | sw :: rest, pos =>
      if sw.start < cut then
        if sw.start + sw.out.length ≤ pos then
          carry cut rest (pos - sw.out.length + sw.inn.length)
        else none
      else if pos ≤ sw.start then carry cut rest pos
      else none

theorem carry_append (cut : Nat) (path rest : List (Swap α)) (pos : Nat) :
    carry cut (path ++ rest) pos = (carry cut path pos).bind (carry cut rest) := by
  induction path generalizing pos with
  | nil => rfl
  | cons sw path ih =>
      simp only [List.cons_append, carry]
      split <;> split <;> first | exact ih _ | rfl

/-- One swap and an insertion that goes past it. -/
theorem fits_beside {sw : Swap α} {text : List α} {cut pos pos' : Nat}
    (h : sw.Fits text) (added : List α) (hpos : pos ≤ text.length) (hcarry : carry cut [sw] pos = some pos') :
    let sw' := sw.moved (pushed cut added.length)
    sw'.Fits (insertAt text pos added) ∧
      sw'.apply (insertAt text pos added) = insertAt (sw.apply text) pos' added ∧
      pos' ≤ (sw.apply text).length := by
  obtain ⟨before, after, rfl, hstart⟩ := h
  intro sw'
  rw [Swap.apply_of_parts sw hstart]
  unfold carry at hcarry
  by_cases hcut : sw.start < cut
  · -- The swap stays, the insertion is behind it.
    have hsame : sw'.start = sw.start := by simp [sw', Swap.moved, pushed, hcut]
    simp only [hcut, if_true] at hcarry
    split at hcarry
    · rename_i hbehind
      obtain ⟨first, last, rfl, hfirst⟩ :
          ∃ first last, after = first ++ last ∧ (before ++ sw.out ++ first).length = pos := by
        refine ⟨after.take (pos - sw.start - sw.out.length),
          after.drop (pos - sw.start - sw.out.length), (List.take_append_drop _ _).symm, ?_⟩
        simp only [List.length_append, List.length_take] at hpos ⊢
        omega
      have hpos' : pos' = (before ++ sw.inn ++ first).length := by
        simp only [carry, Option.some.injEq] at hcarry
        simp only [List.length_append] at hfirst ⊢
        omega
      have htext : insertAt (before ++ sw.out ++ (first ++ last)) pos added
          = before ++ sw'.out ++ (first ++ added ++ last) := by
        rw [← hfirst, ← List.append_assoc, insertAt_append]
        simp [sw', Swap.moved]
      rw [htext, hpos', ← List.append_assoc (before ++ sw.inn), insertAt_append]
      refine ⟨⟨before, _, rfl, hstart.trans hsame.symm⟩, ?_, by simp⟩
      rw [Swap.apply_of_parts sw' (hstart.trans hsame.symm)]
      simp [sw', Swap.moved]
    · cases hcarry
  · -- The swap moves, the insertion is in front of it.
    have hthere : sw'.start = sw.start + added.length := by simp [sw', Swap.moved, pushed, hcut]
    simp only [hcut, if_false] at hcarry
    split at hcarry
    · rename_i hfront
      obtain rfl : pos = pos' := by simpa [carry] using hcarry
      obtain ⟨first, last, rfl, hfirst⟩ :
          ∃ first last, before = first ++ last ∧ first.length = pos := by
        refine ⟨before.take pos, before.drop pos, (List.take_append_drop _ _).symm, ?_⟩
        rw [List.length_take]
        omega
      have hlength : (first ++ added ++ last).length = sw'.start := by
        simp only [List.length_append] at hstart ⊢
        omega
      have htext : insertAt (first ++ last ++ sw.out ++ after) pos added
          = first ++ added ++ last ++ sw'.out ++ after := by
        rw [← hfirst, List.append_assoc first, List.append_assoc first, insertAt_append]
        simp [sw', Swap.moved]
      rw [htext]
      refine ⟨⟨_, after, rfl, hlength⟩, ?_, by simp; omega⟩
      rw [Swap.apply_of_parts sw' hlength, ← hfirst, List.append_assoc first last,
        List.append_assoc first (last ++ sw.inn), insertAt_append]
      simp [sw', Swap.moved]
    · cases hcarry

/-- A path and an insertion that is carried along it: the moved path
leads to the same text with the insertion in it. -/
theorem Walks.beside {path : List (Swap α)} {text : List α} {cut pos pos' : Nat}
    (h : Walks path text) (added : List α) (hpos : pos ≤ text.length) (hcarry : carry cut path pos = some pos') :
    let path' := path.map (Swap.moved (pushed cut added.length))
    Walks path' (insertAt text pos added) ∧
      walk path' (insertAt text pos added) = insertAt (walk path text) pos' added ∧
      pos' ≤ (walk path text).length := by
  induction path generalizing text pos with
  | nil =>
      obtain rfl : pos = pos' := by simpa [carry] using hcarry
      exact ⟨trivial, rfl, hpos⟩
  | cons sw path ih =>
      obtain ⟨hfits, hrest⟩ := h
      rw [show sw :: path = [sw] ++ path from rfl, carry_append] at hcarry
      obtain ⟨mid, hmid, hcarry⟩ := Option.bind_eq_some_iff.1 hcarry
      obtain ⟨hfits', happly, hmidle⟩ := fits_beside hfits added hpos hmid
      obtain ⟨hwalks, hwalk, hle⟩ := ih hrest hmidle hcarry
      refine ⟨⟨hfits', ?_⟩, ?_, hle⟩
      · rw [happly]
        exact hwalks
      · show walk (path.map _) (Swap.apply _ _) = _
        rw [happly]
        exact hwalk

/-! ### A deletion besides -/

/-- A deletion that the path does not notice: no swap has to do with what
goes, and each is moved by as much as goes in front of it. -/
def Spared (keep : α → Bool) (remap : Nat → Nat) : List (Swap α) → List α → Prop
  | [], _ => True
  | sw :: rest, text =>
      (∀ a ∈ sw.out ++ sw.inn, keep a = true) ∧
        ((text.take sw.start).filter keep).length = remap sw.start ∧
        Spared keep remap rest (sw.apply text)

instance decidableSpared (keep : α → Bool) (remap : Nat → Nat) :
    ∀ (path : List (Swap α)) (text : List α), Decidable (Spared keep remap path text)
  | [], _ => .isTrue trivial
  | sw :: rest, text =>
      have := decidableSpared keep remap rest (sw.apply text)
      inferInstanceAs (Decidable ((∀ a ∈ sw.out ++ sw.inn, keep a = true) ∧
        ((text.take sw.start).filter keep).length = remap sw.start ∧
        Spared keep remap rest (sw.apply text)))

theorem spared_append (keep : α → Bool) (remap : Nat → Nat) (path rest : List (Swap α))
    (text : List α) :
    Spared keep remap (path ++ rest) text ↔
      Spared keep remap path text ∧ Spared keep remap rest (walk path text) := by
  induction path generalizing text with
  | nil => simp [Spared, walk]
  | cons sw path ih =>
      show _ ∧ _ ∧ Spared keep remap (path ++ rest) (sw.apply text) ↔ _
      rw [ih]
      show _ ↔ (_ ∧ _ ∧ Spared keep remap path (sw.apply text)) ∧
        Spared keep remap rest (walk path (sw.apply text))
      tauto

theorem Spared.keep {keep : α → Bool} {remap : Nat → Nat} {path : List (Swap α)} {text : List α}
    (h : Spared keep remap path text) : ∀ sw ∈ path, ∀ a ∈ sw.out ++ sw.inn, keep a = true := by
  induction path generalizing text with
  | nil => nofun
  | cons sw path ih =>
      intro sw' hsw'
      rcases List.mem_cons.1 hsw' with rfl | hsw'
      · exact h.1
      · exact ih h.2.2 sw' hsw'

theorem Walks.spared {keep : α → Bool} {remap : Nat → Nat} {path : List (Swap α)} {text : List α}
    (h : Walks path text) (hspared : Spared keep remap path text) :
    Walks (path.map (Swap.moved remap)) (text.filter keep) ∧
      walk (path.map (Swap.moved remap)) (text.filter keep) = (walk path text).filter keep := by
  induction path generalizing text with
  | nil => exact ⟨trivial, rfl⟩
  | cons sw path ih =>
      obtain ⟨⟨before, after, htext, hstart⟩, hrest⟩ := h
      obtain ⟨hkeep, hlength, hspared⟩ := hspared
      obtain ⟨hwalks, hwalk⟩ := ih hrest hspared
      have hout : sw.out.filter keep = sw.out :=
        List.filter_eq_self.2 fun a ha => hkeep a (List.mem_append_left _ ha)
      have hinn : sw.inn.filter keep = sw.inn :=
        List.filter_eq_self.2 fun a ha => hkeep a (List.mem_append_right _ ha)
      subst htext
      have hbefore : (before.filter keep).length = (sw.moved remap).start := by
        rw [List.append_assoc, ← hstart, List.take_left, hstart] at hlength
        exact hlength
      have hfilter : (before ++ sw.out ++ after).filter keep
          = before.filter keep ++ (sw.moved remap).out ++ after.filter keep := by
        rw [List.filter_append, List.filter_append, hout]
        rfl
      have happly : (sw.moved remap).apply ((before ++ sw.out ++ after).filter keep)
          = (sw.apply (before ++ sw.out ++ after)).filter keep := by
        rw [hfilter, Swap.apply_of_parts _ hbefore, Swap.apply_of_parts sw hstart,
          List.filter_append, List.filter_append, hinn]
        rfl
      refine ⟨⟨⟨_, _, hfilter, hbefore⟩, ?_⟩, ?_⟩
      · rw [happly]
        exact hwalks
      · show walk (path.map _) (Swap.apply _ _) = _
        rw [happly]
        exact hwalk

/-! ### Groups -/

/-- What a group of edits put into a text and what it took from there. -/
structure Ledger (α : Type u) where
  inserted : List α
  removed : List α
deriving DecidableEq

/-- The text before a group is the one after it without what the group
put in and with what it took away. -/
structure Ledger.Net (L : Ledger α) (before after : List α) : Prop where
  mem : ∀ a, a ∈ before ↔ (a ∈ after ∧ a ∉ L.inserted) ∨ a ∈ L.removed
  absent : ∀ a ∈ L.removed, a ∉ after
  nodup_before : before.Nodup
  nodup_after : after.Nodup

theorem Ledger.Net.start {text : List α} (h : text.Nodup) : (⟨[], []⟩ : Ledger α).Net text text :=
  ⟨by simp, by simp, h, h⟩

theorem Ledger.Net.insertAt {L : Ledger α} {before after added : List α} (h : L.Net before after)
    (pos pos' : Nat) (hadded : added.Nodup) (hbefore : ∀ a ∈ added, a ∉ before)
    (hafter : ∀ a ∈ added, a ∉ after) (hinserted : ∀ a ∈ added, a ∉ L.inserted) :
    L.Net (insertAt before pos' added) (insertAt after pos added) where
  mem a := by
    have := h.mem a
    have := hinserted a
    rw [mem_insertAt, mem_insertAt]
    tauto
  absent a ha hmem := by
    have hold : a ∈ before := (h.mem a).2 (.inr ha)
    rcases mem_insertAt.1 hmem with hmem | hmem
    · exact h.absent a ha hmem
    · exact hbefore a hmem hold
  nodup_before := nodup_insertAt h.nodup_before hadded hbefore
  nodup_after := nodup_insertAt h.nodup_after hadded hafter

theorem Ledger.Net.filter {L : Ledger α} {before after : List α} (h : L.Net before after)
    {keep : α → Bool} (hkeep : ∀ a ∈ L.removed, keep a = true) :
    L.Net (before.filter keep) (after.filter keep) where
  mem a := by
    have := h.mem a
    have := hkeep a
    rw [List.mem_filter, List.mem_filter]
    tauto
  absent a ha hmem := h.absent a ha (List.mem_filter.1 hmem).1
  nodup_before := h.nodup_before.filter _
  nodup_after := h.nodup_after.filter _

/-- One more edit in the group: `added` came in and `gone` went. -/
theorem Ledger.Net.edit {L : Ledger α} {before text text' added gone : List α}
    {mine : α → Bool} (h : L.Net before text) (hnodup : text'.Nodup)
    (hsource : ∀ a ∈ text', a ∈ text ∨ a ∈ added) (hfresh : ∀ a ∈ added, a ∉ before)
    (hgone : ∀ a, a ∈ gone ↔ a ∈ text ∧ a ∉ text')
    (hmine : ∀ a, mine a = true ↔ a ∉ L.inserted) :
    (⟨L.inserted ++ added, L.removed ++ gone.filter mine⟩ : Ledger α).Net before text' where
  mem a := by
    have hbefore := h.mem a
    have hsource := hsource a
    have hfresh := hfresh a
    show _ ↔ (_ ∧ a ∉ L.inserted ++ added) ∨ a ∈ L.removed ++ gone.filter mine
    rw [List.mem_append, List.mem_append, List.mem_filter, hgone, hmine]
    tauto
  absent a ha hmem := by
    rcases List.mem_append.1 ha with ha | ha
    · rcases hsource a hmem with hmem | hmem
      · exact h.absent a ha hmem
      · exact hfresh a hmem ((h.mem a).2 (.inr ha))
    · exact ((hgone a).1 (List.mem_filter.1 ha).1).2 hmem
  nodup_before := h.nodup_before
  nodup_after := hnodup

/-- The groups of a path from a text, each with its ledger. `net` says
what a ledger tells of the text before its group's part of the path and
the one behind it. -/
def Rewinds (net : Ledger α → List α → List α → Prop) :
    List (List (Swap α)) → List (Ledger α) → List α → Prop
  | [], [], _ => True
  | group :: groups, L :: ledgers, text =>
      Walks group text ∧ net L text (walk group text) ∧
        Rewinds net groups ledgers (walk group text)
  | _, _, _ => False

/-- Back to the text before the group. -/
def Backward (L : Ledger α) (text next : List α) : Prop := L.Net next text

/-- On to the text after the group. -/
def Forward (L : Ledger α) (text next : List α) : Prop := L.Net text next

theorem Backward.insertAt {L : Ledger α} {text next added : List α} {known : α → Prop}
    (h : Backward L text next) (htext : ∀ a ∈ text, known a)
    (hledger : ∀ a ∈ L.inserted ++ L.removed, known a) (hnodup : added.Nodup)
    (hfresh : ∀ a ∈ added, ¬ known a) (pos pos' : Nat) :
    (∀ a ∈ next, known a) ∧ Backward L (insertAt text pos added) (insertAt next pos' added) := by
  have hnext : ∀ a ∈ next, known a := by
    intro a ha
    rcases (h.mem a).1 ha with ⟨ha, -⟩ | ha
    · exact htext a ha
    · exact hledger a (List.mem_append_right _ ha)
  refine ⟨hnext, Ledger.Net.insertAt h pos pos' hnodup ?_ ?_ ?_⟩
  · exact fun a ha hmem => hfresh a ha (hnext a hmem)
  · exact fun a ha hmem => hfresh a ha (htext a hmem)
  · exact fun a ha hmem => hfresh a ha (hledger a (List.mem_append_left _ hmem))

theorem Forward.insertAt {L : Ledger α} {text next added : List α} {known : α → Prop}
    (h : Forward L text next) (htext : ∀ a ∈ text, known a)
    (hledger : ∀ a ∈ L.inserted ++ L.removed, known a) (hnodup : added.Nodup)
    (hfresh : ∀ a ∈ added, ¬ known a) (pos pos' : Nat) :
    (∀ a ∈ next, known a) ∧ Forward L (insertAt text pos added) (insertAt next pos' added) := by
  have hnext : ∀ a ∈ next, known a := by
    intro a ha
    by_cases hin : a ∈ L.inserted
    · exact hledger a (List.mem_append_left _ hin)
    · exact htext a ((h.mem a).2 (.inl ⟨ha, hin⟩))
  refine ⟨hnext, Ledger.Net.insertAt h pos' pos hnodup ?_ ?_ ?_⟩
  · exact fun a ha hmem => hfresh a ha (htext a hmem)
  · exact fun a ha hmem => hfresh a ha (hnext a hmem)
  · exact fun a ha hmem => hfresh a ha (hledger a (List.mem_append_left _ hmem))

/-- What neither comes nor goes with the group can go besides. -/
theorem Ledger.Net.spared {L : Ledger α} {before after : List α} {keep : α → Bool}
    (h : L.Net before after) (hsame : ∀ a, keep a = false → (a ∈ before ↔ a ∈ after)) :
    L.Net (before.filter keep) (after.filter keep) := by
  refine h.filter fun a ha => ?_
  by_contra hgone
  have hbefore : a ∈ before := (h.mem a).2 (.inr ha)
  exact h.absent a ha ((hsame a (eq_false_of_ne_true hgone)).1 hbefore)

variable {net : Ledger α → List α → List α → Prop}

theorem Rewinds.length {groups : List (List (Swap α))} {ledgers : List (Ledger α)}
    {text : List α} (h : Rewinds net groups ledgers text) : groups.length = ledgers.length := by
  induction groups generalizing ledgers text with
  | nil =>
      cases ledgers with
      | nil => rfl
      | cons L ledgers => exact h.elim
  | cons group groups ih =>
      cases ledgers with
      | nil => exact h.elim
      | cons L ledgers => simp [ih h.2.2]

/-- The oldest groups can be forgotten. -/
theorem Rewinds.take {groups : List (List (Swap α))} {ledgers : List (Ledger α)}
    {text : List α} (h : Rewinds net groups ledgers text) (n : Nat) :
    Rewinds net (groups.take n) (ledgers.take n) text := by
  induction n generalizing groups ledgers text with
  | zero => simp [Rewinds]
  | succ n ih =>
      cases groups with
      | nil =>
          cases ledgers with
          | nil => trivial
          | cons L ledgers => exact h.elim
      | cons group groups =>
          cases ledgers with
          | nil => exact h.elim
          | cons L ledgers => exact ⟨h.1, h.2.1, ih h.2.2⟩

/-- An insertion that is carried along the path, of what neither the text
nor a ledger knows. `known` bounds what these hold. -/
theorem Rewinds.insertAt {groups : List (List (Swap α))} {ledgers : List (Ledger α)}
    {text added : List α} {cut pos pos' : Nat} (known : α → Prop)
    (hnet : ∀ L ∈ ledgers, ∀ t t' p p', (∀ a ∈ t, known a) → net L t t' →
      (∀ a ∈ t', known a) ∧ net L (insertAt t p added) (insertAt t' p' added))
    (h : Rewinds net groups ledgers text) (htext : ∀ a ∈ text, known a)
    (hpos : pos ≤ text.length) (hcarry : carry cut groups.flatten pos = some pos') :
    Rewinds net (groups.map (List.map (Swap.moved (pushed cut added.length)))) ledgers
      (insertAt text pos added) := by
  induction groups generalizing ledgers text pos with
  | nil =>
      cases ledgers with
      | nil => trivial
      | cons L ledgers => exact h.elim
  | cons group groups ih =>
      cases ledgers with
      | nil => exact h.elim
      | cons L ledgers =>
          obtain ⟨hwalks, hledger, hrest⟩ := h
          rw [List.flatten_cons, carry_append] at hcarry
          obtain ⟨mid, hmid, hcarry⟩ := Option.bind_eq_some_iff.1 hcarry
          obtain ⟨hwalks', hwalk, hle⟩ := hwalks.beside added hpos hmid
          obtain ⟨hknown, hledger'⟩ :=
            hnet L List.mem_cons_self _ _ pos mid htext hledger
          have hrest' := ih (fun L hL => hnet L (List.mem_cons_of_mem _ hL)) hrest hknown hle hcarry
          refine ⟨hwalks', ?_, ?_⟩
          · rw [hwalk]
            exact hledger'
          · rw [hwalk]
            exact hrest'

/-- A deletion that the path does not notice. -/
theorem Rewinds.filter {groups : List (List (Swap α))} {ledgers : List (Ledger α)}
    {text : List α} {keep : α → Bool} {remap : Nat → Nat}
    (hnet : ∀ L t t', net L t t' → (∀ a, keep a = false → (a ∈ t ↔ a ∈ t')) →
      net L (t.filter keep) (t'.filter keep))
    (h : Rewinds net groups ledgers text) (hspared : Spared keep remap groups.flatten text) :
    Rewinds net (groups.map (List.map (Swap.moved remap))) ledgers (text.filter keep) := by
  induction groups generalizing ledgers text with
  | nil =>
      cases ledgers with
      | nil => trivial
      | cons L ledgers => exact h.elim
  | cons group groups ih =>
      cases ledgers with
      | nil => exact h.elim
      | cons L ledgers =>
          obtain ⟨hwalks, hledger, hrest⟩ := h
          rw [List.flatten_cons, spared_append] at hspared
          obtain ⟨hspared, hsparedRest⟩ := hspared
          obtain ⟨hwalks', hwalk⟩ := hwalks.spared hspared
          -- What goes is neither taken out nor put in on the way.
          have hsame : ∀ a, keep a = false → (a ∈ text ↔ a ∈ walk group text) := by
            intro a ha
            constructor
            · intro hmem
              rcases hwalks.mem_text hmem with hmem | ⟨sw, hsw, hmem⟩
              · exact hmem
              · have := hspared.keep sw hsw a (List.mem_append_left _ hmem)
                simp [ha] at this
            · intro hmem
              rcases hwalks.mem_walk hmem with hmem | ⟨sw, hsw, hmem⟩
              · exact hmem
              · have := hspared.keep sw hsw a (List.mem_append_right _ hmem)
                simp [ha] at this
          refine ⟨hwalks', ?_, ?_⟩
          · rw [hwalk]
            exact hnet L _ _ hledger hsame
          · rw [hwalk]
            exact ih hrest hsparedRest

end Swaps
