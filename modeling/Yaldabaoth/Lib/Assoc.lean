import Mathlib.Data.List.Basic
import Mathlib.Data.List.Perm.Basic
import Mathlib.Data.List.Nodup

/-!
# `Yaldabaoth.Lib.Assoc`: association lists

A list of keys with values, of which a key means its first entry. `get`
is the lookup; the lemmas say what the usual edits of such a list do to
it. A list that is kept in some order of its values is rearranged after
an edit, which `get_perm` does not see as long as no key is there twice.
-/

set_option autoImplicit false

universe u v

namespace Assoc

variable {κ : Type u} {β : Type v} [DecidableEq κ]

/-- The value of the key. -/
def get (l : List (κ × β)) (k : κ) : Option β := (l.find? fun e => e.1 == k).map Prod.snd

@[simp] theorem get_nil (k : κ) : get ([] : List (κ × β)) k = none := rfl

theorem get_cons (e : κ × β) (l : List (κ × β)) (k : κ) :
    get (e :: l) k = if e.1 = k then some e.2 else get l k := by
  by_cases h : e.1 = k
  · rw [if_pos h, get, List.find?_cons_of_pos (by simpa using h)]
    rfl
  · rw [if_neg h, get, List.find?_cons_of_neg (by simpa using h), get]

theorem get_append (l l' : List (κ × β)) (k : κ) : get (l ++ l') k = (get l k).or (get l' k) := by
  induction l with
  | nil => rfl
  | cons e l ih =>
      rw [List.cons_append, get_cons, get_cons, ih]
      split <;> rfl

theorem get_isSome {l : List (κ × β)} {k : κ} : (get l k).isSome = true ↔ k ∈ l.map Prod.fst := by
  induction l with
  | nil => simp
  | cons e l ih =>
      rw [get_cons, List.map_cons, List.mem_cons]
      by_cases h : e.1 = k
      · simp [h]
      · rw [if_neg h, ih]
        simp [Ne.symm h]

theorem get_eq_none {l : List (κ × β)} {k : κ} : get l k = none ↔ k ∉ l.map Prod.fst := by
  rw [← get_isSome, Option.not_isSome_iff_eq_none]

theorem mem_of_get {l : List (κ × β)} {k : κ} {v : β} (h : get l k = some v) : (k, v) ∈ l := by
  obtain ⟨e, he, rfl⟩ := Option.map_eq_some_iff.1 h
  have hkey := List.find?_some he
  have hmem := List.mem_of_find?_eq_some he
  rw [← beq_iff_eq.1 hkey]
  exact hmem

theorem get_eq_some {l : List (κ × β)} (hnodup : (l.map Prod.fst).Nodup) {k : κ} {v : β} :
    get l k = some v ↔ (k, v) ∈ l := by
  refine ⟨mem_of_get, fun hmem => ?_⟩
  have hsome := get_isSome.2 (List.mem_map_of_mem (f := Prod.fst) hmem)
  obtain ⟨v', hv'⟩ := Option.isSome_iff_exists.1 hsome
  have hsame := List.inj_on_of_nodup_map hnodup (mem_of_get hv') hmem rfl
  rw [hv']
  exact congrArg (fun e => some e.2) hsame

/-- The order of the entries does not matter. -/
theorem get_perm {l l' : List (κ × β)} (h : l.Perm l') (hnodup : (l.map Prod.fst).Nodup) (k : κ) :
    get l k = get l' k := by
  have hnodup' : (l'.map Prod.fst).Nodup := (h.map Prod.fst).nodup_iff.1 hnodup
  ext v
  rw [get_eq_some hnodup, get_eq_some hnodup', h.mem_iff]

theorem get_filter (p : κ → Bool) (l : List (κ × β)) (k : κ) :
    get (l.filter fun e => p e.1) k = if p k then get l k else none := by
  induction l with
  | nil => simp
  | cons e l ih =>
      rw [List.filter_cons]
      by_cases hp : p e.1 = true
      · rw [if_pos hp, get_cons, get_cons, ih]
        by_cases hk : e.1 = k
        · rw [if_pos hk, if_pos hk, if_pos (by rw [← hk]; exact hp)]
        · rw [if_neg hk, if_neg hk]
      · rw [if_neg hp, ih, get_cons]
        by_cases hk : e.1 = k
        · rw [if_neg (by rw [← hk]; exact hp), if_neg (by rw [← hk]; exact hp)]
        · rw [if_neg hk]

/-- A change of the values that goes by the key and the value. -/
theorem get_map (f : κ → β → β) (l : List (κ × β)) (k : κ) :
    get (l.map fun e => (e.1, f e.1 e.2)) k = (get l k).map (f k) := by
  induction l with
  | nil => rfl
  | cons e l ih =>
      rw [List.map_cons, get_cons, get_cons, ih]
      by_cases hk : e.1 = k
      · rw [if_pos hk, if_pos hk, hk]
        rfl
      · rw [if_neg hk, if_neg hk]

/-- The first entry of a key is written over. -/
theorem get_set {l : List (κ × β)} {k : κ} {i : Nat}
    (h : l.findIdx? (fun e => e.1 == k) = some i) (v : β) (x : κ) :
    get (l.set i (k, v)) x = if x = k then some v else get l x := by
  induction l generalizing i with
  | nil => simp at h
  | cons e l ih =>
      rw [List.findIdx?_cons] at h
      by_cases he : e.1 = k
      · rw [if_pos (by simpa using he)] at h
        obtain rfl := Option.some.inj h
        rw [List.set_cons_zero, get_cons, get_cons]
        by_cases hx : x = k
        · rw [if_pos hx.symm, if_pos hx]
        · rw [if_neg (Ne.symm hx), if_neg hx, if_neg (by rw [he]; exact Ne.symm hx)]
      · rw [if_neg (by simpa using he)] at h
        obtain ⟨j, hj, rfl⟩ := Option.map_eq_some_iff.1 h
        rw [List.set_cons_succ, get_cons, get_cons, ih hj]
        by_cases hx : x = k
        · rw [if_pos hx, if_pos hx, if_neg (by rw [hx]; exact he)]
        · rw [if_neg hx, if_neg hx]

theorem keys_set {l : List (κ × β)} {k : κ} {i : Nat}
    (h : l.findIdx? (fun e => e.1 == k) = some i) (v : β) :
    (l.set i (k, v)).map Prod.fst = l.map Prod.fst := by
  rw [List.map_set]
  obtain ⟨hi, hkey, -⟩ := List.findIdx?_eq_some_iff_getElem.1 h
  refine List.ext_getElem? fun j => ?_
  rw [List.getElem?_set]
  by_cases hij : i = j
  · subst hij
    have hkey : l[i].1 = k := beq_iff_eq.1 hkey
    rw [if_pos rfl, if_pos (by simpa using hi), List.getElem?_map, List.getElem?_eq_getElem hi,
      Option.map_some, hkey]
  · rw [if_neg hij]

end Assoc
