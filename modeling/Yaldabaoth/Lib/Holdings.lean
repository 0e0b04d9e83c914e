import Mathlib.Data.List.Basic
import Mathlib.Data.List.Nodup
import Mathlib.Data.List.Perm.Basic
import Mathlib.Data.List.Perm.Subperm

/-!
# `Holdings`: items held by the members of a list

Holders stand in a list and every holder has a list of items. `Trades`
is the account of a change of the holders: what is held afterwards and
what was given up are, in some order, what was held before and what
came in. Changes of one holder, new holders and holders that leave have
their accounts, and accounts are added up by `Trades.trans`.
-/

set_option autoImplicit false

namespace Holdings

universe u v w

variable {κ : Type u} {τ : Type v} {held : κ → List τ}

/-- All items that are held. -/
def total (held : κ → List τ) (ks : List κ) : List τ := ks.flatMap held

/-- From the holders `ks` to `ks'` the items `born` come in and the items
`retired` are given up. -/
def Trades (held : κ → List τ) (ks ks' : List κ) (born retired : List τ) : Prop :=
  (total held ks' ++ retired).Perm (total held ks ++ born)

variable {ks ks' ks'' : List κ} {k k' : κ} {i : Nat} {born retired born' retired' : List τ}

/-! ### Single changes -/

theorem Trades.refl (ks : List κ) : Trades held ks ks [] [] := List.Perm.refl _

/-- What is held with one holder put first. -/
theorem total_perm (h : ks[i]? = some k) :
    (total held ks).Perm (held k ++ total held (ks.eraseIdx i)) := by
  obtain ⟨hi, rfl⟩ := List.getElem?_eq_some_iff.1 h
  exact (List.getElem_cons_eraseIdx_perm hi).symm.flatMap_right held

theorem total_set_perm (h : ks[i]? = some k) (k' : κ) :
    (total held (ks.set i k')).Perm (held k' ++ total held (ks.eraseIdx i)) := by
  obtain ⟨hi, -⟩ := List.getElem?_eq_some_iff.1 h
  exact (List.set_perm_cons_eraseIdx hi k').flatMap_right held

/-- The account of a change of one holder is that of all. -/
theorem Trades.set (h : ks[i]? = some k) (hk : (held k' ++ retired).Perm (held k ++ born)) :
    Trades held ks (ks.set i k') born retired := by
  have hmoved : (total held (ks.set i k') ++ retired).Perm
      (total held (ks.eraseIdx i) ++ (held k' ++ retired)) := by
    rw [← List.append_assoc]
    exact ((total_set_perm h k').trans List.perm_append_comm).append_right retired
  have hback : (total held (ks.eraseIdx i) ++ (held k ++ born)).Perm (total held ks ++ born) := by
    rw [← List.append_assoc]
    exact ((List.perm_append_comm.trans (total_perm h).symm)).append_right born
  exact hmoved.trans ((hk.append_left _).trans hback)

/-- A new holder brings what it has. -/
theorem Trades.append (ks : List κ) (k : κ) : Trades held ks (ks ++ [k]) (held k) [] := by
  rw [Trades, total, List.flatMap_append, List.append_nil, List.flatMap_singleton]
  exact List.Perm.refl _

/-- A holder that leaves takes what it has. -/
theorem Trades.erase (h : ks[i]? = some k) : Trades held ks (ks.eraseIdx i) [] (held k) := by
  rw [Trades, List.append_nil]
  exact List.perm_append_comm.trans (total_perm h).symm

/-! ### Accounts in sequence -/

theorem Trades.trans (h : Trades held ks ks' born retired)
    (h' : Trades held ks' ks'' born' retired') :
    Trades held ks ks'' (born ++ born') (retired ++ retired') := by
  have hlast : (total held ks'' ++ (retired ++ retired')).Perm
      (total held ks'' ++ retired' ++ retired) := by
    rw [List.append_assoc]
    exact List.perm_append_comm.append_left _
  have hmiddle : (total held ks' ++ born' ++ retired).Perm
      (total held ks' ++ retired ++ born') := by
    rw [List.append_assoc, List.append_assoc]
    exact List.perm_append_comm.append_left _
  have hfirst := h.append_right born'
  rw [List.append_assoc (total held ks)] at hfirst
  exact hlast.trans ((h'.append_right retired).trans (hmiddle.trans hfirst))

/-- An item that left and came back did not move. -/
theorem Trades.cancel {item : τ} (h : Trades held ks ks' [item] [item]) :
    Trades held ks ks' [] [] := by
  rw [Trades, List.append_nil, List.append_nil]
  exact (List.perm_append_right_iff [item]).1 h

/-! ### What an account implies -/

/-- Keys stay distinct when those that come in are new. -/
theorem Trades.nodup {ι : Type w} (key : τ → ι) (h : Trades held ks ks' born retired)
    (hks : ((total held ks).map key).Nodup) (hborn : (born.map key).Nodup)
    (hnew : ∀ item ∈ born, key item ∉ (total held ks).map key) :
    ((total held ks').map key).Nodup ∧
      ∀ item ∈ retired, key item ∉ (total held ks').map key := by
  have hkeys := List.Perm.map key h
  rw [List.map_append, List.map_append] at hkeys
  have hall : ((total held ks).map key ++ born.map key).Nodup := by
    refine List.nodup_append.2 ⟨hks, hborn, ?_⟩
    rintro old hold new hnewmem rfl
    obtain ⟨item, hitem, rfl⟩ := List.mem_map.1 hnewmem
    exact hnew item hitem hold
  obtain ⟨hnodup, -, hapart⟩ := List.nodup_append.1 (hkeys.nodup_iff.2 hall)
  refine ⟨hnodup, ?_⟩
  intro item hitem hheld
  exact hapart _ hheld _ (List.mem_map_of_mem hitem) rfl

/-! ### Distinct keys -/

section distinct

variable {ι : Type w} {key : τ → ι}

theorem nodup_of_total (h : ((total held ks).map key).Nodup) (hk : k ∈ ks) :
    ((held k).map key).Nodup := by
  rw [total, List.map_flatMap, List.nodup_flatMap] at h
  exact h.1 k hk

/-- Items of two holders have different keys. -/
theorem index_unique (h : ((total held ks).map key).Nodup) {j : Nat} (hi : ks[i]? = some k)
    (hj : ks[j]? = some k') {item item' : τ} (hitem : item ∈ held k) (hitem' : item' ∈ held k')
    (hkey : key item = key item') : i = j := by
  by_contra hne
  have hfirst : (total held ks).Perm (held k ++ total held (ks.eraseIdx i)) := total_perm hi
  have hperm := List.Perm.map key hfirst
  rw [hperm.nodup_iff, List.map_append, List.nodup_append] at h
  have hthere : item' ∈ total held (ks.eraseIdx i) :=
    List.mem_flatMap.2 ⟨k', List.mem_eraseIdx_iff_getElem?.2 ⟨j, Ne.symm hne, hj⟩, hitem'⟩
  exact h.2.2 _ (List.mem_map_of_mem hitem) _ (List.mem_map_of_mem hthere) hkey

end distinct

end Holdings
