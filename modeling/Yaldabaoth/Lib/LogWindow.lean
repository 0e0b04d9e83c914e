import Mathlib.Data.List.Basic

/-!
# `Yaldabaoth.Lib.LogWindow`: the end of a log that is kept in memory

A log grows at its end. A window of it is a list of entries with the
position of the first; what lies below is kept elsewhere up to a
position `start`, and whatever was trimmed between `start` and the
window is stood for by one marker in front, in the slot of the last
entry it stands for. `Shows` says so. It survives an append
(`Shows.push`), a trim (`Shows.trim`) and the fold of the whole window
into what is kept elsewhere (`shows_folded`).
-/

set_option autoImplicit false

namespace LogWindow

variable {α : Type} {marks : α → Prop} {start base : Nat} {entries full : List α}

/-- `entries` are those of `full` from position `base` on, except that
the first may be a marker for what is missing since `start`. -/
structure Shows (marks : α → Prop) (start base : Nat) (entries full : List α) : Prop where
  tip : base + entries.length = full.length
  start_le : start ≤ base
  shape : (base = start ∧ entries = full.drop start) ∨
    ∃ marker, marks marker ∧ entries = marker :: full.drop (base + 1)

/-- Nothing is in the window, all is kept elsewhere. -/
theorem shows_folded (marks : α → Prop) (full : List α) :
    Shows marks full.length full.length [] full where
  tip := Nat.add_zero _
  start_le := Nat.le_refl _
  shape := .inl ⟨rfl, (List.drop_length).symm⟩

theorem Shows.base_le (h : Shows marks start base entries full) : base ≤ full.length := by
  have htip := h.tip
  omega

theorem Shows.mono {marks' : α → Prop} (h : Shows marks start base entries full)
    (hmarks : ∀ a, marks a → marks' a) : Shows marks' start base entries full where
  tip := h.tip
  start_le := h.start_le
  shape := by
    rcases h.shape with hwhole | ⟨marker, hmarker, hentries⟩
    · exact .inl hwhole
    · exact .inr ⟨marker, hmarks marker hmarker, hentries⟩

theorem Shows.push (h : Shows marks start base entries full) (a : α) :
    Shows marks start base (entries ++ [a]) (full ++ [a]) where
  tip := by
    have htip := h.tip
    rw [List.length_append, List.length_append, ← htip, Nat.add_assoc]
  start_le := h.start_le
  shape := by
    have hbase := h.base_le
    rcases h.shape with ⟨rfl, hentries⟩ | ⟨marker, hmarker, hentries⟩
    · left
      rw [List.drop_append_of_le_length hbase, ← hentries]
      exact ⟨rfl, rfl⟩
    · right
      have hlt : base + 1 ≤ full.length := by
        have htip := h.tip
        rw [hentries, List.length_cons] at htip
        omega
      refine ⟨marker, hmarker, ?_⟩
      rw [List.drop_append_of_le_length hlt, hentries, List.cons_append]

/-- Behind its first entry a window holds the log as it is. -/
theorem Shows.drop (h : Shows marks start base entries full) {n : Nat} (hn : 0 < n) :
    entries.drop n = full.drop (base + n) := by
  rcases h.shape with ⟨rfl, hentries⟩ | ⟨marker, -, hentries⟩
  · rw [hentries, List.drop_drop]
  · obtain ⟨m, rfl⟩ := Nat.exists_eq_succ_of_ne_zero (Nat.pos_iff_ne_zero.1 hn)
    rw [hentries, Nat.succ_eq_add_one, List.drop_succ_cons, List.drop_drop]
    congr 1
    omega

/-- A trim that drops something puts a marker in the place of the last
entry it dropped. -/
theorem Shows.trim (h : Shows marks start base entries full) {dropped : Nat} (hpos : 0 < dropped)
    (hle : dropped ≤ entries.length) {marker : α} (hmarker : marks marker) :
    Shows marks start (base + dropped - 1) (marker :: entries.drop dropped) full where
  tip := by
    have htip := h.tip
    rw [List.length_cons, List.length_drop]
    omega
  start_le := by
    have hstart := h.start_le
    omega
  shape := by
    right
    refine ⟨marker, hmarker, ?_⟩
    rw [h.drop hpos]
    congr 2
    omega

/-- Each entry of a window is that of the log, or the marker in front. -/
theorem Shows.get (h : Shows marks start base entries full) {i : Nat} {a : α}
    (ha : entries[i]? = some a) : full[base + i]? = some a ∨ i = 0 ∧ marks a := by
  rcases h.shape with ⟨rfl, hentries⟩ | ⟨marker, hmarker, hentries⟩
  · left
    rw [hentries, List.getElem?_drop] at ha
    exact ha
  · cases i with
    | zero =>
        rw [hentries, List.getElem?_cons_zero] at ha
        cases ha
        exact .inr ⟨rfl, hmarker⟩
    | succ i =>
        left
        rw [hentries, List.getElem?_cons_succ, List.getElem?_drop] at ha
        rw [← ha]
        congr 1
        omega

/-- With a marker in front, something was trimmed. -/
def Trimmed (marks : α → Prop) (entries : List α) : Prop := ∃ marker ∈ entries.head?, marks marker

/-- A window that starts above `start` has its marker. -/
theorem Shows.trimmed (h : Shows marks start base entries full) (hbase : start < base) :
    Trimmed marks entries := by
  rcases h.shape with ⟨rfl, -⟩ | ⟨marker, hmarker, hentries⟩
  · exact absurd hbase (Nat.lt_irrefl _)
  · refine ⟨marker, ?_, hmarker⟩
    rw [hentries]
    rfl

end LogWindow
