import Yaldabaoth.Proofs.Buffer.History

/-!
# `Yaldabaoth.Proofs.Buffer.Undo`: undo beside a program that writes

`Authored.Sound` says what holds of a document and the notes beside it:
the path of the recorded edits fits the text, each group of it does what
its ledger says, and the text of the program is in no ledger. Edits of
the user keep it. An edit of the program keeps it where the shift of the
recorded edits is right (`Authored.Clear`).

The shift is not always right. Each recorded edit has the coordinates of
its own time, and one shift in the coordinates of now is applied to all.
`Authored.undo_takes_agent_text` has a run in which undo deletes what
the program wrote.
-/

set_option autoImplicit false

namespace Yaldabaoth

open Rope Swaps

/-! ### Fresh marks -/

namespace Document.Edit

theorem mem_zipIdx_fresh {text : List Char} {next : Nat} {a : Marked}
    (h : a ∈ text.zipIdx next) : next ≤ a.2 ∧ a.2 < next + text.length := by
  have hmark : a.2 ∈ (text.zipIdx next).map Prod.snd := List.mem_map_of_mem h
  rw [List.zipIdx_map_snd, List.mem_range'_1] at hmark
  exact hmark

theorem nodup_zipIdx (text : List Char) (next : Nat) : (text.zipIdx next).Nodup := by
  refine List.Nodup.of_map Prod.snd ?_
  rw [List.zipIdx_map_snd]
  exact List.nodup_range'

/-- What an edit brings in has the next marks, each of them once. -/
theorem added_fresh (edit : Edit Char) (next : Nat) :
    (edit.marked next).added.Nodup ∧
      ∀ a ∈ (edit.marked next).added, next ≤ a.2 ∧ a.2 < next + (edit.marked next).added.length := by
  have htext (text : List Char) : (text.zipIdx next).Nodup ∧
      ∀ a ∈ text.zipIdx next, next ≤ a.2 ∧ a.2 < next + (text.zipIdx next).length :=
    ⟨nodup_zipIdx text next, fun a ha => by
      rw [List.length_zipIdx]
      exact mem_zipIdx_fresh ha⟩
  cases edit with
  | insertChar line col ch => exact ⟨List.nodup_singleton _, by simp [marked, added]⟩
  | insertStr line col text => exact htext text
  | insertStrAtChar charIdx text => exact htext text
  | insertStrAtCharNoUndo charIdx text => exact htext text
  | replaceLineText line newText => exact htext newText
  | _ => exact ⟨List.nodup_nil, nofun⟩

end Document.Edit

namespace Authored

/-! ### The invariant -/

/-- The groups that undo goes back through; first the open one. -/
def undoGroups (s : Authored) : List (List (Swap Marked)) :=
  (s.doc.pendingUndo.toList ++ s.doc.undoStack).map (UndoEntry.swaps .undo)

def redoGroups (s : Authored) : List (List (Swap Marked)) :=
  s.doc.redoStack.map (UndoEntry.swaps .redo)

def undoLedgers (s : Authored) : List (Ledger Marked) :=
  if s.doc.undoGroupOpen then s.pending :: s.undos else s.undos

/-- Every ledger that is kept. -/
def ledgers (s : Authored) : List (Ledger Marked) := s.pending :: s.undos ++ s.redos

structure Sound (s : Authored) : Prop where
  nodup : s.doc.rope.Nodup
  known : ∀ a ∈ s.doc.rope, a.2 < s.next
  ledgers_known : ∀ L ∈ s.ledgers, ∀ a ∈ L.inserted ++ L.removed, a.2 < s.next
  agent_known : ∀ a ∈ s.agent, a.2 < s.next
  bounded : ∀ entry ∈ s.doc.pendingUndo.toList ++ s.doc.undoStack ++ s.doc.redoStack, entry.Bounded
  backward : Rewinds Backward s.undoGroups s.undoLedgers s.doc.rope
  forward : Rewinds Forward s.redoGroups s.redos s.doc.rope
  agent_kept : s.AgentTextKept
  agent_spared : ∀ L ∈ s.ledgers, ∀ a ∈ s.agent, a ∉ L.inserted
  removed_deleted : ∀ L ∈ s.ledgers, ∀ a ∈ L.removed, a ∈ s.deleted

theorem undoPath_eq (s : Authored) : s.undoPath = s.undoGroups.flatten := List.flatMap_def ..

theorem redoPath_eq (s : Authored) : s.redoPath = s.redoGroups.flatten := List.flatMap_def ..

theorem dropCrs_sublist (text : List Marked) : (dropCrs text).Sublist text := by
  induction text using dropCrs.induct with
  | case1 a b rest hcr ih =>
      rw [dropCrs, if_pos hcr]
      exact ih.cons a
  | case2 a b rest hcr ih =>
      rw [dropCrs, if_neg hcr]
      exact ih.cons_cons a
  | case3 text hshort =>
      rw [dropCrs]
      exact hshort

theorem sound_opening (text : List Char) (filePath : String) : (opening text filePath).Sound := by
  have hsub : (opening text filePath).doc.rope.Sublist (text.zipIdx 0) := by
    show (normalizeLineEndings (text.zipIdx 0)).1.Sublist _
    unfold normalizeLineEndings
    split
    · exact dropCrs_sublist _
    · exact List.Sublist.refl _
  refine {
    nodup := hsub.nodup (Document.Edit.nodup_zipIdx text 0)
    known := ?_
    ledgers_known := ?_
    agent_known := nofun
    bounded := nofun
    backward := trivial
    forward := trivial
    agent_kept := nofun
    agent_spared := fun _ _ => nofun
    removed_deleted := ?_ }
  · intro a ha
    have := (Document.Edit.mem_zipIdx_fresh (hsub.subset ha)).2
    rwa [Nat.zero_add] at this
  · intro L hL
    obtain rfl := List.mem_singleton.1 hL
    nofun
  · intro L hL
    obtain rfl := List.mem_singleton.1 hL
    nofun

/-! ### Edits of the user -/

/-- The notes after an edit of the user. -/
def typedNotes (s : Authored) (doc : Document Marked) (added : List Marked) : Authored :=
  let gone := s.doc.rope.filter fun a => decide (a ∉ doc.rope)
  { s with
      doc
      next := s.next + added.length
      typed := s.typed ++ added
      deleted := s.deleted ++ gone
      pending := {
        inserted := s.pending.inserted ++ added
        removed := s.pending.removed ++ gone.filter fun a => decide (a ∉ s.pending.inserted) }
      redos := if doc.redoStack.isEmpty then [] else s.redos }

theorem mem_gone {s : Authored} {doc : Document Marked} (a : Marked) :
    (a ∈ s.doc.rope.filter fun a => decide (a ∉ doc.rope)) ↔ a ∈ s.doc.rope ∧ a ∉ doc.rope := by
  simp

theorem undoGroupOpen_iff {s : Authored} :
    s.doc.undoGroupOpen = true ↔ ∃ entry, s.doc.pendingUndo = some entry := by
  rw [Document.undoGroupOpen, Option.isSome_iff_exists]

theorem pendingUndo_none {s : Authored} (hclosed : s.doc.undoGroupOpen = false) :
    s.doc.pendingUndo = none :=
  Option.isNone_iff_eq_none.1 (Option.isSome_eq_false_iff.1 hclosed)

/-- An edit of the user goes to the ledger of the open group. -/
theorem Sound.edited {s : Authored} (h : s.Sound) {doc : Document Marked}
    {removed added : List Marked} (hopen : s.doc.undoGroupOpen = true)
    (hedited : s.doc.Edited doc removed added) (hadded : added.Nodup)
    (hfresh : ∀ a ∈ added, s.next ≤ a.2 ∧ a.2 < s.next + added.length) :
    (s.typedNotes doc added).Sound := by
  obtain ⟨before, after, hold, hnew, hpending, hundo, hredo⟩ := hedited
  obtain ⟨entry, hentry⟩ := undoGroupOpen_iff.1 hopen
  rw [hentry] at hpending
  have hsource : ∀ a ∈ doc.rope, a ∈ s.doc.rope ∨ a ∈ added := by
    intro a ha
    rw [hnew] at ha
    rw [hold]
    simp only [List.mem_append] at ha ⊢
    tauto
  have hnodup : doc.rope.Nodup := by
    have hperm : (before ++ added ++ after).Perm (added ++ (before ++ after)) := by
      rw [List.append_assoc]
      exact List.perm_append_comm_assoc _ _ _
    have hrest : (before ++ after).Sublist s.doc.rope := by
      rw [hold]
      exact (List.sublist_append_left _ _).append (List.Sublist.refl _)
    rw [hnew, hperm.nodup_iff]
    refine hadded.append (hrest.nodup h.nodup) fun a ha hmem => ?_
    have := h.known a (hrest.subset hmem)
    have := hfresh a ha
    omega
  have hgroups : (s.typedNotes doc added).undoGroups
      = (entry.record before.length removed added).swaps .undo ::
        s.doc.undoStack.map (UndoEntry.swaps .undo) := by
    show (doc.pendingUndo.toList ++ doc.undoStack).map _ = _
    rw [hpending, hundo]
    rfl
  have hledgers : (s.typedNotes doc added).undoLedgers
      = (s.typedNotes doc added).pending :: s.undos := by
    show (if doc.pendingUndo.isSome then _ else _) = _
    rw [hpending]
    rfl
  have hback := h.backward
  rw [undoGroups, undoLedgers, if_pos hopen, hentry] at hback
  obtain ⟨hwalks, hnet, hrest⟩ := hback
  have hcons : (s.typedNotes doc added).ledgers = (s.typedNotes doc added).pending :: s.undos := by
    show _ :: s.undos ++ (if doc.redoStack.isEmpty then [] else s.redos) = _
    rw [hredo]
    simp
  have hpast : ∀ L ∈ s.undos, L ∈ s.ledgers := fun L hL =>
    List.mem_append_left _ (List.mem_cons_of_mem _ hL)
  have hhead : s.pending ∈ s.ledgers := List.mem_append_left _ List.mem_cons_self
  -- The way back from the new text leads over the old one.
  have hfits : (⟨before.length, added, removed⟩ : Swap Marked).Fits doc.rope :=
    ⟨before, after, hnew, rfl⟩
  have hto : (⟨before.length, added, removed⟩ : Swap Marked).apply doc.rope = s.doc.rope := by
    rw [hnew, hold]
    exact Swap.apply_of_parts (⟨before.length, added, removed⟩ : Swap Marked) rfl
  obtain ⟨hwalks', hwalk'⟩ := record_walks hwalks hfits hto
  refine {
    nodup := hnodup
    known := ?_
    ledgers_known := ?_
    agent_known := fun a ha => Nat.lt_of_lt_of_le (h.agent_known a ha) (Nat.le_add_right _ _)
    bounded := ?_
    backward := ?_
    forward := ?_
    agent_kept := ?_
    agent_spared := ?_
    removed_deleted := ?_ }
  · intro a ha
    show a.2 < s.next + added.length
    rcases hsource a ha with ha | ha
    · have := h.known a ha
      omega
    · exact (hfresh a ha).2
  · intro L hL a ha
    show a.2 < s.next + added.length
    rw [hcons] at hL
    rcases List.mem_cons.1 hL with rfl | hL
    · have hknown := h.ledgers_known _ hhead a
      simp only [typedNotes, List.mem_append, List.mem_filter] at ha hknown
      rcases ha with (ha | ha) | ha | ha
      · have := hknown (.inl ha)
        omega
      · exact (hfresh a ha).2
      · have := hknown (.inr ha)
        omega
      · have := h.known a ha.1.1
        omega
    · have := h.ledgers_known L (hpast L hL) a ha
      omega
  · intro other hother
    change other ∈ doc.pendingUndo.toList ++ doc.undoStack ++ doc.redoStack at hother
    rw [hpending, hundo, hredo, List.append_nil] at hother
    rcases List.mem_append.1 hother with hother | hother
    · obtain rfl := List.mem_singleton.1 hother
      refine UndoEntry.Bounded.record (h.bounded entry ?_) _ _ _
      simp [hentry]
    · exact h.bounded other (List.mem_append_left _ (List.mem_append_right _ hother))
  · rw [hgroups, hledgers]
    refine ⟨hwalks', ?_, ?_⟩
    · show Ledger.Net _ (walk _ doc.rope) doc.rope
      rw [hwalk']
      refine Ledger.Net.edit hnet hnodup hsource ?_ mem_gone (fun a => by simp)
      intro a ha hmem
      rcases (hnet.mem a).1 hmem with ⟨hmem, -⟩ | hmem
      · have := h.known a hmem
        have := hfresh a ha
        omega
      · have := h.ledgers_known _ hhead a (List.mem_append_right _ hmem)
        have := hfresh a ha
        omega
    · show Rewinds Backward _ _ (walk _ doc.rope)
      rw [hwalk']
      exact hrest
  · show Rewinds Forward (doc.redoStack.map _) (if doc.redoStack.isEmpty then [] else s.redos) _
    rw [hredo]
    trivial
  · intro a ha hkept
    have hkept : a ∉ s.deleted ∧ a ∉ s.doc.rope.filter fun a => decide (a ∉ doc.rope) := by
      rw [← not_or, ← List.mem_append]
      exact hkept
    rw [mem_gone] at hkept
    have := h.agent_kept a ha hkept.1
    show a ∈ doc.rope
    tauto
  · intro L hL a ha
    rw [hcons] at hL
    rcases List.mem_cons.1 hL with rfl | hL
    · intro hmem
      rcases List.mem_append.1 hmem with hmem | hmem
      · exact h.agent_spared _ hhead a ha hmem
      · have := h.agent_known a ha
        have := hfresh a hmem
        omega
    · exact h.agent_spared L (hpast L hL) a ha
  · intro L hL a ha
    show a ∈ s.deleted ++ _
    rw [hcons] at hL
    rcases List.mem_cons.1 hL with rfl | hL
    · rcases List.mem_append.1 ha with ha | ha
      · exact List.mem_append_left _ (h.removed_deleted _ hhead a ha)
      · exact List.mem_append_right _ (List.mem_filter.1 ha).1
    · exact List.mem_append_left _ (h.removed_deleted L (hpast L hL) a ha)

/-! ### Edits of the program -/

/-- The groups of a document whose recorded edits were moved. -/
theorem groups_shift {entries : List (UndoEntry Marked)} (h : ∀ entry ∈ entries, entry.Bounded)
    (pos : Nat) (drift : Drift) (dir : HistoryDir) :
    (entries.map fun entry => entry.shift pos drift).map (UndoEntry.swaps dir)
      = (entries.map (UndoEntry.swaps dir)).map (List.map (Swap.moved (drift.remap pos))) := by
  rw [List.map_map, List.map_map]
  exact List.map_congr_left fun entry hentry => swaps_shift (h entry hentry) pos drift dir

/-- A document whose text the program changed: the recorded edits were
moved. -/
structure Shifted (d d' : Document Marked) (pos : Nat) (drift : Drift) : Prop where
  pending : d'.pendingUndo = d.pendingUndo.map fun entry => entry.shift pos drift
  undo : d'.undoStack = d.undoStack.map fun entry => entry.shift pos drift
  redo : d'.redoStack = d.redoStack.map fun entry => entry.shift pos drift

section shifted

variable {s s' : Authored} {pos : Nat} {drift : Drift}

theorem Shifted.undoGroups (hshift : Shifted s.doc s'.doc pos drift) (h : s.Sound) :
    s'.undoGroups = s.undoGroups.map (List.map (Swap.moved (drift.remap pos))) := by
  have hbounded : ∀ entry ∈ s.doc.pendingUndo.toList ++ s.doc.undoStack, entry.Bounded :=
    fun entry hentry => h.bounded entry (List.mem_append_left _ hentry)
  have hentries : s'.doc.pendingUndo.toList ++ s'.doc.undoStack
      = (s.doc.pendingUndo.toList ++ s.doc.undoStack).map fun entry => entry.shift pos drift := by
    rw [hshift.pending, hshift.undo, Option.toList_map, List.map_append]
  rw [Authored.undoGroups, hentries]
  exact groups_shift hbounded pos drift .undo

theorem Shifted.redoGroups (hshift : Shifted s.doc s'.doc pos drift) (h : s.Sound) :
    s'.redoGroups = s.redoGroups.map (List.map (Swap.moved (drift.remap pos))) := by
  have hbounded : ∀ entry ∈ s.doc.redoStack, entry.Bounded :=
    fun entry hentry => h.bounded entry (List.mem_append_right _ hentry)
  rw [Authored.redoGroups, hshift.redo]
  exact groups_shift hbounded pos drift .redo

theorem Shifted.undoLedgers (hshift : Shifted s.doc s'.doc pos drift)
    (hpending : s'.pending = s.pending) (hundos : s'.undos = s.undos) :
    s'.undoLedgers = s.undoLedgers := by
  rw [Authored.undoLedgers, Authored.undoLedgers, Document.undoGroupOpen, hshift.pending,
    Option.isSome_map, hpending, hundos]
  rfl

theorem Shifted.bounded (hshift : Shifted s.doc s'.doc pos drift) (h : s.Sound) :
    ∀ entry ∈ s'.doc.pendingUndo.toList ++ s'.doc.undoStack ++ s'.doc.redoStack,
      entry.Bounded := by
  have hentries : s'.doc.pendingUndo.toList ++ s'.doc.undoStack ++ s'.doc.redoStack
      = (s.doc.pendingUndo.toList ++ s.doc.undoStack ++ s.doc.redoStack).map
        fun entry => entry.shift pos drift := by
    rw [hshift.pending, hshift.undo, hshift.redo, Option.toList_map, List.map_append,
      List.map_append]
  rw [hentries]
  intro entry hentry
  obtain ⟨old, hold, rfl⟩ := List.mem_map.1 hentry
  exact (h.bounded old hold).shift pos drift

end shifted

theorem mem_ledgers_undoLedgers {s : Authored} : ∀ L ∈ s.undoLedgers, L ∈ s.ledgers := by
  intro L hL
  unfold undoLedgers at hL
  split at hL
  · exact List.mem_append_left _ hL
  · exact List.mem_append_left _ (List.mem_cons_of_mem _ hL)

/-- The program puts text in. -/
theorem Sound.agentInsert {s : Authored} (h : s.Sound) (charIdx : Nat) {added : List Marked}
    (hadded : added.Nodup) (hfresh : ∀ a ∈ added, s.next ≤ a.2 ∧ a.2 < s.next + added.length)
    (hundo : (carry (min charIdx s.doc.rope.length) s.undoPath
      (min charIdx s.doc.rope.length)).isSome = true)
    (hredo : (carry (min charIdx s.doc.rope.length) s.redoPath
      (min charIdx s.doc.rope.length)).isSome = true) :
    Sound { s with
      doc := s.doc.insertStrAtCharNoUndo charIdx added
      next := s.next + added.length
      agent := s.agent ++ added } := by
  generalize hidx : min charIdx s.doc.rope.length = idx at hundo hredo
  have hle : idx ≤ s.doc.rope.length := hidx ▸ Nat.min_le_right _ _
  generalize hdoc : s.doc.insertStrAtCharNoUndo charIdx added = doc
  have hrope : doc.rope = Swaps.insertAt s.doc.rope idx added := by
    rw [← hdoc, ← hidx]
    rfl
  have hshift : Shifted s.doc doc idx (.inserted added.length) := by
    rw [← hdoc, ← hidx]
    exact ⟨rfl, rfl, rfl⟩
  have hnew : ∀ a ∈ added, ¬ a.2 < s.next := fun a ha => by
    have := hfresh a ha
    omega
  generalize hs' : ({ s with
    doc, next := s.next + added.length, agent := s.agent ++ added } : Authored) = s'
  have hshift : Shifted s.doc s'.doc idx (.inserted added.length) := by
    rw [← hs']
    exact hshift
  have hledgers : s'.ledgers = s.ledgers := by rw [← hs']; rfl
  have hnext : s'.next = s.next + added.length := by rw [← hs']
  have hrope' : s'.doc.rope = Swaps.insertAt s.doc.rope idx added := by rw [← hs', hrope]
  have hagent : s'.agent = s.agent ++ added := by rw [← hs']
  refine {
    nodup := ?_
    known := ?_
    ledgers_known := ?_
    agent_known := ?_
    bounded := hshift.bounded h
    backward := ?_
    forward := ?_
    agent_kept := ?_
    agent_spared := ?_
    removed_deleted := ?_ }
  · rw [hrope']
    exact nodup_insertAt h.nodup hadded fun a ha hmem => hnew a ha (h.known a hmem)
  · intro a ha
    rw [hrope', mem_insertAt] at ha
    rw [hnext]
    rcases ha with ha | ha
    · have := h.known a ha
      omega
    · exact (hfresh a ha).2
  · intro L hL a ha
    rw [hledgers] at hL
    have := h.ledgers_known L hL a ha
    omega
  · intro a ha
    rw [hagent] at ha
    rw [hnext]
    rcases List.mem_append.1 ha with ha | ha
    · have := h.agent_known a ha
      omega
    · exact (hfresh a ha).2
  · obtain ⟨pos', hcarry⟩ := Option.isSome_iff_exists.1 hundo
    rw [undoPath_eq] at hcarry
    rw [hshift.undoGroups h, hshift.undoLedgers (by rw [← hs']) (by rw [← hs']), hrope',
      remap_inserted]
    refine h.backward.insertAt (fun a => a.2 < s.next) ?_ h.known hle hcarry
    intro L hL t t' p p' ht hnet
    exact hnet.insertAt ht (h.ledgers_known L (mem_ledgers_undoLedgers L hL)) hadded hnew p p'
  · obtain ⟨pos', hcarry⟩ := Option.isSome_iff_exists.1 hredo
    rw [redoPath_eq] at hcarry
    have hredos : s'.redos = s.redos := by rw [← hs']
    rw [hshift.redoGroups h, hredos, hrope', remap_inserted]
    refine h.forward.insertAt (fun a => a.2 < s.next) ?_ h.known hle hcarry
    intro L hL t t' p p' ht hnet
    exact hnet.insertAt ht (h.ledgers_known L (List.mem_append_right _ hL)) hadded hnew p p'
  · intro a ha hkept
    rw [hrope', mem_insertAt]
    rw [hagent] at ha
    rcases List.mem_append.1 ha with ha | ha
    · exact .inl (h.agent_kept a ha (by rw [← hs'] at hkept; exact hkept))
    · exact .inr ha
  · intro L hL a ha hmem
    rw [hledgers] at hL
    rw [hagent] at ha
    rcases List.mem_append.1 ha with ha | ha
    · exact h.agent_spared L hL a ha hmem
    · exact hnew a ha (h.ledgers_known L hL a (List.mem_append_left _ hmem))
  · intro L hL a ha
    rw [hledgers] at hL
    have := h.removed_deleted L hL a ha
    rw [← hs']
    exact this

/-- Without a stretch of it, a text is what is not in the stretch. -/
theorem remove_eq_filter {text : List Marked} (h : text.Nodup) (first last : Nat)
    (hle : first ≤ last) :
    Rope.remove text first last
      = text.filter fun a => decide (a ∉ slice text first last) := by
  have hsplit : text = text.take first ++ slice text first last ++ text.drop last := by
    have htake : text.take last = text.take first ++ slice text first last := by
      conv_lhs => rw [← List.take_append_drop first (text.take last)]
      rw [List.take_take, Nat.min_eq_left hle]
      rfl
    rw [← htake, List.take_append_drop]
  generalize slice text first last = gone at hsplit
  rw [Rope.remove]
  generalize text.take first = before at hsplit
  generalize text.drop last = after at hsplit
  subst hsplit
  have hdisjoint := h
  rw [List.append_assoc, List.nodup_append] at hdisjoint
  obtain ⟨-, hrest, hbefore⟩ := hdisjoint
  obtain ⟨-, -, hafter⟩ := List.nodup_append.1 hrest
  have hb : before.filter (fun a => decide (a ∉ gone)) = before :=
    List.filter_eq_self.2 fun a ha =>
      decide_eq_true fun hmem => hbefore a ha a (List.mem_append_left _ hmem) rfl
  have hg : gone.filter (fun a => decide (a ∉ gone)) = [] :=
    List.filter_eq_nil_iff.2 fun a ha => by simp [ha]
  have ha : after.filter (fun a => decide (a ∉ gone)) = after :=
    List.filter_eq_self.2 fun a ha => decide_eq_true fun hmem => hafter a hmem a ha rfl
  rw [List.filter_append, List.filter_append, hb, hg, ha, List.append_nil]

/-- The program takes text away. -/
theorem Sound.agentDelete {s : Authored} (h : s.Sound) {startChar endChar : Nat}
    (hclear : s.Clear (.deleteRangeNoUndo startChar endChar)) :
    Sound { s with
      doc := s.doc.deleteRangeNoUndo startChar endChar
      deleted := s.deleted ++ s.doc.rope.filter fun a =>
        decide (a ∉ (s.doc.deleteRangeNoUndo startChar endChar).rope) } := by
  obtain ⟨hundo, hredo⟩ := hclear
  generalize hfirst : min startChar s.doc.rope.length = first at hundo hredo
  generalize hlast : min endChar s.doc.rope.length = last at hundo hredo
  by_cases hlt : first < last
  swap
  · -- Nothing to delete.
    have hsame : s.doc.deleteRangeNoUndo startChar endChar = s.doc := by
      rw [Document.deleteRangeNoUndo]
      simp only [hfirst, hlast, hlt, if_false]
    rw [hsame]
    exact { h with
      agent_kept := fun a ha hkept => h.agent_kept a ha fun hmem =>
        hkept (List.mem_append_left _ hmem)
      removed_deleted := fun L hL a ha => List.mem_append_left _ (h.removed_deleted L hL a ha) }
  have hdoc : (s.doc.deleteRangeNoUndo startChar endChar).rope = Rope.remove s.doc.rope first last ∧
      Shifted s.doc (s.doc.deleteRangeNoUndo startChar endChar) first (.deleted (last - first)) := by
    rw [Document.deleteRangeNoUndo]
    simp only [hfirst, hlast, hlt, if_true]
    exact ⟨rfl, rfl, rfl, rfl⟩
  generalize s.doc.deleteRangeNoUndo startChar endChar = doc at hdoc
  obtain ⟨hrope, hshift⟩ := hdoc
  rw [remove_eq_filter h.nodup first last (Nat.le_of_lt hlt)] at hrope
  generalize hgone : slice s.doc.rope first last = gone at hundo hredo hrope
  generalize hs' : ({ s with
    doc, deleted := s.deleted ++ s.doc.rope.filter fun a => decide (a ∉ doc.rope) } : Authored) = s'
  have hshift : Shifted s.doc s'.doc first (.deleted (last - first)) := by
    rw [← hs']
    exact hshift
  have hledgers : s'.ledgers = s.ledgers := by rw [← hs']; rfl
  have hnext : s'.next = s.next := by rw [← hs']
  have hrope' : s'.doc.rope = s.doc.rope.filter fun a => decide (a ∉ gone) := by
    rw [← hs']
    exact hrope
  have hagent : s'.agent = s.agent := by rw [← hs']
  have hredos : s'.redos = s.redos := by rw [← hs']
  have hdeleted : ∀ a, a ∈ s'.deleted ↔ a ∈ s.deleted ∨ (a ∈ s.doc.rope ∧ a ∉ s'.doc.rope) := by
    intro a
    rw [← hs']
    simp
  refine {
    nodup := by rw [hrope']; exact h.nodup.filter _
    known := ?_
    ledgers_known := by rw [hledgers, hnext]; exact h.ledgers_known
    agent_known := by rw [hagent, hnext]; exact h.agent_known
    bounded := hshift.bounded h
    backward := ?_
    forward := ?_
    agent_kept := ?_
    agent_spared := by rw [hledgers, hagent]; exact h.agent_spared
    removed_deleted := ?_ }
  · intro a ha
    rw [hrope'] at ha
    rw [hnext]
    exact h.known a (List.mem_filter.1 ha).1
  · rw [undoPath_eq] at hundo
    rw [hshift.undoGroups h, hshift.undoLedgers (by rw [← hs']) (by rw [← hs']), hrope']
    refine h.backward.filter (fun L t t' hnet hsame => ?_) hundo
    exact Ledger.Net.spared hnet fun a ha => (hsame a ha).symm
  · rw [redoPath_eq] at hredo
    rw [hshift.redoGroups h, hredos, hrope']
    refine h.forward.filter (fun L t t' hnet hsame => ?_) hredo
    exact Ledger.Net.spared hnet hsame
  · intro a ha hkept
    rw [hagent] at ha
    rw [hdeleted] at hkept
    have := h.agent_kept a ha
    tauto
  · intro L hL a ha
    rw [hledgers] at hL
    rw [hdeleted]
    exact .inl (h.removed_deleted L hL a ha)

/-! ### Groups and steps through the history -/

/-- A change of the document and the notes that leaves text and marks. -/
structure SameText (s s' : Authored) : Prop where
  rope : s'.doc.rope = s.doc.rope
  next : s'.next = s.next
  agent : s'.agent = s.agent
  deleted : s'.deleted = s.deleted

theorem Sound.sameText {s s' : Authored} (h : s.Sound) (hsame : s.SameText s')
    (hledgers : ∀ L ∈ s'.ledgers, L ∈ s.ledgers ∨ L = ⟨[], []⟩)
    (hbounded : ∀ entry ∈ s'.doc.pendingUndo.toList ++ s'.doc.undoStack ++ s'.doc.redoStack,
      entry.Bounded)
    (hbackward : Rewinds Backward s'.undoGroups s'.undoLedgers s.doc.rope)
    (hforward : Rewinds Forward s'.redoGroups s'.redos s.doc.rope) : s'.Sound where
  nodup := by rw [hsame.rope]; exact h.nodup
  known := by rw [hsame.rope, hsame.next]; exact h.known
  ledgers_known L hL a ha := by
    rw [hsame.next]
    rcases hledgers L hL with hL | rfl
    · exact h.ledgers_known L hL a ha
    · cases ha
  agent_known := by rw [hsame.agent, hsame.next]; exact h.agent_known
  bounded := hbounded
  backward := by rw [hsame.rope]; exact hbackward
  forward := by rw [hsame.rope]; exact hforward
  agent_kept a ha hkept := by
    rw [hsame.rope]
    rw [hsame.agent] at ha
    rw [hsame.deleted] at hkept
    exact h.agent_kept a ha hkept
  agent_spared L hL a ha := by
    rw [hsame.agent] at ha
    rcases hledgers L hL with hL | rfl
    · exact h.agent_spared L hL a ha
    · exact List.not_mem_nil
  removed_deleted L hL a ha := by
    rw [hsame.deleted]
    rcases hledgers L hL with hL | rfl
    · exact h.removed_deleted L hL a ha
    · cases ha

theorem Sound.beginGroup {s : Authored} (h : s.Sound) (cursorLine cursorCol : Nat)
    (hclosed : s.doc.pendingUndo = none) :
    Sound { s with
      doc := (s.doc.beginUndoGroup cursorLine cursorCol).1
      pending := ⟨[], []⟩ } := by
  have hdoc : (s.doc.beginUndoGroup cursorLine cursorCol).1
      = { s.doc with pendingUndo := some ⟨[], (cursorLine, cursorCol), (0, 0), 0⟩ } := by
    rw [Document.beginUndoGroup, hclosed]
  have hback := h.backward
  rw [undoGroups, undoLedgers, Document.undoGroupOpen, hclosed] at hback
  rw [hdoc]
  refine h.sameText ⟨rfl, rfl, rfl, rfl⟩ ?_ ?_ ?_ h.forward
  · intro L hL
    rcases List.mem_append.1 hL with hL | hL
    · rcases List.mem_cons.1 hL with rfl | hL
      · exact .inr rfl
      · exact .inl (List.mem_append_left _ (List.mem_cons_of_mem _ hL))
    · exact .inl (List.mem_append_right _ hL)
  · intro entry hentry
    rcases List.mem_append.1 hentry with hentry | hentry
    · rcases List.mem_cons.1 hentry with rfl | hentry
      · nofun
      · exact h.bounded entry (List.mem_append_left _ (List.mem_append_right _ hentry))
    · exact h.bounded entry (List.mem_append_right _ hentry)
  · exact ⟨trivial, Ledger.Net.start h.nodup, hback⟩

/-- A group that is left without an edit is forgotten. -/
theorem Sound.dropGroup {s : Authored} (h : s.Sound) {entry : UndoEntry Marked}
    (hentry : s.doc.pendingUndo = some entry) (hempty : entry.splices = []) :
    Sound { s with doc := { s.doc with pendingUndo := none } } := by
  have hback := h.backward
  rw [undoGroups, undoLedgers, Document.undoGroupOpen, hentry] at hback
  obtain ⟨-, -, hrest⟩ := hback
  have hnone : entry.swaps .undo = [] := by simp [UndoEntry.swaps, UndoEntry.ordered, hempty]
  rw [hnone] at hrest
  refine h.sameText ⟨rfl, rfl, rfl, rfl⟩ (fun L hL => .inl hL) ?_ hrest h.forward
  intro other hother
  rcases List.mem_append.1 hother with hother | hother
  · exact h.bounded other (List.mem_append_left _ (List.mem_append_right _ hother))
  · exact h.bounded other (List.mem_append_right _ hother)

theorem Sound.endGroup {s : Authored} (h : s.Sound) (cursorAfter : Nat × Nat)
    {entry : UndoEntry Marked} (hentry : s.doc.pendingUndo = some entry) :
    Sound { s with
      doc := ({ s.doc with pendingUndo := none } : Document Marked).pushUndo
        { entry with cursorAfter }
      undos := (s.pending :: s.undos).take undoCap } := by
  have hback := h.backward
  rw [undoGroups, undoLedgers, Document.undoGroupOpen, hentry] at hback
  obtain ⟨hstack, hrope, hpending, hredo⟩ :=
    ({ s.doc with pendingUndo := none } : Document Marked).pushUndo_fields { entry with cursorAfter }
  generalize Document.pushUndo _ _ = pushed at hstack hrope hpending hredo
  refine h.sameText ⟨hrope, rfl, rfl, rfl⟩ ?_ ?_ ?_ ?_
  · intro L hL
    left
    rcases List.mem_append.1 hL with hL | hL
    · rcases List.mem_cons.1 hL with rfl | hL
      · exact List.mem_append_left _ List.mem_cons_self
      · exact List.mem_append_left _ (List.mem_of_mem_take hL)
    · exact List.mem_append_right _ hL
  · intro other hother
    change other ∈ pushed.pendingUndo.toList ++ pushed.undoStack ++ pushed.redoStack at hother
    rw [hstack, hpending, hredo] at hother
    rcases List.mem_append.1 hother with hother | hother
    · rcases List.mem_cons.1 (List.mem_of_mem_take hother) with rfl | hother
      · exact h.bounded entry (by simp [hentry])
      · exact h.bounded other (List.mem_append_left _ (List.mem_append_right _ hother))
    · exact h.bounded other (List.mem_append_right _ hother)
  · have hgroups : ((pushed.pendingUndo.toList ++ pushed.undoStack).map (UndoEntry.swaps .undo))
        = (entry.swaps .undo :: s.doc.undoStack.map (UndoEntry.swaps .undo)).take undoCap := by
      rw [hpending, hstack]
      exact List.map_take ..
    show Rewinds Backward (List.map _ (pushed.pendingUndo.toList ++ pushed.undoStack))
      (if pushed.pendingUndo.isSome then _ else _) _
    rw [hgroups, hpending]
    exact Rewinds.take hback undoCap
  · show Rewinds Forward (pushed.redoStack.map _) _ _
    rw [hredo]
    exact h.forward

/-- What a step through the history leads to is known, and so are its
ledgers. -/
theorem Sound.moved {s s' : Authored} (h : s.Sound) {L : Ledger Marked} (hL : L ∈ s.ledgers)
    (hnext : s'.next = s.next) (hagent : s'.agent = s.agent) (hdeleted : s'.deleted = s.deleted)
    (hnodup : s'.doc.rope.Nodup)
    (hcome : ∀ a ∈ s'.doc.rope, a ∈ s.doc.rope ∨ a ∈ L.inserted ++ L.removed)
    (hgo : ∀ a ∈ s.doc.rope, a ∈ s'.doc.rope ∨ a ∈ L.inserted ++ L.removed)
    (hledgers : ∀ M ∈ s'.ledgers, M ∈ s.ledgers)
    (hbounded : ∀ entry ∈ s'.doc.pendingUndo.toList ++ s'.doc.undoStack ++ s'.doc.redoStack,
      entry.Bounded)
    (hbackward : Rewinds Backward s'.undoGroups s'.undoLedgers s'.doc.rope)
    (hforward : Rewinds Forward s'.redoGroups s'.redos s'.doc.rope) : s'.Sound where
  nodup := hnodup
  known a ha := by
    rw [hnext]
    rcases hcome a ha with ha | ha
    · exact h.known a ha
    · exact h.ledgers_known L hL a ha
  ledgers_known M hM a ha := by
    rw [hnext]
    exact h.ledgers_known M (hledgers M hM) a ha
  agent_known := by rw [hagent, hnext]; exact h.agent_known
  bounded := hbounded
  backward := hbackward
  forward := hforward
  agent_kept a ha hkept := by
    rw [hagent] at ha
    rw [hdeleted] at hkept
    -- What goes was typed by the user or deleted.
    rcases hgo a (h.agent_kept a ha hkept) with hmem | hmem
    · exact hmem
    · rcases List.mem_append.1 hmem with hmem | hmem
      · exact absurd hmem (h.agent_spared L hL a ha)
      · exact absurd (h.removed_deleted L hL a hmem) hkept
  agent_spared M hM a ha := by
    rw [hagent] at ha
    exact h.agent_spared M (hledgers M hM) a ha
  removed_deleted M hM a ha := by
    rw [hdeleted]
    exact h.removed_deleted M (hledgers M hM) a ha

theorem net_come {L : Ledger Marked} {before after : List Marked} (h : L.Net before after) :
    ∀ a ∈ before, a ∈ after ∨ a ∈ L.inserted ++ L.removed := by
  intro a ha
  rcases (h.mem a).1 ha with ⟨ha, -⟩ | ha
  · exact .inl ha
  · exact .inr (List.mem_append_right _ ha)

theorem net_go {L : Ledger Marked} {before after : List Marked} (h : L.Net before after) :
    ∀ a ∈ after, a ∈ before ∨ a ∈ L.inserted ++ L.removed := by
  intro a ha
  by_cases hin : a ∈ L.inserted
  · exact .inr (List.mem_append_left _ hin)
  · exact .inl ((h.mem a).2 (.inl ⟨ha, hin⟩))

theorem Bounded_congr {entry mirror : UndoEntry Marked} (h : mirror.splices = entry.splices)
    (hhi : mirror.hi = entry.hi) (hentry : entry.Bounded) : mirror.Bounded := by
  intro sp hsp
  rw [hhi]
  exact hentry sp (h ▸ hsp)

/-- A step back takes its group from the one path to the other. -/
theorem Sound.undo {s : Authored} (h : s.Sound) (hclosed : s.doc.undoGroupOpen = false)
    {L : Ledger Marked} {rest : List (Ledger Marked)} (hundos : s.undos = L :: rest) :
    L.Net s.doc.undo.1.rope s.doc.rope ∧
      Sound { s with doc := s.doc.undo.1, undos := rest, redos := L :: s.redos } := by
  have hnone := pendingUndo_none hclosed
  have hback := h.backward
  rw [undoGroups, undoLedgers, hclosed, hnone, hundos] at hback
  cases hstack : s.doc.undoStack with
  | nil =>
      rw [hstack] at hback
      exact hback.elim
  | cons entry older =>
      rw [hstack] at hback
      obtain ⟨hwalks, hnet, hrest⟩ := hback
      obtain ⟨hrope, hpending, hundo, mirror, hredo, hsplices, hhi⟩ := Document.undo_fields hstack
      rw [applySplices_rope hwalks] at hrope
      generalize s.doc.undo.1 = doc at hrope hpending hundo hredo
      have hnet : L.Net doc.rope s.doc.rope := by
        rw [hrope]
        exact hnet
      refine ⟨hnet, h.moved (L := L) ?_ rfl rfl rfl hnet.nodup_before (net_come hnet) (net_go hnet)
        ?_ ?_ ?_ ?_⟩
      · rw [ledgers, hundos]
        simp
      · intro M hM
        change M ∈ s.pending :: rest ++ L :: s.redos at hM
        rw [ledgers, hundos]
        simp only [List.mem_append, List.mem_cons] at hM ⊢
        tauto
      · intro other hother
        change other ∈ doc.pendingUndo.toList ++ doc.undoStack ++ doc.redoStack at hother
        rw [hpending, hundo, hredo] at hother
        have hmem := h.bounded
        rw [hstack] at hmem
        rcases List.mem_append.1 hother with hother | hother
        · exact hmem other (List.mem_append_left _ (by
            rw [hnone] at hother ⊢
            exact List.mem_cons_of_mem _ hother))
        · rcases List.mem_cons.1 hother with rfl | hother
          · refine Bounded_congr hsplices hhi (hmem entry (List.mem_append_left _ ?_))
            exact List.mem_append_right _ List.mem_cons_self
          · exact hmem other (List.mem_append_right _ hother)
      · show Rewinds Backward (List.map _ (doc.pendingUndo.toList ++ doc.undoStack))
          (if doc.pendingUndo.isSome then _ else _) doc.rope
        rw [hpending, hnone, hundo, hrope]
        exact hrest
      · show Rewinds Forward (List.map _ doc.redoStack) (L :: s.redos) doc.rope
        rw [hredo, hrope, List.map_cons, UndoEntry.swaps_congr hsplices, swaps_redo]
        obtain ⟨hthere, hto⟩ := hwalks.back
        refine ⟨hthere, ?_, ?_⟩
        · rw [hto]
          rw [hrope] at hnet
          exact hnet
        · rw [hto]
          exact h.forward

/-- A step on takes it back again. -/
theorem Sound.redo {s : Authored} (h : s.Sound) (hclosed : s.doc.undoGroupOpen = false)
    {L : Ledger Marked} {rest : List (Ledger Marked)} (hredos : s.redos = L :: rest) :
    Sound { s with doc := s.doc.redo.1, redos := rest, undos := (L :: s.undos).take undoCap } := by
  have hnone := pendingUndo_none hclosed
  have hforth := h.forward
  rw [redoGroups, hredos] at hforth
  cases hstack : s.doc.redoStack with
  | nil =>
      rw [hstack] at hforth
      exact hforth.elim
  | cons entry newer =>
      rw [hstack] at hforth
      obtain ⟨hwalks, hnet, hrest⟩ := hforth
      obtain ⟨hrope, hpending, hredo, mirror, hundo, hsplices, hhi⟩ := Document.redo_fields hstack
      rw [applySplices_rope hwalks] at hrope
      generalize s.doc.redo.1 = doc at hrope hpending hundo hredo
      have hnet : L.Net s.doc.rope doc.rope := by
        rw [hrope]
        exact hnet
      have hback := h.backward
      rw [undoGroups, undoLedgers, hclosed, hnone] at hback
      refine h.moved (L := L) ?_ rfl rfl rfl hnet.nodup_after (net_go hnet) (net_come hnet)
        ?_ ?_ ?_ ?_
      · rw [ledgers, hredos]
        simp
      · intro M hM
        change M ∈ s.pending :: (L :: s.undos).take undoCap ++ rest at hM
        rw [ledgers, hredos]
        rcases List.mem_append.1 hM with hM | hM
        · rcases List.mem_cons.1 hM with rfl | hM
          · simp
          · rcases List.mem_cons.1 (List.mem_of_mem_take hM) with rfl | hM
            · simp
            · simp [hM]
        · simp [hM]
      · intro other hother
        change other ∈ doc.pendingUndo.toList ++ doc.undoStack ++ doc.redoStack at hother
        rw [hpending, hundo, hredo, hnone] at hother
        have hmem := h.bounded
        rw [hstack] at hmem
        rcases List.mem_append.1 hother with hother | hother
        · rcases List.mem_cons.1 (List.mem_of_mem_take hother) with rfl | hother
          · refine Bounded_congr hsplices hhi (hmem entry (List.mem_append_right _ ?_))
            exact List.mem_cons_self
          · exact hmem other (List.mem_append_left _ (List.mem_append_right _ hother))
        · exact hmem other (List.mem_append_right _ (List.mem_cons_of_mem _ hother))
      · have hgroups : List.map (UndoEntry.swaps .undo) (doc.pendingUndo.toList ++ doc.undoStack)
            = (mirror.swaps .undo :: s.doc.undoStack.map (UndoEntry.swaps .undo)).take undoCap := by
          rw [hpending, hnone, hundo]
          exact List.map_take ..
        show Rewinds Backward (List.map _ (doc.pendingUndo.toList ++ doc.undoStack))
          (if doc.pendingUndo.isSome then _ else _) doc.rope
        rw [hgroups, hpending, hnone, hrope]
        refine Rewinds.take ?_ undoCap
        rw [UndoEntry.swaps_congr hsplices, swaps_undo]
        obtain ⟨hthere, hto⟩ := hwalks.back
        refine ⟨hthere, ?_, ?_⟩
        · rw [hto]
          rw [hrope] at hnet
          exact hnet
        · rw [hto]
          exact hback
      · show Rewinds Forward (List.map _ doc.redoStack) rest doc.rope
        rw [hredo, hrope]
        exact hrest

theorem Sound.undo_nothing {s : Authored} (h : s.Sound) (hclosed : s.doc.undoGroupOpen = false)
    (hundos : s.undos = []) : s.doc.undo.1 = s.doc := by
  have hlength := h.backward.length
  rw [undoGroups, undoLedgers, hclosed, pendingUndo_none hclosed, hundos] at hlength
  have hstack : s.doc.undoStack = [] := by simpa using hlength
  rw [Document.undo, Document.historyStep]
  simp only [hstack]

theorem Sound.redo_nothing {s : Authored} (h : s.Sound) (hredos : s.redos = []) :
    s.doc.redo.1 = s.doc := by
  have hlength := h.forward.length
  rw [redoGroups, hredos] at hlength
  have hstack : s.doc.redoStack = [] := by simpa using hlength
  rw [Document.redo, Document.historyStep]
  simp only [hstack]

/-! ### Runs -/

/-- A delete of the user that finds nothing to delete. -/
theorem typedNotes_same (s : Authored) (hredos : s.doc.redoStack.isEmpty → s.redos = []) :
    s.typedNotes s.doc [] = s := by
  have hgone : s.doc.rope.filter (fun a => decide (a ∉ s.doc.rope)) = [] :=
    List.filter_eq_nil_iff.2 fun a ha => by simp [ha]
  have hsame : (if s.doc.redoStack.isEmpty then [] else s.redos) = s.redos := by
    split
    · rename_i hempty
      exact (hredos hempty).symm
    · rfl
  rw [typedNotes]
  simp only [hgone, hsame, List.filter_nil, List.append_nil]
  rfl

/-- An edit of the user that is no insertion. -/
theorem Sound.cut {s : Authored} (h : s.Sound) {doc : Document Marked}
    (hopen : s.doc.undoGroupOpen = true)
    (hedited : doc = s.doc ∨ ∃ removed, s.doc.Edited doc removed []) :
    (s.typedNotes doc []).Sound := by
  rcases hedited with rfl | ⟨removed, hedited⟩
  · rw [typedNotes_same]
    · exact h
    · intro hempty
      have hlength := h.forward.length
      rw [redoGroups, List.length_map, List.isEmpty_iff.1 hempty] at hlength
      exact List.length_eq_zero_iff.1 hlength.symm
  · exact h.edited hopen hedited List.nodup_nil nofun

theorem Sound.noted {s : Authored} (h : s.Sound) {edit : Document.Edit Char}
    (hgrouped : s.Grouped edit) (hclear : s.Clear edit) :
    (s.noted edit (s.doc.apply (edit.marked s.next))).Sound := by
  obtain ⟨hadded, hfresh⟩ := edit.added_fresh s.next
  cases edit with
  | insertChar line col ch =>
      exact h.edited hgrouped (s.doc.edited_insert _ [(ch, s.next)]) hadded hfresh
  | insertStr line col text =>
      exact h.edited hgrouped (s.doc.edited_insert _ (text.zipIdx s.next)) hadded hfresh
  | insertStrAtChar charIdx text =>
      exact h.edited hgrouped (s.doc.edited_insert _ (text.zipIdx s.next)) hadded hfresh
  | deleteChar line col => exact h.cut hgrouped (s.doc.edited_deleteChar line col)
  | deleteRange startChar endChar =>
      exact h.cut hgrouped (s.doc.edited_deleteRange startChar endChar)
  | deleteLine line => exact hgrouped.elim
  | replaceLineText line newText => exact hgrouped.elim
  | insertStrAtCharNoUndo charIdx text =>
      exact h.agentInsert charIdx hadded hfresh hclear.1 hclear.2
  | deleteRangeNoUndo startChar endChar => exact h.agentDelete hclear
  | beginUndoGroup cursorLine cursorCol =>
      cases hpending : s.doc.pendingUndo with
      | none =>
          have hclosed : s.doc.undoGroupOpen = false := by rw [Document.undoGroupOpen, hpending]; rfl
          have hbegin := h.beginGroup cursorLine cursorCol hpending
          show Sound (if s.doc.undoGroupOpen then _ else _)
          rw [hclosed]
          exact hbegin
      | some entry =>
          have hopen : s.doc.undoGroupOpen = true := by rw [Document.undoGroupOpen, hpending]; rfl
          have hsame : (s.doc.beginUndoGroup cursorLine cursorCol).1 = s.doc := by
            rw [Document.beginUndoGroup, hpending]
          show Sound (if s.doc.undoGroupOpen then
            { s with doc := (s.doc.beginUndoGroup cursorLine cursorCol).1 } else _)
          rw [hopen, hsame]
          exact h
  | endUndoGroup cursorLine cursorCol =>
      show Sound (if s.doc.pendingUndo.any fun entry => !entry.splices.isEmpty then
          { s with
            doc := s.doc.endUndoGroup cursorLine cursorCol
            undos := (s.pending :: s.undos).take undoCap }
        else { s with doc := s.doc.endUndoGroup cursorLine cursorCol })
      cases hpending : s.doc.pendingUndo with
      | none =>
          have hsame : s.doc.endUndoGroup cursorLine cursorCol = s.doc := by
            rw [Document.endUndoGroup, hpending]
          rw [hsame]
          exact h
      | some entry =>
          cases hempty : entry.splices.isEmpty with
          | true =>
              have hdoc : s.doc.endUndoGroup cursorLine cursorCol
                  = { s.doc with pendingUndo := none } := by
                rw [Document.endUndoGroup, hpending]
                simp only [hempty, if_true]
              rw [hdoc]
              simp only [Option.any_some, hempty, Bool.not_true, Bool.false_eq_true, if_false]
              exact h.dropGroup hpending (List.isEmpty_iff.1 hempty)
          | false =>
              have hdoc : s.doc.endUndoGroup cursorLine cursorCol
                  = ({ s.doc with pendingUndo := none } : Document Marked).pushUndo
                    { entry with cursorAfter := (cursorLine, cursorCol) } := by
                rw [Document.endUndoGroup, hpending]
                simp only [hempty, Bool.false_eq_true, if_false]
              rw [hdoc]
              simp only [Option.any_some, hempty, Bool.not_false, if_true]
              exact h.endGroup (cursorLine, cursorCol) hpending
  | undo =>
      dsimp only [Authored.noted]
      split
      · rename_i hundos
        show Sound { s with doc := s.doc.undo.1 }
        rw [h.undo_nothing hgrouped hundos]
        exact h
      · rename_i L rest hundos
        exact (h.undo hgrouped hundos).2
  | redo =>
      dsimp only [Authored.noted]
      split
      · rename_i hredos
        show Sound { s with doc := s.doc.redo.1 }
        rw [h.redo_nothing hredos]
        exact h
      · rename_i L rest hredos
        exact h.redo hgrouped hredos

/-- Edits that are grouped, and in the way of no recorded edit. -/
def Orderly (s : Authored) (edit : Document.Edit Char) : Prop := s.Grouped edit ∧ s.Clear edit

instance (s : Authored) (edit : Document.Edit Char) : Decidable (s.Orderly edit) :=
  inferInstanceAs (Decidable (_ ∧ _))

theorem sound_of_reaches {s : Authored} (h : machine.Reaches Orderly s) : s.Sound := by
  refine h.invariant ?_ ?_
  · rintro s ⟨text, filePath, rfl⟩
    exact sound_opening text filePath
  · intro s edit s' hsound hallowed hstep
    obtain rfl := Option.some.inj hstep
    exact hsound.noted hallowed.1 hallowed.2

/-- Text of the program stays until it is deleted, and undo does what it
should, while no edit of the program comes in the way of a recorded
edit. -/
theorem undo_spares_agent_text {s : Authored} (h : machine.Reaches Orderly s) :
    s.AgentTextKept ∧ s.ExactUndo := by
  have hsound := sound_of_reaches h
  refine ⟨hsound.agent_kept, fun hclosed => ?_⟩
  cases hundos : s.undos with
  | nil => exact congrArg Document.rope (hsound.undo_nothing hclosed hundos)
  | cons L rest => exact (hsound.undo hclosed hundos).1

/-- Two groups of the user, the second in front of the first, and text of
the program between them and behind them. -/
def writing : List (Document.Edit Char) :=
  [.beginUndoGroup 0 0, .insertStrAtChar 3 ['B'], .endUndoGroup 0 0,
    .beginUndoGroup 0 0, .insertStrAtChar 0 ['A'], .deleteRange 2 3, .endUndoGroup 0 0,
    .insertStrAtCharNoUndo 5 ['x', 'y'], .insertStrAtCharNoUndo 0 ['z'], .deleteRangeNoUndo 7 8,
    .undo, .redo, .undo]

theorem undo_spares_agent_text_sample :
    ∃ s, machine.run (opening ['1', '2', '3', '4', '5'] "f") writing = some s ∧
      s.AgentTextKept ∧ s.ExactUndo ∧ s.undos ≠ [] ∧
      s.doc.rope.map Prod.fst = ['z', '1', '2', '3', 'B', '4', 'x', '5'] := by
  have hrun : (machine.run (opening ['1', '2', '3', '4', '5'] "f") writing).map
      (fun s => (s.doc.rope.map Prod.fst, s.undos.length))
        = some (['z', '1', '2', '3', 'B', '4', 'x', '5'], 1) := by decide
  obtain ⟨s, hs, hdata⟩ := Option.map_eq_some_iff.1 hrun
  have hreach : machine.Reaches Orderly s :=
    .of_run (.start ⟨_, _, rfl⟩) (by decide) hs
  obtain ⟨hkept, hexact⟩ := undo_spares_agent_text hreach
  obtain ⟨hrope, hundos⟩ := Prod.mk.inj hdata
  refine ⟨s, hs, hkept, hexact, ?_, hrope⟩
  intro hnil
  rw [hnil] at hundos
  cases hundos

/-- The second of two groups is in front of the first. Text of the
program comes in between them, behind where the first one was when it was
typed: the shift leaves that one where it is, and undoing both takes a
character of the program. -/
theorem undo_takes_agent_text : ¬ ∀ s, machine.Reaches Grouped s → s.AgentTextKept ∧ s.ExactUndo := by
  intro h
  have hrun : (machine.run (opening ['0', '1', '2', '3', '4', '5', '6', '7', '8', '9'] "f")
      [.beginUndoGroup 0 0, .insertStrAtChar 5 ['B'], .endUndoGroup 0 0,
        .beginUndoGroup 0 0, .insertStrAtChar 0 ['A', 'A', 'A', 'A'], .endUndoGroup 0 0,
        .insertStrAtCharNoUndo 7 ['x', 'y', 'z'], .undo, .undo]).map
        (fun s => decide (∀ a ∈ s.agent, a ∉ s.deleted → a ∈ s.doc.rope)) = some false := by
    decide
  obtain ⟨s, hs, hlost⟩ := Option.map_eq_some_iff.1 hrun
  have hreach : machine.Reaches Grouped s :=
    .of_run (.start ⟨_, _, rfl⟩) (by decide) hs
  exact of_decide_eq_false hlost (h s hreach).1

end Authored

end Yaldabaoth
