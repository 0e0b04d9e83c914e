import Yaldabaoth.Model.FileSync

/-!
# `Yaldabaoth.Proofs.Buffer.Echoes`: own writes read back

A write is followed by a read of what was written. The read is taken for
an echo when its hash is the one on record, which is the hash of the text
in the buffer: the same as that of the file, unless the file has CRLF
line breaks. `FileSync.Synced` says what holds between writes and reads,
and `FileSync.echoes_unheard` that no read is taken for a change of
another's while files with CRLF line breaks are not read.
-/

set_option autoImplicit false

namespace Yaldabaoth

open Rope

/-! ### What edits leave alone -/

namespace Document

variable {α : Type}

/-- An edit keeps the path of the buffer and its line ending. -/
def SameFile (d d' : Document α) : Prop := d'.filePath = d.filePath ∧ d'.lineEnding = d.lineEnding

theorem SameFile.trans {d d' d'' : Document α} (h : SameFile d d') (h' : SameFile d' d'') :
    SameFile d d'' := ⟨h'.1.trans h.1, h'.2.trans h.2⟩

theorem SameFile.pushUndo {d d' : Document α} (h : SameFile d d') (entry : UndoEntry α) :
    SameFile d (d'.pushUndo entry) := by
  rw [Document.pushUndo]
  generalize (entry :: d'.undoStack).length - undoCap = n
  have hevict (n : Nat) (d : Document α) : SameFile d (evictOldest^[n] d) := by
    induction n generalizing d with
    | zero => exact ⟨rfl, rfl⟩
    | succ n ih => exact SameFile.trans ⟨rfl, rfl⟩ (ih (evictOldest d))
  exact h.trans (hevict n { d' with undoStack := entry :: d'.undoStack })

variable [Glyph α]

theorem sameFile_recordSplice (d : Document α) (start removedChars : Nat) (inserted : List α) :
    SameFile d (d.recordSplice start removedChars inserted) := by
  rw [recordSplice]
  split <;> exact ⟨rfl, rfl⟩

theorem sameFile_deleteRange (d : Document α) (startChar endChar : Nat) :
    SameFile d (d.deleteRange startChar endChar) := by
  rw [deleteRange]
  dsimp only
  split
  · exact (d.sameFile_recordSplice _ _ _).trans ⟨rfl, rfl⟩
  · exact ⟨rfl, rfl⟩

theorem sameFile_historyStep (d : Document α) (dir : HistoryDir) :
    SameFile d (d.historyStep dir).1 := by
  cases dir with
  | undo =>
      rw [historyStep]
      dsimp only
      split <;> exact ⟨rfl, rfl⟩
  | redo =>
      rw [historyStep]
      dsimp only
      split
      · exact ⟨rfl, rfl⟩
      · next entry rest _ =>
          have hstepped : SameFile d { d with
              rope := (applySplices d.rope entry .redo).1
              pendingEdit := none
              pendingSpliceCount := 2
              redoStack := rest } := ⟨rfl, rfl⟩
          have hpushed := hstepped.pushUndo
            { entry with cursorBefore := entry.cursorAfter, cursorAfter := entry.cursorBefore }
          generalize Document.pushUndo _ _ = pushed at hpushed ⊢
          exact ⟨hpushed.1, hpushed.2⟩

theorem sameFile_apply (d : Document α) (edit : Edit α) : SameFile d (d.apply edit) := by
  cases edit with
  | insertChar line col ch => exact (d.sameFile_recordSplice _ _ _).trans ⟨rfl, rfl⟩
  | insertStr line col text => exact (d.sameFile_recordSplice _ _ _).trans ⟨rfl, rfl⟩
  | insertStrAtChar charIdx text => exact (d.sameFile_recordSplice _ _ _).trans ⟨rfl, rfl⟩
  | deleteChar line col =>
      show SameFile d (d.deleteChar line col)
      rw [deleteChar]
      dsimp only
      split
      · exact (d.sameFile_recordSplice _ _ _).trans ⟨rfl, rfl⟩
      · exact ⟨rfl, rfl⟩
  | deleteRange startChar endChar => exact d.sameFile_deleteRange startChar endChar
  | deleteLine line =>
      show SameFile d (d.deleteLine line)
      rw [deleteLine]
      split
      · exact d.sameFile_deleteRange _ _
      · exact ⟨rfl, rfl⟩
  | replaceLineText line newText =>
      show SameFile d (d.replaceLineText line newText)
      rw [replaceLineText]
      split
      · exact ⟨rfl, rfl⟩
      · dsimp only
        split
        · refine SameFile.trans ?_ (SameFile.trans (sameFile_recordSplice _ _ _ _) ⟨rfl, rfl⟩)
          exact (d.sameFile_recordSplice _ _ _).trans ⟨rfl, rfl⟩
        · exact (d.sameFile_recordSplice _ _ _).trans ⟨rfl, rfl⟩
  | insertStrAtCharNoUndo charIdx text => exact ⟨rfl, rfl⟩
  | deleteRangeNoUndo startChar endChar =>
      show SameFile d (d.deleteRangeNoUndo startChar endChar)
      rw [deleteRangeNoUndo]
      dsimp only
      split <;> exact ⟨rfl, rfl⟩
  | beginUndoGroup cursorLine cursorCol =>
      show SameFile d (d.beginUndoGroup cursorLine cursorCol).1
      rw [beginUndoGroup]
      split <;> exact ⟨rfl, rfl⟩
  | endUndoGroup cursorLine cursorCol =>
      show SameFile d (d.endUndoGroup cursorLine cursorCol)
      rw [endUndoGroup]
      split
      · exact ⟨rfl, rfl⟩
      · dsimp only
        split
        · exact ⟨rfl, rfl⟩
        · next entry _ _ =>
            have hclosed : SameFile d { d with pendingUndo := none } := ⟨rfl, rfl⟩
            exact hclosed.pushUndo _
  | undo => exact d.sameFile_historyStep .undo
  | redo => exact d.sameFile_historyStep .redo

/-! ### Line endings of a file -/

/-- A file with LF line breaks, or none, is read as it is. -/
theorem rope_fromText (text : List Char) (filePath : String)
    (h : (fromText text filePath).lineEnding = .lf ∨ '\n' ∉ text) :
    (fromText text filePath).rope = text := by
  have hends : (fromText text filePath).lineEnding = (normalizeLineEndings text).2 := rfl
  have hrope : (fromText text filePath).rope = (normalizeLineEndings text).1 := rfl
  rw [hends] at h
  rw [hrope]
  rw [normalizeLineEndings] at h ⊢
  split
  · next hcrLf =>
      rw [if_pos hcrLf] at h
      obtain ⟨-, hany⟩ := Bool.and_eq_true_iff.1 hcrLf
      obtain ⟨ch, hch, hnl⟩ := List.any_eq_true.1 hany
      have hch' : ch = '\n' := beq_iff_eq.1 hnl
      rw [hch'] at hch
      exact absurd hch (h.resolve_left nofun)
  · rfl

/-- What is written of a buffer whose file has LF line breaks, or none,
is its text. -/
theorem savedText_eq (d : Document Char) (h : d.lineEnding = .lf ∨ '\n' ∉ d.savedText) :
    d.savedText = d.rope := by
  cases hending : d.lineEnding with
  | lf => rw [savedText, hending]
  | crLf =>
      have hsaved : d.savedText = d.rope.flatMap fun ch =>
          if ch = '\n' then ['\r', '\n'] else [ch] := by rw [savedText, hending]
      rcases h with h | h
      · rw [hending] at h
        cases h
      rw [hsaved] at h ⊢
      have hplain : ∀ ch ∈ d.rope, (if ch = '\n' then ['\r', '\n'] else [ch]) = [ch] := by
        intro ch hch
        refine if_neg fun hnl => h ?_
        rw [List.mem_flatMap]
        exact ⟨ch, hch, by rw [if_pos hnl]; exact List.mem_cons_of_mem _ (List.mem_singleton_self _)⟩
      rw [List.flatMap_congr hplain, List.flatMap_singleton']

end Document

/-! ### Between writes and reads -/

namespace FileSync

variable {contentHash : List Char → UInt64} {s s' : FileSync}

/-- What holds while no one else writes and every read is applied before
the next write of the file: a buffer without CRLF line breaks has on
record the hash of its file. -/
structure Synced (contentHash : List Char → UInt64) (s : FileSync) : Prop where
  calm : s.conflicts = []
  fresh : ∀ path text, (path, some text) ∈ s.reads → s.disk path = some text
  tracked : ∀ path, path ∈ s.tracked ↔ path ∈ s.pool
  unknown : ∀ path, path ∉ s.pool → s.diskHash path = none
  placed : ∀ path d, s.pool.lookup path = some d → d.filePath = path
  known : ∀ path d text, s.pool.lookup path = some d → s.disk path = some text →
    d.lineEnding = .lf ∨ '\n' ∉ text → s.diskHash path = some (contentHash text)

/-- No one else writes a file, and a file is not written while a read of
it waits. -/
def Alone (s : FileSync) : Action → Prop
  | .autosavePath path _ => ∀ read ∈ s.reads, read.1 ≠ path
  | .saveBuffer path _ => ∀ read ∈ s.reads, read.1 ≠ path
  | .externalWrite _ _ => False
  | _ => True

/-- Every text read of a buffer's file is without CRLF line breaks, is
the text of the buffer, or has the hash on record. -/
def Echoes (contentHash : List Char → UInt64) (s : FileSync) : Prop :=
  ∀ read ∈ s.reads, ∀ text ∈ read.2, ∀ d ∈ s.pool.lookup read.1,
    d.lineEnding = .lf ∨ '\n' ∉ text ∨ d.rope = text ∨
      s.diskHash read.1 = some (contentHash text)

/-- A run of one's own that reads no CRLF line breaks. -/
def Unbroken (contentHash : List Char → UInt64) (s : FileSync) (a : Action) : Prop :=
  s.Alone a ∧ (a = .applyDiskChanges → s.Echoes contentHash)

instance (s : FileSync) (a : Action) : Decidable (s.Alone a) := by
  unfold Alone
  split <;> infer_instance

instance (s : FileSync) : Decidable (s.Echoes contentHash) := by
  unfold Echoes
  infer_instance

instance (s : FileSync) (a : Action) : Decidable (s.Unbroken contentHash a) :=
  inferInstanceAs (Decidable (_ ∧ (_ → _)))

/-! ### Applying reads -/

/-- What applying reads of what is there leaves: at most hashes are put
on record, of the files themselves. -/
structure Heard (contentHash : List Char → UInt64) (s s' : FileSync) : Prop where
  pool : s'.pool = s.pool
  conflicts : s'.conflicts = []
  disk : s'.disk = s.disk
  tracked : s'.tracked = s.tracked
  diskHash : ∀ path, s'.diskHash path = s.diskHash path ∨
    path ∈ s.pool ∧ ∃ text, s.disk path = some text ∧ s'.diskHash path = some (contentHash text)

/-- One read that is an echo. -/
theorem Heard.step {read : String × Option (List Char)} (h : Heard contentHash s s')
    (hfresh : ∀ text ∈ read.2, s.disk read.1 = some text)
    (hecho : ∀ text ∈ read.2, ∀ d ∈ s.pool.lookup read.1,
      d.rope = text ∨ s.diskHash read.1 = some (contentHash text)) :
    Heard contentHash s (s'.applyDiskChange contentHash read) := by
  obtain ⟨path, content⟩ := read
  cases content with
  | none => exact h
  | some text =>
  rw [applyDiskChange]
  dsimp only
  split
  · exact h
  next hnew =>
  rw [h.pool]
  cases hd : s.pool.lookup path with
  | none => exact h
  | some d =>
      have hrope : d.rope = text := by
        refine (hecho text rfl d hd).resolve_right fun hknown => hnew ?_
        -- What was on record at first still is.
        rcases h.diskHash path with hsame | ⟨-, other, hother, hsame⟩
        · rw [hsame]
          exact hknown
        · rw [hfresh text rfl] at hother
          cases hother
          exact hsame
      dsimp only
      rw [if_pos hrope]
      refine ⟨rfl, ?_, h.disk, h.tracked, fun other => ?_⟩
      · show s'.conflicts.filter _ = []
        rw [h.conflicts]
        rfl
      · show Function.update s'.diskHash path (some (contentHash text)) other = s.diskHash other ∨
          other ∈ s.pool ∧ ∃ found, s.disk other = some found ∧
            Function.update s'.diskHash path (some (contentHash text)) other =
              some (contentHash found)
        by_cases hsame : other = path
        · subst hsame
          rw [Function.update_self]
          exact .inr ⟨AList.lookup_isSome.1 (by rw [hd]; rfl), text, hfresh text rfl, rfl⟩
        · rw [Function.update_of_ne hsame]
          exact h.diskHash other

theorem Heard.fold {reads : List (String × Option (List Char))} (h : Heard contentHash s s')
    (hfresh : ∀ read ∈ reads, ∀ text ∈ read.2, s.disk read.1 = some text)
    (hecho : ∀ read ∈ reads, ∀ text ∈ read.2, ∀ d ∈ s.pool.lookup read.1,
      d.rope = text ∨ s.diskHash read.1 = some (contentHash text)) :
    Heard contentHash s (reads.foldl (applyDiskChange contentHash) s') := by
  induction reads generalizing s' with
  | nil => exact h
  | cons read rest ih =>
      rw [List.foldl_cons]
      have hstep := h.step (hfresh read List.mem_cons_self) (hecho read List.mem_cons_self)
      exact ih hstep (fun other hother => hfresh other (List.mem_cons_of_mem _ hother))
        fun other hother => hecho other (List.mem_cons_of_mem _ hother)

/-- A read of another file. -/
theorem applyDiskChange_elsewhere {path : String} {read : String × Option (List Char)}
    (hplaced : ∀ other d, s.pool.lookup other = some d → d.filePath = other)
    (hne : path ≠ read.1) :
    (s.applyDiskChange contentHash read).pool.lookup path = s.pool.lookup path ∧
      (s.applyDiskChange contentHash read).diskHash path = s.diskHash path ∧
      (path ∈ s.conflicts → path ∈ (s.applyDiskChange contentHash read).conflicts) := by
  obtain ⟨other, content⟩ := read
  cases content with
  | none => exact ⟨rfl, rfl, id⟩
  | some text =>
  rw [applyDiskChange]
  dsimp only
  split
  · exact ⟨rfl, rfl, id⟩
  cases hd : s.pool.lookup other with
  | none => exact ⟨rfl, rfl, id⟩
  | some d =>
      have hfile := hplaced other d hd
      have hkept : path ∈ s.conflicts → path ∈ s.conflicts.filter fun found => found ≠ other := by
        intro hmem
        exact List.mem_filter.2 ⟨hmem, decide_eq_true hne⟩
      dsimp only
      split
      · exact ⟨rfl, Function.update_of_ne hne _ _, hkept⟩
      split
      · split
        · exact ⟨rfl, Function.update_of_ne hne _ _, id⟩
        · exact ⟨rfl, Function.update_of_ne hne _ _, fun hmem => List.mem_append_left _ hmem⟩
      · rw [reloadCore, noteDiskContent]
        dsimp only
        rw [hfile]
        refine ⟨AList.lookup_insert_ne hne, ?_, hkept⟩
        exact (Function.update_of_ne hne _ _).trans (Function.update_of_ne hne _ _)

theorem applyDiskChange_placed (read : String × Option (List Char))
    (hplaced : ∀ other d, s.pool.lookup other = some d → d.filePath = other) :
    ∀ other d, (s.applyDiskChange contentHash read).pool.lookup other = some d →
      d.filePath = other := by
  intro path d hd
  obtain ⟨other, content⟩ := read
  by_cases hne : path = other
  · subst hne
    cases content with
    | none => exact hplaced path d hd
    | some text =>
    rw [applyDiskChange] at hd
    dsimp only at hd
    split at hd
    · exact hplaced path d hd
    cases hold : s.pool.lookup path with
    | none =>
        rw [hold] at hd
        exact hplaced path d hd
    | some old =>
        rw [hold] at hd
        dsimp only at hd
        split at hd
        · exact hplaced path d hd
        split at hd
        · split at hd <;> exact hplaced path d hd
        · have hlookup : (s.pool.insert path (old.replaceText text old.filePath)).lookup path =
              some d := hd
          rw [AList.lookup_insert] at hlookup
          cases hlookup
          exact hplaced path old hold
  · rw [(applyDiskChange_elsewhere hplaced hne).1] at hd
    exact hplaced path d hd

/-- A change of another's: the buffer was replaced, or is in conflict. -/
def Heeded (contentHash : List Char → UInt64) (path : String) (text : List Char)
    (d : Document Char) (s : FileSync) : Prop :=
  s.diskHash path = some (contentHash text) ∧
    (s.pool.lookup path ≠ some d ∨ path ∈ s.conflicts)

/-- A read that is no echo is taken for a change of another's. -/
theorem heeded_of_read {path : String} {text : List Char} {d : Document Char}
    (hd : s.pool.lookup path = some d) (hrope : d.rope ≠ text)
    (hnew : s.diskHash path ≠ some (contentHash text)) :
    Heeded contentHash path text d (s.applyDiskChange contentHash (path, some text)) := by
  rw [applyDiskChange]
  dsimp only
  rw [if_neg hnew, hd]
  dsimp only
  rw [if_neg hrope]
  split
  · split
    · next hmem => exact ⟨Function.update_self _ _ _, .inr hmem⟩
    · exact ⟨Function.update_self _ _ _, .inr (List.mem_append_right _ (List.mem_singleton_self _))⟩
  · rw [reloadCore, noteDiskContent]
    refine ⟨?_, .inl ?_⟩
    · show Function.update (Function.update s.diskHash path (some (contentHash text))) d.filePath
        (some (contentHash text)) path = some (contentHash text)
      rw [Function.update_apply, Function.update_self, ite_self]
    · show (s.pool.insert path (d.replaceText text d.filePath)).lookup path ≠ some d
      rw [AList.lookup_insert]
      intro hsame
      -- A buffer that is made anew is of the next generation.
      have hseq : d.editSeq + 1 = d.editSeq := congrArg Document.editSeq (Option.some.inj hsame)
      simp at hseq

/-- What was heeded stays so whatever is read that is there. -/
theorem Heeded.step {path : String} {text : List Char} {d : Document Char}
    {read : String × Option (List Char)}
    (hplaced : ∀ other d, s.pool.lookup other = some d → d.filePath = other)
    (hfresh : path = read.1 → ∀ found ∈ read.2, found = text)
    (h : Heeded contentHash path text d s) :
    Heeded contentHash path text d (s.applyDiskChange contentHash read) := by
  by_cases hne : path = read.1
  · obtain ⟨other, content⟩ := read
    cases hne
    cases content with
    | none => exact h
    | some found =>
        rw [hfresh rfl found rfl, applyDiskChange]
        dsimp only
        rw [if_pos h.1]
        exact h
  · obtain ⟨hlookup, hhash, hmem⟩ := applyDiskChange_elsewhere hplaced hne
    refine ⟨hhash.trans h.1, ?_⟩
    rw [hlookup]
    exact h.2.imp_right hmem

theorem Heeded.fold {path : String} {text : List Char} {d : Document Char}
    {reads : List (String × Option (List Char))}
    (hplaced : ∀ other d, s.pool.lookup other = some d → d.filePath = other)
    (hfresh : ∀ read ∈ reads, path = read.1 → ∀ found ∈ read.2, found = text)
    (h : Heeded contentHash path text d s) :
    Heeded contentHash path text d (reads.foldl (applyDiskChange contentHash) s) := by
  induction reads generalizing s with
  | nil => exact h
  | cons read rest ih =>
      rw [List.foldl_cons]
      refine ih (applyDiskChange_placed read hplaced)
        (fun other hother => hfresh other (List.mem_cons_of_mem _ hother)) ?_
      exact h.step hplaced (hfresh read List.mem_cons_self)

/-- One read of a batch that is no echo is enough. -/
theorem heeded_of_mem {path : String} {text : List Char} {d : Document Char}
    {reads : List (String × Option (List Char))}
    (hplaced : ∀ other d, s.pool.lookup other = some d → d.filePath = other)
    (hfresh : ∀ read ∈ reads, path = read.1 → ∀ found ∈ read.2, found = text)
    (hd : s.pool.lookup path = some d) (hrope : d.rope ≠ text)
    (hnew : s.diskHash path ≠ some (contentHash text)) (hread : (path, some text) ∈ reads) :
    Heeded contentHash path text d (reads.foldl (applyDiskChange contentHash) s) := by
  induction reads generalizing s with
  | nil => cases hread
  | cons read rest ih =>
      have hrest : ∀ other ∈ rest, path = other.1 → ∀ found ∈ other.2, found = text :=
        fun other hother => hfresh other (List.mem_cons_of_mem _ hother)
      rw [List.foldl_cons]
      by_cases hfirst : read = (path, some text)
      · subst hfirst
        exact Heeded.fold (applyDiskChange_placed _ hplaced) hrest (heeded_of_read hd hrope hnew)
      · have hlater : (path, some text) ∈ rest :=
          (List.mem_cons.1 hread).resolve_left fun hsame => hfirst hsame.symm
        by_cases hne : path = read.1
        · -- A read of the file that failed.
          obtain ⟨other, content⟩ := read
          cases hne
          cases content with
          | none => exact ih hplaced hrest hd hnew hlater
          | some found =>
              rw [hfresh _ List.mem_cons_self rfl found rfl] at hfirst
              exact absurd rfl hfirst
        · obtain ⟨hlookup, hhash, -⟩ := @applyDiskChange_elsewhere contentHash s path read hplaced hne
          refine ih (applyDiskChange_placed read hplaced) hrest ?_ ?_ hlater
          · rw [hlookup]
            exact hd
          · rw [hhash]
            exact hnew

/-- In a synced state the buffers without CRLF line breaks have what is
read of their files on record. -/
theorem Synced.echoes (h : s.Synced contentHash) (hechoes : s.Echoes contentHash) :
    ∀ read ∈ s.reads, ∀ text ∈ read.2, ∀ d ∈ s.pool.lookup read.1,
      d.rope = text ∨ s.diskHash read.1 = some (contentHash text) := by
  rintro ⟨path, content⟩ hread text rfl d hd
  have hdisk := h.fresh path text hread
  rcases hechoes _ hread text rfl d hd with hlf | hplain | hrope | hknown
  · exact .inr (h.known path d text hd hdisk (.inl hlf))
  · exact .inr (h.known path d text hd hdisk (.inr hplain))
  · exact .inl hrope
  · exact .inr hknown

theorem Synced.applyDiskChanges (h : s.Synced contentHash) (hechoes : s.Echoes contentHash) :
    Heard contentHash s (s.applyDiskChanges contentHash) := by
  have hstart : Heard contentHash s s := ⟨rfl, h.calm, rfl, rfl, fun _ => .inl rfl⟩
  have hall := hstart.fold (fun read hread text htext => h.fresh read.1 text (by
    rw [← Option.mem_def.1 htext]; exact hread)) (h.echoes hechoes)
  exact ⟨hall.pool, hall.conflicts, hall.disk, hall.tracked, hall.diskHash⟩

/-! ### Every step -/

theorem Synced.heard (h : s.Synced contentHash) (hechoes : s.Echoes contentHash) :
    (s.applyDiskChanges contentHash).Synced contentHash := by
  have hheard := h.applyDiskChanges hechoes
  refine ⟨hheard.conflicts, nofun, fun path => ?_, fun path hpath => ?_, fun path d hd => ?_,
    fun path d text hd htext hending => ?_⟩
  · rw [hheard.tracked, hheard.pool]
    exact h.tracked path
  · rw [hheard.pool] at hpath
    rcases hheard.diskHash path with hsame | ⟨hpooled, -⟩
    · rw [hsame]
      exact h.unknown path hpath
    · exact absurd hpooled hpath
  · rw [hheard.pool] at hd
    exact h.placed path d hd
  · rw [hheard.pool] at hd
    rw [hheard.disk] at htext
    rcases hheard.diskHash path with hsame | ⟨-, found, hfound, hrecorded⟩
    · rw [hsame]
      exact h.known path d text hd htext hending
    · rw [htext] at hfound
      cases hfound
      exact hrecorded

/-- Watching the files of the pool writes nothing but what is known of
them. -/
theorem reconcile_spec (contentHash : List Char → UInt64) (s : FileSync) :
    (s.reconcile contentHash).disk = s.disk ∧ (s.reconcile contentHash).pool = s.pool ∧
      (s.reconcile contentHash).reads = s.reads ∧
      (s.conflicts = [] → (s.reconcile contentHash).conflicts = []) ∧
      (∀ path, path ∈ (s.reconcile contentHash).tracked ↔ path ∈ s.pool) := by
  rw [reconcile]
  split
  · next hsame =>
      exact ⟨rfl, rfl, rfl, id, fun path => ⟨fun h => hsame.1 h, fun h => hsame.2 h⟩⟩
  · exact ⟨rfl, rfl, rfl, fun h => by rw [h]; rfl, fun path => Iff.rfl⟩

/-- A file that comes into the pool has its hash seeded, one that goes
has it forgotten. -/
theorem reconcile_diskHash (hunknown : ∀ path, path ∉ s.tracked → s.diskHash path = none)
    (path : String) : (s.reconcile contentHash).diskHash path =
      if path ∈ s.pool then
        if path ∈ s.tracked then s.diskHash path else s.seedHash contentHash path
      else none := by
  rw [reconcile]
  split
  · next hsame =>
      by_cases hpool : path ∈ s.pool
      · rw [if_pos hpool, if_pos (hsame.2 hpool)]
      · rw [if_neg hpool]
        exact hunknown path fun htracked => hpool (hsame.1 htracked)
  · show (if path ∉ s.pool.keys then none else _) = _
    by_cases hpool : path ∈ s.pool
    · have hkeys : ¬ path ∉ s.pool.keys := not_not.2 hpool
      rw [if_neg hkeys, if_pos hpool]
      split
      · rfl
      · next htracked => rw [hunknown path htracked, Option.none_or]
    · have hkeys : path ∉ s.pool.keys := hpool
      rw [if_pos hkeys, if_neg hpool]

theorem Synced.untracked (h : s.Synced contentHash) :
    ∀ path, path ∉ s.tracked → s.diskHash path = none := fun path hpath =>
  h.unknown path fun hpool => hpath ((h.tracked path).2 hpool)

theorem Synced.opened (h : s.Synced contentHash) (path : String) :
    (s.openBuffer contentHash path).Synced contentHash := by
  rw [openBuffer]
  split
  · exact h
  next hnone =>
  generalize hdoc : Document.fromText ((s.disk path).getD []) path = d
  have hnew : path ∉ s.pool := AList.lookup_eq_none.1 hnone
  have hfile : d.filePath = path ∧ d.modified = false := by
    rw [← hdoc]
    exact ⟨rfl, rfl⟩
  let opened : FileSync := { s with pool := s.pool.insert path d }
  obtain ⟨hdisk, hpool, hreads, hconflicts, htracked⟩ := reconcile_spec contentHash opened
  have hhash (other : String) : (opened.reconcile contentHash).diskHash other =
      if other = path then some (contentHash d.rope) else s.diskHash other := by
    rw [reconcile_diskHash (s := opened) h.untracked]
    by_cases hsame : other = path
    · subst hsame
      have hin : other ∈ opened.pool := (AList.mem_insert _).2 (.inl rfl)
      have hout : other ∉ opened.tracked := fun htracked => hnew ((h.tracked other).1 htracked)
      rw [if_pos hin, if_neg hout, if_pos rfl, seedHash, AList.lookup_insert]
      dsimp only
      rw [hfile.2]
      rfl
    · rw [if_neg hsame]
      by_cases hin : other ∈ s.pool
      · have htracked : other ∈ opened.tracked := (h.tracked other).2 hin
        rw [if_pos ((AList.mem_insert _).2 (.inr hin)), if_pos htracked]
      · have hout : other ∉ opened.pool := by
          rw [AList.mem_insert]
          exact not_or.2 ⟨hsame, hin⟩
        rw [if_neg hout, h.unknown other hin]
  refine ⟨hconflicts h.calm, fun other text hread => ?_, fun other => ?_, fun other hother => ?_,
    fun other doc hd => ?_, fun other doc text hd htext hending => ?_⟩
  · rw [hreads] at hread
    rw [hdisk]
    exact h.fresh other text hread
  · rw [htracked, hpool]
  · rw [hpool, AList.mem_insert, not_or] at hother
    rw [hhash, if_neg hother.1]
    exact h.unknown other hother.2
  · rw [hpool] at hd
    by_cases hsame : other = path
    · subst hsame
      rw [AList.lookup_insert] at hd
      cases hd
      exact hfile.1
    · rw [AList.lookup_insert_ne hsame] at hd
      exact h.placed other doc hd
  · rw [hpool] at hd
    rw [hdisk] at htext
    rw [hhash]
    by_cases hsame : other = path
    · subst hsame
      rw [AList.lookup_insert] at hd
      cases hd
      have htext : s.disk other = some text := htext
      rw [← hdoc, htext, Option.getD_some] at hending ⊢
      rw [if_pos rfl, Document.rope_fromText text other hending]
    · rw [if_neg hsame]
      rw [AList.lookup_insert_ne hsame] at hd
      exact h.known other doc text hd htext hending

theorem Synced.closed (h : s.Synced contentHash) (path : String) :
    (s.closeBuffer contentHash path).Synced contentHash := by
  rw [closeBuffer]
  split
  · exact h
  split
  · exact h
  let closed : FileSync := { s with pool := s.pool.erase path }
  obtain ⟨hdisk, hpool, hreads, hconflicts, htracked⟩ :=
    reconcile_spec contentHash closed
  have hhash (other : String) : (closed.reconcile contentHash).diskHash other =
      if other ∈ closed.pool then s.diskHash other else none := by
    rw [reconcile_diskHash (s := closed) h.untracked]
    by_cases hin : other ∈ closed.pool
    · have htracked : other ∈ closed.tracked :=
        (h.tracked other).2 (AList.mem_erase.1 hin).2
      rw [if_pos hin, if_pos htracked, if_pos hin]
    · rw [if_neg hin, if_neg hin]
  have hlookup (other : String) (d : Document Char)
      (hd : closed.pool.lookup other = some d) : s.pool.lookup other = some d := by
    by_cases hsame : other = path
    · subst hsame
      rw [AList.lookup_erase] at hd
      cases hd
    · rw [AList.lookup_erase_ne hsame] at hd
      exact hd
  refine ⟨hconflicts h.calm, fun other text hread => ?_, fun other => ?_, fun other hother => ?_,
    fun other d hd => ?_, fun other d text hd htext hending => ?_⟩
  · rw [hreads] at hread
    rw [hdisk]
    exact h.fresh other text hread
  · rw [htracked, hpool]
  · rw [hpool] at hother
    rw [hhash, if_neg hother]
  · rw [hpool] at hd
    exact h.placed other d (hlookup other d hd)
  · rw [hpool] at hd
    rw [hdisk] at htext
    have hin : other ∈ closed.pool := AList.lookup_isSome.1 (by rw [hd]; rfl)
    rw [hhash, if_pos hin]
    exact h.known other d text (hlookup other d hd) htext hending

/-- A buffer is changed, and with it possibly its file and what is known
of that. -/
theorem Synced.changed {d : Document Char} {path : String} (h : s.Synced contentHash)
    (d' : Document Char) (hd : s.pool.lookup path = some d) (hfile : d'.filePath = path)
    (hpool : s'.pool = s.pool.insert path d') (hconflicts : s'.conflicts = [])
    (htracked : s'.tracked = s.tracked)
    (hfresh : ∀ other text, (other, some text) ∈ s'.reads → s'.disk other = some text)
    (hdisk : ∀ other, other ≠ path → s'.disk other = s.disk other)
    (hhash : ∀ other, other ≠ path → s'.diskHash other = s.diskHash other)
    (hknown : ∀ text, s'.disk path = some text → d'.lineEnding = .lf ∨ '\n' ∉ text →
      s'.diskHash path = some (contentHash text)) : s'.Synced contentHash := by
  have hin : path ∈ s.pool := AList.lookup_isSome.1 (by rw [hd]; rfl)
  have hsamePool (other : String) : other ∈ s'.pool ↔ other ∈ s.pool := by
    rw [hpool, AList.mem_insert]
    constructor
    · rintro (rfl | hother)
      · exact hin
      · exact hother
    · exact .inr
  refine ⟨hconflicts, hfresh, fun other => ?_, fun other hother => ?_, fun other doc hdoc => ?_,
    fun other doc text hdoc htext hending => ?_⟩
  · rw [htracked, hsamePool]
    exact h.tracked other
  · rw [hsamePool] at hother
    rw [hhash other (fun hsame => hother (hsame ▸ hin))]
    exact h.unknown other hother
  · rw [hpool] at hdoc
    by_cases hsame : other = path
    · subst hsame
      rw [AList.lookup_insert] at hdoc
      cases hdoc
      exact hfile
    · rw [AList.lookup_insert_ne hsame] at hdoc
      exact h.placed other doc hdoc
  · rw [hpool] at hdoc
    by_cases hsame : other = path
    · subst hsame
      rw [AList.lookup_insert] at hdoc
      cases hdoc
      exact hknown text htext hending
    · rw [AList.lookup_insert_ne hsame] at hdoc
      rw [hdisk other hsame] at htext
      rw [hhash other hsame]
      exact h.known other doc text hdoc htext hending

theorem Synced.edited (h : s.Synced contentHash) (path : String) (edit : Document.Edit Char) :
    (s.editBuffer path edit).Synced contentHash := by
  rw [editBuffer]
  split
  · exact h
  next d hd =>
  obtain ⟨hfile, hending⟩ := d.sameFile_apply edit
  refine h.changed (d.apply edit) hd (hfile.trans (h.placed path d hd)) rfl h.calm rfl h.fresh (fun _ _ => rfl)
    (fun _ _ => rfl) fun text htext hplain => ?_
  rw [hending] at hplain
  exact h.known path d text hd htext hplain

/-- A write has the hash of what it wrote on record, but for CRLF line
breaks. -/
theorem Synced.written (h : s.Synced contentHash) {path : String} {d : Document Char}
    (hd : s.pool.lookup path = some d) (halone : ∀ read ∈ s.reads, read.1 ≠ path)
    (written : Bool) : (s.writeCoreToDisk contentHash path d written).Synced contentHash := by
  cases written with
  | false => exact h
  | true =>
  have hfile := h.placed path d hd
  refine h.changed (d.savedTo d.filePath) hd hfile rfl h.calm rfl ?_ ?_ ?_ ?_
  · intro other text hread
    have hne : other ≠ d.filePath := by
      rw [hfile]
      exact halone _ hread
    exact (Function.update_of_ne hne _ _).trans (h.fresh other text hread)
  · intro other hne
    rw [← hfile] at hne
    exact Function.update_of_ne hne _ _
  · intro other hne
    rw [← hfile] at hne
    exact Function.update_of_ne hne _ _
  · intro text htext hplain
    show Function.update s.diskHash d.filePath (some (contentHash d.rope)) path = _
    have htext : Function.update s.disk d.filePath (some d.savedText) path = some text := htext
    rw [hfile, Function.update_self] at htext ⊢
    cases htext
    rw [d.savedText_eq hplain]

/-- The user takes what is in the file. -/
theorem Synced.reloaded (h : s.Synced contentHash) (path : String) :
    (s.reloadTheirs contentHash path).Synced contentHash := by
  rw [reloadTheirs]
  split
  · next d text hd htext =>
      have hfile := h.placed path d hd
      refine h.changed (d.replaceText text d.filePath) hd hfile rfl ?_ rfl h.fresh
        (fun _ _ => rfl) ?_ ?_
      · show s.conflicts.filter _ = []
        rw [h.calm]
        rfl
      · intro other hne
        rw [← hfile] at hne
        exact Function.update_of_ne hne _ _
      · intro found hfound _
        show Function.update s.diskHash d.filePath (some (contentHash text)) path = _
        have hfound : s.disk path = some found := hfound
        rw [htext] at hfound
        cases hfound
        rw [hfile, Function.update_self]
  · exact h

theorem Synced.step (h : s.Synced contentHash) {a : Action} (ha : s.Unbroken contentHash a) :
    (s.perform contentHash a).Synced contentHash := by
  obtain ⟨halone, hechoes⟩ := ha
  cases a with
  | openBuffer path => exact h.opened path
  | closeBuffer path => exact h.closed path
  | editBuffer path edit => exact h.edited path edit
  | autosavePath path written =>
      show (s.autosavePath contentHash path written).Synced contentHash
      rw [autosavePath]
      split
      · exact h
      split
      · exact h
      · next d hd =>
          split
          · exact h.written hd halone written
          · exact h
  | saveBuffer path written =>
      show (s.saveBuffer contentHash path written).Synced contentHash
      rw [saveBuffer]
      split
      · exact h
      · next d hd =>
          split
          · exact h
          · exact h.written hd halone written
  | readFile path readable =>
      show (s.readFile path readable).Synced contentHash
      rw [readFile]
      split
      · refine ⟨h.calm, fun other text hread => ?_, h.tracked, h.unknown, h.placed, h.known⟩
        rcases List.mem_append.1 hread with hold | hnew
        · exact h.fresh other text hold
        · obtain ⟨rfl, hcontent⟩ := Prod.mk.inj (List.mem_singleton.1 hnew)
          cases readable with
          | false => cases hcontent
          | true => exact hcontent.symm
      · exact h
  | applyDiskChanges => exact h.heard (hechoes rfl)
  | keepMine path =>
      refine ⟨?_, h.fresh, h.tracked, h.unknown, h.placed, h.known⟩
      show s.conflicts.filter _ = []
      rw [h.calm]
      rfl
  | reloadTheirs path => exact h.reloaded path
  | externalWrite path content => exact halone.elim

/-! ### Runs -/

theorem synced_of_reaches (h : (machine contentHash).Reaches (Unbroken contentHash) s) :
    s.Synced contentHash := by
  refine h.invariant ?_ fun s a s' hsynced ha hstep => ?_
  · rintro _ ⟨disk, rfl⟩
    exact ⟨rfl, nofun, fun _ => ⟨nofun, nofun⟩, fun _ _ => rfl, nofun, nofun⟩
  · cases hstep
    exact hsynced.step ha

/-- While no one else writes, no read is taken for a change of another's
as long as no CRLF line breaks are read; and where they are, unless the
buffer has the very text or the hash is on record, one is. -/
theorem echoes_unheard (h : (machine contentHash).Reaches (Unbroken contentHash) s) :
    s.conflicts = [] ∧
      ((s.applyDiskChanges contentHash).pool = s.pool ∧
        (s.applyDiskChanges contentHash).conflicts = [] ↔ s.Echoes contentHash) := by
  have hsynced := synced_of_reaches h
  refine ⟨hsynced.calm, ?_, fun hechoes => ?_⟩
  · rintro ⟨hpool, hconflicts⟩ ⟨path, content⟩ hread text rfl d hd
    by_contra hnone
    obtain ⟨-, hnone⟩ := not_or.1 hnone
    obtain ⟨-, hnone⟩ := not_or.1 hnone
    obtain ⟨hrope, hnew⟩ := not_or.1 hnone
    have hfresh : ∀ read ∈ s.reads, path = read.1 → ∀ found ∈ read.2, found = text := by
      rintro ⟨other, content⟩ hother hsame found rfl
      cases hsame
      exact Option.some.inj ((hsynced.fresh other found hother).symm.trans
        (hsynced.fresh other text hread))
    obtain ⟨-, hheeded⟩ := heeded_of_mem hsynced.placed hfresh hd hrope hnew hread
    rcases hheeded with hreplaced | hconflict
    · refine hreplaced ?_
      have hsame : (s.reads.foldl (applyDiskChange contentHash) s).pool = s.pool := hpool
      rw [hsame]
      exact hd
    · have hnone : (s.reads.foldl (applyDiskChange contentHash) s).conflicts = [] := hconflicts
      rw [hnone] at hconflict
      cases hconflict
  · have hheard := hsynced.applyDiskChanges hechoes
    exact ⟨hheard.pool, hheard.conflicts⟩

/-- A text of two lines by its length, which tells the two line endings
apart. -/
def sampleHash (text : List Char) : UInt64 := .ofNat text.length

/-- A file with one line break, that or the other way. -/
def sampleDisk (lineBreak : String) : String → Option (List Char) :=
  fun path => if path = "a.md" then some ("a" ++ lineBreak ++ "b").toList else none

/-- The buffer of the file is changed and saved, and what was saved is
read back. -/
def sampleRun : List Action :=
  [.openBuffer "a.md", .editBuffer "a.md" (.beginUndoGroup 0 0),
    .editBuffer "a.md" (.insertChar 0 0 'x'), .editBuffer "a.md" (.endUndoGroup 0 1),
    .autosavePath "a.md" true, .readFile "a.md" true]

theorem echoes_unheard_sample :
    (((machine sampleHash).run (started (sampleDisk "\n")) sampleRun).bind fun s => s.disk "a.md") =
      some "xa\nb".toList ∧
    ∀ s ∈ (machine sampleHash).run (started (sampleDisk "\n")) sampleRun,
      (s.applyDiskChanges sampleHash).pool = s.pool := by
  refine ⟨by decide, fun s hrun => ?_⟩
  have hreaches : (machine sampleHash).Reaches (Unbroken sampleHash) s :=
    .of_run (.start ⟨_, rfl⟩) (by decide) hrun
  have hechoes : ∀ s ∈ (machine sampleHash).run (started (sampleDisk "\n")) sampleRun,
      s.Echoes sampleHash := by decide
  exact ((echoes_unheard hreaches).2.2 (hechoes s hrun)).1

/-- A file with CRLF line breaks that was saved is read back: the buffer
is made anew, and what could be undone is gone. -/
theorem crlf_save_taken_for_change :
    ¬ ∀ (contentHash : List Char → UInt64) (s : FileSync),
      (machine contentHash).Reaches Alone s →
        (s.applyDiskChanges contentHash).pool = s.pool := by
  intro hall
  have hrun : ((machine sampleHash).run (started (sampleDisk "\r\n")) sampleRun).map
      (fun s => ((s.pool.lookup "a.md").map fun d => d.undoStack.length,
        ((s.applyDiskChanges sampleHash).pool.lookup "a.md").map fun d => d.undoStack.length)) =
      some (some 1, some 0) := by decide
  obtain ⟨s, hs, hlengths⟩ := Option.map_eq_some_iff.1 hrun
  rw [hall sampleHash s (.of_run (.start ⟨_, rfl⟩) (by decide) hs)] at hlengths
  obtain ⟨hone, hzero⟩ := Prod.mk.inj hlengths
  rw [hone] at hzero
  cases hzero

end FileSync

end Yaldabaoth
