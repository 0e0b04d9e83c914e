import Mathlib.Data.List.Nodup
import Yaldabaoth.Proofs.Buffer.Echoes

/-!
# `Yaldabaoth.Proofs.Buffer.Changes`: changes of others and edits of one's own

The buffer at one path, the file and everyone who writes it. `Watch` is
what an onlooker would note down about them: the contents that the buffer
was loaded from or saved as, the content that was reported last while it
stays on disk, and whether the buffer has written since the read that
still waits.

A report of a change guards the file by a conflict, is made good by a
reload, or is passed over, which is when the content is the text of the
buffer or has the hash on record. `Fits` says so for every state reached,
and so a save replaces a reported content that the user did not give up
only when the report was passed over. A read that waits while the buffer
is saved is of an older text, and `apply_disk_changes` takes it for a
newer one.
-/

set_option autoImplicit false

namespace Yaldabaoth

namespace FileSync

/-! ### The onlooker -/

/-- What there is to know about the buffer at a path and its file. No code
reads it. -/
structure Watch where
  /-- The contents that the buffer was loaded from or saved as. -/
  seen : List (List Char)
  /-- The content that was reported last, while it stays on disk. -/
  reported : Option (List Char)
  /-- The user chose keep-mine after that report. -/
  kept : Bool
  /-- That report was passed over, and nothing made up for it since. -/
  passedOver : Bool
  /-- What the buffer wrote last. -/
  written : Option (List Char)
  /-- It wrote that behind a read that still waits. -/
  overtaken : Bool
deriving Repr, DecidableEq

namespace Watch

local instance contentLawful : LawfulBEq (List Char) := List.instLawfulBEq

def first : Watch where
  seen := []
  reported := none
  kept := false
  passedOver := false
  written := none
  overtaken := false

/-- The file has this content now. -/
def onDisk (w : Watch) (content : Option (List Char)) : Watch :=
  if w.reported = content then w
  else { w with reported := none, kept := false, passedOver := false }

/-- The buffer was made from a text. -/
def opens (w : Watch) (text : List Char) : Watch :=
  { first with seen := [text], reported := w.reported }

/-- The buffer has what is in the file. -/
def agrees (w : Watch) (text : List Char) : Watch :=
  { w with
      seen := text :: w.seen
      passedOver := w.passedOver && decide (w.reported ≠ some text) }

def writes (w : Watch) (text : List Char) (waits : Bool) : Watch :=
  { (w.onDisk (some text)).agrees text with written := some text, overtaken := waits }

/-- A batch reports a content that is on disk. -/
def reports (w : Watch) (text : List Char) : Watch :=
  if w.reported = some text then w
  else { w with reported := some text, kept := false, passedOver := false }

/-- The report of a content has no effect. -/
def passes (w : Watch) (text : List Char) : Watch :=
  { w with
      passedOver := w.passedOver ||
        (decide (w.reported = some text ∧ text ∉ w.seen) && !w.kept) }

def keeps (w : Watch) : Watch := { w with kept := w.reported.isSome, passedOver := false }

end Watch

section

variable (contentHash : List Char → UInt64) (path : String)

/-- What becomes of one read of the file. -/
def told (s : FileSync) (w : Watch) (text : List Char) : Watch :=
  let w := if s.disk path = some text then w.reports text else w
  match s.pool.lookup path with
  | none => w
  | some d =>
      if s.diskHash path = some (contentHash text) then
        if path ∈ s.conflicts then w else w.passes text
      else if d.rope = text then w.passes text
      else if d.modified then w
      else w.agrees text

/-- A save of the buffer at `path` that goes through. -/
def saves (s : FileSync) (w : Watch) (d : Document Char) : Watch :=
  w.writes d.savedText (decide (path ∈ s.reads.map Prod.fst))

/-- What an onlooker notes down of a step that is taken in `s`. -/
def watch (s : FileSync) (w : Watch) : Action → Watch
  | .openBuffer other =>
      if other = path ∧ s.pool.lookup path = none then w.opens ((s.disk path).getD []) else w
  | .closeBuffer _ => w
  | .editBuffer _ _ => w
  | .autosavePath other written =>
      match s.pool.lookup path with
      | some d =>
          if other = path ∧ written = true ∧ path ∉ s.conflicts ∧ d.modified = true then
            saves path s w d
          else w
      | none => w
  | .saveBuffer other written =>
      match s.pool.lookup path with
      | some d =>
          if other = path ∧ written = true ∧ path ∉ s.conflicts then saves path s w d else w
      | none => w
  | .readFile other _ =>
      if other = path ∧ path ∈ s.tracked then { w with overtaken := false } else w
  | .applyDiskChanges =>
      let w :=
        match s.reads.find? fun read => read.1 = path with
        | some (_, some text) => told contentHash path s w text
        | _ => w
      { w with overtaken := false }
  | .keepMine other => if other = path ∧ path ∈ s.conflicts then w.keeps else w
  | .reloadTheirs other =>
      match s.pool.lookup path, s.disk path with
      | some _, some text => if other = path then w.agrees text else w
      | _, _ => w
  | .externalWrite other content => if other = path then w.onDisk content else w

/-- A batch reads a file once. -/
def ReadsOnce (s : FileSync) : Action → Prop
  | .readFile other _ => other ∉ s.reads.map Prod.fst
  | _ => True

instance (s : FileSync) (a : Action) : Decidable (ReadsOnce s a) := by
  unfold ReadsOnce
  split <;> infer_instance

/-- The runs of the buffers, seen by an onlooker of the buffer at `path`. -/
def watched : Machine (FileSync × Watch) Action :=
  ((machine contentHash).guarded ReadsOnce).observed .first (watch contentHash path)

/-! ### What may go wrong -/

/-- A save of the buffer at `path` replaces a content of the file that a
batch has reported and that is still there, although the buffer was not
loaded from it or saved as it, and the user did not choose keep-mine since
the report. -/
def Clobbers (s : FileSync) (w : Watch) (a : Action) : Prop :=
  (∃ written, a = .autosavePath path written ∨ a = .saveBuffer path written) ∧
    ∃ text, w.reported = some text ∧ (s.perform contentHash a).disk path ≠ some text ∧
      text ∉ w.seen ∧ w.kept = false

/-- A batch puts a text in place of the buffer's that was read before the
buffer was written last, and that is not what was written. -/
def Discards (s : FileSync) (w : Watch) (a : Action) : Prop :=
  a = .applyDiskChanges ∧ w.overtaken = true ∧ ∃ text d, (path, some text) ∈ s.reads ∧
    w.written ≠ some text ∧ s.pool.lookup path = some d ∧
      (s.perform contentHash a).pool.lookup path = some (d.replaceText text path)

/-- A save of another text than the file's, behind a report that was passed
over. -/
def SavesPast (s : FileSync) (w : Watch) (a : Action) : Prop :=
  w.passedOver = true ∧ path ∉ s.conflicts ∧ ∃ d ∈ s.pool.lookup path,
    s.disk path ≠ some d.savedText ∧
      (a = .autosavePath path true ∧ d.modified = true ∨ a = .saveBuffer path true)

/-- A read from before the last save is applied to the buffer, which was
not edited since and has another text, and the hash is not on record. -/
def AppliesLate (s : FileSync) (w : Watch) (a : Action) : Prop :=
  a = .applyDiskChanges ∧ w.overtaken = true ∧ ∃ d ∈ s.pool.lookup path, d.modified = false ∧
    ∃ read ∈ s.reads, read.1 = path ∧ ∃ text ∈ read.2, w.written ≠ some text ∧ d.rope ≠ text ∧
      s.diskHash path ≠ some (contentHash text)

instance (s : FileSync) (w : Watch) (a : Action) : Decidable (SavesPast path s w a) := by
  unfold SavesPast
  infer_instance

instance (s : FileSync) (w : Watch) (a : Action) : Decidable (AppliesLate contentHash path s w a) := by
  unfold AppliesLate
  infer_instance

end

/-! ### One batch -/

section

variable {contentHash : List Char → UInt64} {path : String} {s s' : FileSync} {w w' : Watch}

/-- Every buffer is pooled under its own path. -/
def Placed (s : FileSync) : Prop := ∀ other d, s.pool.lookup other = some d → d.filePath = other

/-- Reads of other files, and reads that failed. -/
theorem foldl_elsewhere {reads : List (String × Option (List Char))} (hplaced : s.Placed)
    (hreads : ∀ read ∈ reads, path ≠ read.1 ∨ read.2 = none) :
    let s' := reads.foldl (applyDiskChange contentHash) s
    s'.pool.lookup path = s.pool.lookup path ∧ s'.diskHash path = s.diskHash path ∧
      (path ∈ s.conflicts → path ∈ s'.conflicts) ∧ s'.Placed := by
  induction reads generalizing s with
  | nil => exact ⟨rfl, rfl, id, hplaced⟩
  | cons read rest ih =>
      have hrest : ∀ other ∈ rest, path ≠ other.1 ∨ other.2 = none :=
        fun other hother => hreads other (List.mem_cons_of_mem _ hother)
      rcases hreads read List.mem_cons_self with hne | hnone
      · obtain ⟨hpool, hhash, hconflict⟩ := @applyDiskChange_elsewhere contentHash s path read
          hplaced hne
        obtain ⟨hpool', hhash', hconflict', hplaced'⟩ := ih (applyDiskChange_placed read hplaced)
          hrest
        exact ⟨hpool'.trans hpool, hhash'.trans hhash, hconflict' ∘ hconflict, hplaced'⟩
      · have hsame : s.applyDiskChange contentHash read = s := by
          rw [applyDiskChange.eq_def, ← Prod.eta read, hnone]
        rw [List.foldl_cons, hsame]
        exact ih hplaced hrest

theorem foldl_disk (reads : List (String × Option (List Char))) :
    (reads.foldl (applyDiskChange contentHash) s).disk = s.disk := by
  induction reads generalizing s with
  | nil => rfl
  | cons read rest ih =>
      rw [List.foldl_cons, ih]
      obtain ⟨other, content⟩ := read
      cases content with
      | none => rfl
      | some text =>
          rw [applyDiskChange]
          dsimp only
          split
          · rfl
          · split
            · rfl
            · split
              · rfl
              · split
                · split <;> rfl
                · rfl

/-- A batch opens no buffer. -/
theorem mem_pool_of_foldl (reads : List (String × Option (List Char))) {s : FileSync}
    (h : path ∈ (reads.foldl (applyDiskChange contentHash) s).pool) : path ∈ s.pool := by
  induction reads generalizing s with
  | nil => exact h
  | cons read rest ih =>
      have hstep := ih h
      obtain ⟨other, content⟩ := read
      cases content with
      | none => exact hstep
      | some text =>
          rw [applyDiskChange] at hstep
          dsimp only at hstep
          split at hstep
          · exact hstep
          split at hstep
          · exact hstep
          next d hd =>
          split at hstep
          · exact hstep
          split at hstep
          · split at hstep <;> exact hstep
          · have hmem : path ∈ s.pool.insert other (d.replaceText text d.filePath) := hstep
            rcases (AList.mem_insert _).1 hmem with rfl | hmem
            · exact AList.lookup_isSome.1 (by rw [hd]; rfl)
            · exact hmem

/-- What becomes of a buffer whose file a batch has read. -/
inductive Applied (contentHash : List Char → UInt64) (path : String) (text : List Char)
    (d : Document Char) (s s' : FileSync) : Prop
  | known : s.diskHash path = some (contentHash text) → s'.pool.lookup path = some d →
      (path ∈ s.conflicts → path ∈ s'.conflicts) → Applied contentHash path text d s s'
  | same : s.diskHash path ≠ some (contentHash text) → d.rope = text →
      s'.pool.lookup path = some d → Applied contentHash path text d s s'
  | conflict : s.diskHash path ≠ some (contentHash text) → d.rope ≠ text → d.modified = true →
      s'.pool.lookup path = some d → path ∈ s'.conflicts → Applied contentHash path text d s s'
  | reload : s.diskHash path ≠ some (contentHash text) → d.rope ≠ text → d.modified = false →
      s'.pool.lookup path = some (d.replaceText text path) →
      Applied contentHash path text d s s'

theorem applyDiskChange_at {text : List Char} {d : Document Char} (hplaced : s.Placed)
    (hd : s.pool.lookup path = some d) :
    Applied contentHash path text d s (s.applyDiskChange contentHash (path, some text)) := by
  rw [applyDiskChange]
  dsimp only
  split
  · next hknown => exact .known hknown hd id
  next hnew =>
  rw [hd]
  dsimp only
  split
  · next hsame => exact .same hnew hsame hd
  next hother =>
  split
  · next hmodified =>
      split
      · next hmem => exact .conflict hnew hother hmodified hd hmem
      · exact .conflict hnew hother hmodified hd
          (List.mem_append_right _ (List.mem_singleton_self _))
  · next hclean =>
      refine .reload hnew hother (Bool.eq_false_iff.2 hclean) ?_
      have hfile := hplaced path d hd
      show (s.pool.insert path (d.replaceText text d.filePath)).lookup path = _
      rw [AList.lookup_insert, hfile]

/-- A batch does to the buffer what its read of the file does. -/
theorem applyDiskChanges_at {text : List Char} {d : Document Char} (hplaced : s.Placed)
    (hsingle : (s.reads.map Prod.fst).Nodup) (hread : (path, some text) ∈ s.reads)
    (hd : s.pool.lookup path = some d) :
    Applied contentHash path text d s (s.applyDiskChanges contentHash) := by
  obtain ⟨front, back, hsplit⟩ := List.append_of_mem hread
  rw [hsplit, List.map_append, List.map_cons, List.nodup_append, List.nodup_cons] at hsingle
  obtain ⟨-, ⟨hback, -⟩, hdisjoint⟩ := hsingle
  have hfront : ∀ read ∈ front, path ≠ read.1 ∨ read.2 = none := by
    intro read hmem
    refine .inl fun heq => ?_
    exact hdisjoint read.1 (List.mem_map_of_mem hmem) path List.mem_cons_self heq.symm
  have hback' : ∀ read ∈ back, path ≠ read.1 ∨ read.2 = none := by
    intro read hmem
    refine .inl fun heq => ?_
    exact hback (List.mem_map.2 ⟨read, hmem, heq.symm⟩)
  -- the reads before and behind it leave the buffer alone
  have hbefore := @foldl_elsewhere contentHash path s front hplaced hfront
  generalize hs₁ : front.foldl (applyDiskChange contentHash) s = s₁ at hbefore
  obtain ⟨hpool₁, hhash₁, hconflict₁, hplaced₁⟩ := hbefore
  have hone : Applied contentHash path text d s₁
      (s₁.applyDiskChange contentHash (path, some text)) :=
    applyDiskChange_at hplaced₁ (hpool₁.trans hd)
  obtain ⟨hpool₂, -, hconflict₂, -⟩ := @foldl_elsewhere contentHash path
    (s₁.applyDiskChange contentHash (path, some text)) back (applyDiskChange_placed _ hplaced₁)
    hback'
  have hall : s.reads.foldl (applyDiskChange contentHash) s = back.foldl
      (applyDiskChange contentHash) (s₁.applyDiskChange contentHash (path, some text)) := by
    rw [hsplit, List.foldl_append, List.foldl_cons, hs₁]
  have hpool : (s.applyDiskChanges contentHash).pool.lookup path =
      (s₁.applyDiskChange contentHash (path, some text)).pool.lookup path := by
    rw [applyDiskChanges, hall]
    exact hpool₂
  have hconflict : path ∈ (s₁.applyDiskChange contentHash (path, some text)).conflicts →
      path ∈ (s.applyDiskChanges contentHash).conflicts := by
    rw [applyDiskChanges, hall]
    exact hconflict₂
  cases hone with
  | known hknown hd' hkept =>
      exact .known (hhash₁ ▸ hknown) (hpool.trans hd') fun hmem => hconflict (hkept (hconflict₁ hmem))
  | same hnew hsame hd' => exact .same (hhash₁ ▸ hnew) hsame (hpool.trans hd')
  | conflict hnew hother hmodified hd' hmem =>
      exact .conflict (hhash₁ ▸ hnew) hother hmodified (hpool.trans hd') (hconflict hmem)
  | reload hnew hother hclean hd' => exact .reload (hhash₁ ▸ hnew) hother hclean (hpool.trans hd')

/-! ### The invariant -/

/-- A reported content is guarded by a conflict, unless the buffer has
seen it, the user gave it up or it was passed over. -/
structure Sound (w : Watch) (pooled conflicted : Prop) : Prop where
  guarded : ∀ text, w.reported = some text → pooled →
    text ∈ w.seen ∨ w.kept = true ∨ w.passedOver = true ∨ conflicted
  owed : w.passedOver = true → ∃ text, w.reported = some text ∧ text ∉ w.seen ∧ w.kept = false

/-- What holds of the buffers, the files and the onlooker. -/
structure Fits (path : String) (s : FileSync) (w : Watch) : Prop where
  placed : s.Placed
  single : (s.reads.map Prod.fst).Nodup
  standing : ∀ text, w.reported = some text → s.disk path = some text
  pending : ∀ text found, w.reported = some text → (path, some found) ∈ s.reads → found = text
  sound : Sound w (path ∈ s.pool) (path ∈ s.conflicts)

section sound

variable {pooled pooled' conflicted conflicted' : Prop} {text : List Char}

theorem Sound.imp (h : Sound w pooled conflicted) (hpooled : pooled' → pooled)
    (hconflict : conflicted → conflicted') : Sound w pooled' conflicted' where
  guarded text htext hin := by
    rcases h.guarded text htext (hpooled hin) with hseen | hkept | hpassed | hguard
    · exact .inl hseen
    · exact .inr (.inl hkept)
    · exact .inr (.inr (.inl hpassed))
    · exact .inr (.inr (.inr (hconflict hguard)))
  owed := h.owed

/-- Where nothing is reported, nothing has to be guarded. -/
theorem Sound.of_none (hreported : w.reported = none) (hpassed : w.passedOver = false) :
    Sound w pooled conflicted where
  guarded text htext := by
    rw [hreported] at htext
    cases htext
  owed hyes := by
    rw [hpassed] at hyes
    cases hyes

theorem Sound.onDisk (h : Sound w pooled conflicted) (content : Option (List Char)) :
    Sound (w.onDisk content) pooled conflicted := by
  rw [Watch.onDisk]
  split
  · exact h
  · exact .of_none rfl rfl

/-- A buffer that has what is in the file needs no guard. -/
theorem Sound.agrees (h : Sound w pooled conflicted)
    (hsame : ∀ found, w.reported = some found → found = text) :
    Sound (w.agrees text) pooled' conflicted' where
  guarded found hfound _ := by
    rw [hsame found hfound]
    exact .inl List.mem_cons_self
  owed hyes := by
    obtain ⟨hpassed, hother⟩ := (Bool.and_eq_true _ _).mp hyes
    obtain ⟨found, hfound, -⟩ := h.owed hpassed
    rw [hfound, hsame found hfound] at hother
    exact absurd rfl (of_decide_eq_true hother)

theorem Sound.passes (h : Sound w pooled conflicted)
    (hsame : ∀ found, w.reported = some found → found = text) :
    Sound (w.passes text) pooled' conflicted' where
  guarded found hfound _ := by
    have hreported : w.reported = some found := hfound
    have htext : found = text := hsame found hreported
    rw [htext] at hreported ⊢
    by_cases hseen : text ∈ w.seen
    · exact .inl hseen
    · cases hkept : w.kept with
      | true => exact .inr (.inl hkept)
      | false =>
          refine .inr (.inr (.inl ?_))
          simp [Watch.passes, hreported, hseen, hkept]
  owed hyes := by
    rcases (Bool.or_eq_true _ _).mp hyes with hpassed | hnow
    · exact h.owed hpassed
    · obtain ⟨hnow, hkept⟩ := (Bool.and_eq_true _ _).mp hnow
      obtain ⟨hreported, hseen⟩ := of_decide_eq_true hnow
      exact ⟨text, hreported, hseen, Bool.not_eq_true' _ ▸ hkept⟩

/-- A report is of the content that is standing, or of a new one. -/
theorem Sound.reports (h : Sound w pooled conflicted) (hguard : conflicted') :
    Sound (w.reports text) pooled' conflicted' := by
  rw [Watch.reports]
  split
  · exact ⟨fun _ _ _ => .inr (.inr (.inr hguard)), h.owed⟩
  · refine ⟨fun _ _ _ => .inr (.inr (.inr hguard)), fun hyes => ?_⟩
    cases hyes

theorem Sound.keeps : Sound w.keeps pooled conflicted where
  guarded text htext _ := by
    refine .inr (.inl ?_)
    have htext : w.reported = some text := htext
    simp [Watch.keeps, htext]
  owed hyes := by cases hyes

theorem Sound.opens (hsame : ∀ found, w.reported = some found → found = text) :
    Sound (w.opens text) pooled conflicted where
  guarded found hfound _ := by
    rw [hsame found hfound]
    exact .inl List.mem_cons_self
  owed hyes := by cases hyes

theorem reported_onDisk {content : Option (List Char)} {found : List Char}
    (h : (w.onDisk content).reported = some found) : w.reported = some found ∧
      content = some found := by
  rw [Watch.onDisk] at h
  split at h
  · next hsame => exact ⟨h, hsame ▸ h⟩
  · cases h

end sound

/-! ### Every step -/

/-- A save that goes through, of the buffer at the path or of another. -/
theorem Fits.saved (h : Fits path s w) {other : String} {d : Document Char}
    (hd : s.pool.lookup other = some d) :
    Fits path (s.writeCoreToDisk contentHash other d true)
      (if other = path then saves path s w d else w) := by
  have hfile : d.filePath = other := h.placed other d hd
  have hin : other ∈ s.pool := AList.lookup_isSome.1 (by rw [hd]; rfl)
  have hpool : path ∈ (s.pool.insert other (d.savedTo d.filePath)) ↔ path ∈ s.pool := by
    rw [AList.mem_insert]
    refine or_iff_right_of_imp fun hsame => ?_
    rw [hsame]
    exact hin
  have hplaced : (s.writeCoreToDisk contentHash other d true).Placed := by
    intro found d' hd'
    have hlookup : (s.pool.insert other (d.savedTo d.filePath)).lookup found = some d' := hd'
    by_cases hsame : found = other
    · rw [hsame, AList.lookup_insert] at hlookup
      cases hlookup
      rw [hsame]
      exact hfile
    · rw [AList.lookup_insert_ne hsame] at hlookup
      exact h.placed found d' hlookup
  by_cases hother : other = path
  · subst hother
    rw [if_pos rfl]
    have hdisk : (s.writeCoreToDisk contentHash other d true).disk other = some d.savedText := by
      show Function.update s.disk d.filePath (some d.savedText) other = _
      rw [hfile, Function.update_self]
    -- what is still reported is what was written
    have hreported : ∀ text, (saves other s w d).reported = some text →
        w.reported = some text ∧ text = d.savedText := by
      intro text htext
      obtain ⟨hold, hnew⟩ := reported_onDisk htext
      exact ⟨hold, (Option.some.inj hnew).symm⟩
    refine ⟨hplaced, h.single, fun text htext => ?_, fun text found htext hfound => ?_, ?_⟩
    · rw [hdisk, (hreported text htext).2]
    · exact h.pending text found (hreported text htext).1 hfound
    · have hagrees : Sound ((w.onDisk (some d.savedText)).agrees d.savedText) True True :=
        (h.sound.onDisk (some d.savedText)).agrees
          fun found hfound => (Option.some.inj (reported_onDisk hfound).2).symm
      exact ⟨fun text htext _ => (hreported text htext).2 ▸ .inl List.mem_cons_self, hagrees.owed⟩
  · rw [if_neg hother]
    refine ⟨hplaced, h.single, fun text htext => ?_, h.pending, h.sound.imp hpool.1 id⟩
    show Function.update s.disk d.filePath (some d.savedText) path = _
    rw [hfile, Function.update_of_ne (Ne.symm hother)]
    exact h.standing text htext

/-- Watching the files of the pool forgets no conflict of a buffer. -/
theorem reconcile_conflicts {s : FileSync} (hconflict : path ∈ s.conflicts) (hin : path ∈ s.pool) :
    path ∈ (s.reconcile contentHash).conflicts := by
  rw [reconcile]
  split
  · exact hconflict
  · exact List.mem_filter.2 ⟨hconflict, decide_eq_true hin⟩

theorem Fits.opened (h : Fits path s w) (other : String) :
    Fits path (s.openBuffer contentHash other)
      (watch contentHash path s w (.openBuffer other)) := by
  rw [openBuffer, watch]
  split
  · next d hd =>
      rw [if_neg]
      · exact h
      · rintro ⟨rfl, hnone⟩
        rw [hd] at hnone
        cases hnone
  next hnone =>
  generalize hdoc : Document.fromText ((s.disk other).getD []) other = d
  have hfile : d.filePath = other := by rw [← hdoc]; rfl
  generalize hpooled : ({ s with pool := s.pool.insert other d } : FileSync) = s₁
  obtain ⟨hdisk, hpool, hreads, -, -⟩ := s₁.reconcile_spec contentHash
  have hdisk' : (s₁.reconcile contentHash).disk = s.disk := by rw [hdisk, ← hpooled]
  have hreads' : (s₁.reconcile contentHash).reads = s.reads := by rw [hreads, ← hpooled]
  have hpool' : (s₁.reconcile contentHash).pool = s.pool.insert other d := by rw [hpool, ← hpooled]
  have hplaced : (s₁.reconcile contentHash).Placed := by
    intro found d' hd'
    rw [hpool'] at hd'
    by_cases hsame : found = other
    · rw [hsame, AList.lookup_insert] at hd'
      cases hd'
      rw [hsame]
      exact hfile
    · rw [AList.lookup_insert_ne hsame] at hd'
      exact h.placed found d' hd'
  by_cases hother : other = path
  · subst hother
    rw [if_pos ⟨rfl, hnone⟩]
    refine ⟨hplaced, hreads' ▸ h.single, fun text htext => ?_, fun text found htext hfound => ?_, ?_⟩
    · rw [hdisk']
      exact h.standing text htext
    · rw [hreads'] at hfound
      exact h.pending text found htext hfound
    · refine Sound.opens fun found hfound => ?_
      rw [h.standing found hfound]
      rfl
  · rw [if_neg fun hboth => hother hboth.1]
    refine ⟨hplaced, hreads' ▸ h.single, fun text htext => ?_, fun text found htext hfound => ?_, ?_⟩
    · rw [hdisk']
      exact h.standing text htext
    · rw [hreads'] at hfound
      exact h.pending text found htext hfound
    · have hin : path ∈ (s₁.reconcile contentHash).pool → path ∈ s.pool := by
        rw [hpool', AList.mem_insert]
        exact fun hmem => hmem.resolve_left fun hsame => hother hsame.symm
      refine ⟨fun text htext hmem => ?_, h.sound.owed⟩
      rcases h.sound.guarded text htext (hin hmem) with hseen | hkept | hpassed | hguard
      · exact .inl hseen
      · exact .inr (.inl hkept)
      · exact .inr (.inr (.inl hpassed))
      · refine .inr (.inr (.inr (reconcile_conflicts ?_ ?_)))
        · rw [← hpooled]
          exact hguard
        · rw [hpool] at hmem
          exact hmem

theorem Fits.closed (h : Fits path s w) (other : String) :
    Fits path (s.closeBuffer contentHash other) w := by
  rw [closeBuffer]
  split
  · exact h
  split
  · exact h
  next d hd _ =>
  generalize hpooled : ({ s with pool := s.pool.erase other } : FileSync) = s₁
  obtain ⟨hdisk, hpool, hreads, -, -⟩ := s₁.reconcile_spec contentHash
  have hdisk' : (s₁.reconcile contentHash).disk = s.disk := by rw [hdisk, ← hpooled]
  have hreads' : (s₁.reconcile contentHash).reads = s.reads := by rw [hreads, ← hpooled]
  have hpool' : (s₁.reconcile contentHash).pool = s.pool.erase other := by rw [hpool, ← hpooled]
  refine ⟨fun found d' hd' => ?_, hreads' ▸ h.single, fun text htext => ?_,
    fun text found htext hfound => ?_, fun text htext hmem => ?_, h.sound.owed⟩
  · rw [hpool'] at hd'
    by_cases hsame : found = other
    · rw [hsame, AList.lookup_erase] at hd'
      cases hd'
    · rw [AList.lookup_erase_ne hsame] at hd'
      exact h.placed found d' hd'
  · rw [hdisk']
    exact h.standing text htext
  · rw [hreads'] at hfound
    exact h.pending text found htext hfound
  · have hin : path ∈ s.pool := by
      rw [hpool'] at hmem
      exact (AList.mem_erase.1 hmem).2
    rcases h.sound.guarded text htext hin with hseen | hkept | hpassed | hguard
    · exact .inl hseen
    · exact .inr (.inl hkept)
    · exact .inr (.inr (.inl hpassed))
    · refine .inr (.inr (.inr (reconcile_conflicts ?_ ?_)))
      · rw [← hpooled]
        exact hguard
      · rw [hpool] at hmem
        exact hmem

theorem Fits.edited (h : Fits path s w) (other : String) (edit : Document.Edit Char) :
    Fits path (s.editBuffer other edit) w := by
  rw [editBuffer]
  split
  · exact h
  next d hd =>
  have hin : other ∈ s.pool := AList.lookup_isSome.1 (by rw [hd]; rfl)
  refine ⟨fun found d' hd' => ?_, h.single, h.standing, h.pending, h.sound.imp ?_ id⟩
  · have hlookup : (s.pool.insert other (d.apply edit)).lookup found = some d' := hd'
    by_cases hsame : found = other
    · rw [hsame, AList.lookup_insert] at hlookup
      cases hlookup
      rw [hsame]
      exact (d.sameFile_apply edit).1.trans (h.placed other d hd)
    · rw [AList.lookup_insert_ne hsame] at hlookup
      exact h.placed found d' hlookup
  · intro hmem
    have hmem : path ∈ s.pool.insert other (d.apply edit) := hmem
    rw [AList.mem_insert] at hmem
    rcases hmem with rfl | hmem
    · exact hin
    · exact hmem

/-- A read of the file is applied. -/
theorem Fits.told (h : Fits path s w) {text : List Char} (hread : (path, some text) ∈ s.reads) :
    (∀ found, (told contentHash path s w text).reported = some found →
        s.disk path = some found) ∧
      Sound (told contentHash path s w text) (path ∈ (s.applyDiskChanges contentHash).pool)
        (path ∈ (s.applyDiskChanges contentHash).conflicts) := by
  rw [FileSync.told]
  generalize hw₁ : (if s.disk path = some text then w.reports text else w) = w₁
  -- what is standing is what was read
  have hstanding : ∀ found, w₁.reported = some found →
      s.disk path = some found ∧ found = text := by
    intro found hfound
    rw [← hw₁] at hfound
    split at hfound
    · next hdisk =>
        have hreported : (w.reports text).reported = some text := by
          rw [Watch.reports]
          split
          · next hsame => exact hsame
          · rfl
        rw [hreported] at hfound
        cases hfound
        exact ⟨hdisk, rfl⟩
    · exact ⟨h.standing found hfound, (h.pending found text hfound hread).symm⟩
  have hsame : ∀ found, w₁.reported = some found → found = text :=
    fun found hfound => (hstanding found hfound).2
  have hguard : ∀ pooled conflicted : Prop, conflicted → Sound w₁ pooled conflicted := by
    intro pooled conflicted hconflict
    rw [← hw₁]
    split
    · exact h.sound.reports hconflict
    · exact ⟨fun _ _ _ => .inr (.inr (.inr hconflict)), h.sound.owed⟩
  have hsound := hguard True True trivial
  cases hd : s.pool.lookup path with
  | none =>
      have hgone : path ∉ (s.applyDiskChanges contentHash).pool :=
        fun hin => AList.lookup_eq_none.1 hd (mem_pool_of_foldl s.reads hin)
      exact ⟨fun found hfound => (hstanding found hfound).1,
        fun _ _ hin => absurd hin hgone, hsound.owed⟩
  | some d =>
      dsimp only
      cases applyDiskChanges_at h.placed h.single hread hd with
      | known hknown hd' hkept =>
          rw [if_pos hknown]
          split
          · next hconflict =>
              exact ⟨fun found hfound => (hstanding found hfound).1,
                hguard _ _ (hkept hconflict)⟩
          · exact ⟨fun found hfound => (hstanding found hfound).1, hsound.passes hsame⟩
      | same hnew hrope hd' =>
          rw [if_neg hnew, if_pos hrope]
          exact ⟨fun found hfound => (hstanding found hfound).1, hsound.passes hsame⟩
      | conflict hnew hrope hmodified hd' hconflict =>
          rw [if_neg hnew, if_neg hrope, if_pos hmodified]
          exact ⟨fun found hfound => (hstanding found hfound).1, hguard _ _ hconflict⟩
      | reload hnew hrope hclean hd' =>
          rw [if_neg hnew, if_neg hrope, if_neg (by rw [hclean]; exact Bool.false_ne_true)]
          exact ⟨fun found hfound => (hstanding found hfound).1, hsound.agrees hsame⟩

/-- A batch is applied. -/
theorem Fits.applied (h : Fits path s w) :
    Fits path (s.applyDiskChanges contentHash)
      (watch contentHash path s w .applyDiskChanges) := by
  have hplaced : (s.applyDiskChanges contentHash).Placed := by
    have hall : ∀ (reads : List (String × Option (List Char))) (s : FileSync), s.Placed →
        (reads.foldl (applyDiskChange contentHash) s).Placed := by
      intro reads
      induction reads with
      | nil => exact fun _ h => h
      | cons read rest ih => exact fun s h => ih _ (applyDiskChange_placed read h)
    exact hall s.reads s h.placed
  have hdone : ∀ w : Watch, (∀ text, w.reported = some text → s.disk path = some text) →
      Sound w (path ∈ (s.applyDiskChanges contentHash).pool)
        (path ∈ (s.applyDiskChanges contentHash).conflicts) →
      Fits path (s.applyDiskChanges contentHash) { w with overtaken := false } := by
    intro w hstanding hsound
    refine ⟨hplaced, List.nodup_nil, fun text htext => ?_, nofun, hsound.guarded, hsound.owed⟩
    show (s.reads.foldl (applyDiskChange contentHash) s).disk path = some text
    rw [foldl_disk]
    exact hstanding text htext
  -- without a content of the file, the buffer and its conflict stay
  have hnothing : (∀ read ∈ s.reads, path ≠ read.1 ∨ read.2 = none) →
      Fits path (s.applyDiskChanges contentHash) { w with overtaken := false } := by
    intro hreads
    obtain ⟨-, -, hconflict, -⟩ := @foldl_elsewhere contentHash path s s.reads h.placed hreads
    exact hdone w h.standing (h.sound.imp (mem_pool_of_foldl s.reads) hconflict)
  rw [watch]
  cases hfind : s.reads.find? fun read => read.1 = path with
  | none =>
      refine hnothing fun read hread => .inl fun hsame => ?_
      have := List.find?_eq_none.1 hfind read hread
      exact this (decide_eq_true hsame.symm)
  | some read =>
      obtain ⟨other, content⟩ := read
      have hsome := List.find?_some hfind
      have hother : other = path := of_decide_eq_true hsome
      subst hother
      have hread := List.mem_of_find?_eq_some hfind
      cases content with
      | some text =>
          exact hdone (FileSync.told contentHash other s w text) (h.told hread).1 (h.told hread).2
      | none =>
          refine hnothing fun read hmem => ?_
          by_cases hsame : other = read.1
          · -- a file is read once
            have hone : read = (other, none) :=
              List.inj_on_of_nodup_map h.single hmem hread hsame.symm
            rw [hone]
            exact .inr rfl
          · exact .inl hsame

theorem Fits.autosaved (h : Fits path s w) (other : String) (written : Bool) :
    Fits path (s.autosavePath contentHash other written)
      (watch contentHash path s w (.autosavePath other written)) := by
  by_cases hgoes : written = true ∧ other ∉ s.conflicts ∧
      ∃ d, s.pool.lookup other = some d ∧ d.modified = true
  · obtain ⟨rfl, hfree, d, hd, hmodified⟩ := hgoes
    have hwatch : watch contentHash path s w (.autosavePath other true) =
        if other = path then saves path s w d else w := by
      rw [watch]
      by_cases hother : other = path
      · subst hother
        simp only [hd, hfree, hmodified, not_false_eq_true, and_self, if_true]
      · split
        · simp only [hother, false_and, if_false]
        · rw [if_neg hother]
    rw [hwatch, autosavePath, if_neg hfree, hd]
    dsimp only
    rw [if_pos hmodified]
    exact h.saved hd
  · have hwatch : watch contentHash path s w (.autosavePath other written) = w := by
      rw [watch]
      split
      · next d hd =>
          rw [if_neg]
          rintro ⟨rfl, hwritten, hfree, hmodified⟩
          exact hgoes ⟨hwritten, hfree, d, hd, hmodified⟩
      · rfl
    have hsame : s.autosavePath contentHash other written = s := by
      rw [autosavePath]
      split
      · rfl
      next hfree =>
      split
      · rfl
      next d hd =>
      split
      · next hmodified =>
          cases written with
          | false => rfl
          | true => exact absurd ⟨rfl, hfree, d, hd, hmodified⟩ hgoes
      · rfl
    rw [hwatch, hsame]
    exact h

theorem Fits.userSaved (h : Fits path s w) (other : String) (written : Bool) :
    Fits path (s.saveBuffer contentHash other written)
      (watch contentHash path s w (.saveBuffer other written)) := by
  by_cases hgoes : written = true ∧ other ∉ s.conflicts ∧ ∃ d, s.pool.lookup other = some d
  · obtain ⟨rfl, hfree, d, hd⟩ := hgoes
    have hwatch : watch contentHash path s w (.saveBuffer other true) =
        if other = path then saves path s w d else w := by
      rw [watch]
      by_cases hother : other = path
      · subst hother
        simp only [hd, hfree, not_false_eq_true, and_self, if_true]
      · split
        · simp only [hother, false_and, if_false]
        · rw [if_neg hother]
    have hfile : d.filePath ∉ s.conflicts := by
      rw [h.placed other d hd]
      exact hfree
    rw [hwatch, saveBuffer, hd]
    dsimp only
    rw [if_neg hfile]
    exact h.saved hd
  · have hwatch : watch contentHash path s w (.saveBuffer other written) = w := by
      rw [watch]
      split
      · next d hd =>
          rw [if_neg]
          rintro ⟨rfl, hwritten, hfree⟩
          exact hgoes ⟨hwritten, hfree, d, hd⟩
      · rfl
    have hsame : s.saveBuffer contentHash other written = s := by
      rw [saveBuffer]
      split
      · rfl
      next d hd =>
      split
      · rfl
      next hfree =>
      cases written with
      | false => rfl
      | true =>
          rw [h.placed other d hd] at hfree
          exact absurd ⟨rfl, hfree, d, hd⟩ hgoes
    rw [hwatch, hsame]
    exact h

/-- The user takes what is in the file. -/
theorem Fits.reloaded (h : Fits path s w) (other : String) :
    Fits path (s.reloadTheirs contentHash other)
      (watch contentHash path s w (.reloadTheirs other)) := by
  by_cases hgoes : ∃ d text, s.pool.lookup other = some d ∧ s.disk other = some text
  · obtain ⟨d, text, hd, htext⟩ := hgoes
    have hfile : d.filePath = other := h.placed other d hd
    have hin : other ∈ s.pool := AList.lookup_isSome.1 (by rw [hd]; rfl)
    have hperform : s.reloadTheirs contentHash other = s.reloadCore contentHash other d text := by
      rw [reloadTheirs, hd, htext]
    have hplaced : (s.reloadCore contentHash other d text).Placed := by
      intro found d' hd'
      have hlookup : (s.pool.insert other (d.replaceText text d.filePath)).lookup found =
          some d' := hd'
      by_cases hsame : found = other
      · rw [hsame, AList.lookup_insert] at hlookup
        cases hlookup
        rw [hsame]
        exact hfile
      · rw [AList.lookup_insert_ne hsame] at hlookup
        exact h.placed found d' hlookup
    rw [hperform]
    by_cases hother : other = path
    · subst hother
      have hwatch : watch contentHash other s w (.reloadTheirs other) = w.agrees text := by
        rw [watch, hd, htext]
        exact if_pos rfl
      rw [hwatch]
      refine ⟨hplaced, h.single, h.standing, h.pending, h.sound.agrees fun found hfound => ?_⟩
      have hdisk := h.standing found hfound
      rw [htext] at hdisk
      exact (Option.some.inj hdisk).symm
    · have hwatch : watch contentHash path s w (.reloadTheirs other) = w := by
        rw [watch]
        split
        · rw [if_neg hother]
        · rfl
      rw [hwatch]
      refine ⟨hplaced, h.single, h.standing, h.pending, h.sound.imp ?_ ?_⟩
      · intro hmem
        have hmem : path ∈ s.pool.insert other (d.replaceText text d.filePath) := hmem
        exact ((AList.mem_insert _).1 hmem).resolve_left fun hsame => hother hsame.symm
      · intro hconflict
        refine List.mem_filter.2 ⟨hconflict, decide_eq_true ?_⟩
        rw [hfile]
        exact fun hsame => hother hsame.symm
  · have hsame : s.reloadTheirs contentHash other = s := by
      rw [reloadTheirs]
      split
      · next d text hd htext => exact absurd ⟨d, text, hd, htext⟩ hgoes
      · rfl
    have hwatch : watch contentHash path s w (.reloadTheirs other) = w := by
      rw [watch]
      split
      · next d text hd htext =>
          rw [if_neg]
          rintro rfl
          exact hgoes ⟨d, text, hd, htext⟩
      · rfl
    rw [hsame, hwatch]
    exact h

theorem Fits.step (h : Fits path s w) {a : Action} (hok : ReadsOnce s a) :
    Fits path (s.perform contentHash a) (watch contentHash path s w a) := by
  cases a with
  | openBuffer other => exact h.opened other
  | closeBuffer other => exact h.closed other
  | editBuffer other edit => exact h.edited other edit
  | autosavePath other written => exact h.autosaved other written
  | saveBuffer other written => exact h.userSaved other written
  | applyDiskChanges => exact h.applied
  | reloadTheirs other => exact h.reloaded other
  | readFile other readable =>
      -- the flag is none of the invariant's
      have hflag : Fits path (s.readFile other readable) w := by
        rw [readFile]
        split
        · refine ⟨h.placed, ?_, h.standing, fun text found htext hfound => ?_, h.sound⟩
          · rw [List.map_append, List.map_cons, List.map_nil]
            exact List.nodup_append.2 ⟨h.single, List.nodup_singleton _, by
              intro name hname _ hlast hsame
              have hname' : name = other := hsame.trans (List.mem_singleton.1 hlast)
              exact hok (hname' ▸ hname)⟩
          · rcases List.mem_append.1 hfound with hold | hnew
            · exact h.pending text found htext hold
            · obtain ⟨rfl, hcontent⟩ := Prod.mk.inj (List.mem_singleton.1 hnew)
              cases readable with
              | false => cases hcontent
              | true =>
                  have hdisk : some found = s.disk path := hcontent
                  rw [h.standing text htext] at hdisk
                  exact Option.some.inj hdisk
        · exact h
      show Fits path (s.readFile other readable) _
      rw [watch]
      split
      · exact ⟨hflag.placed, hflag.single, hflag.standing, hflag.pending,
          hflag.sound.guarded, hflag.sound.owed⟩
      · exact hflag
  | keepMine other =>
      show Fits path (s.keepMine other) _
      rw [watch]
      split
      · exact ⟨h.placed, h.single, h.standing, h.pending, .keeps⟩
      next hnot =>
      refine ⟨h.placed, h.single, h.standing, h.pending, h.sound.imp id fun hconflict => ?_⟩
      refine List.mem_filter.2 ⟨hconflict, decide_eq_true fun hsame => ?_⟩
      exact hnot ⟨hsame.symm, hconflict⟩
  | externalWrite other content =>
      rw [watch]
      split
      · next hother =>
          subst hother
          refine ⟨h.placed, h.single, fun text htext => ?_, fun text found htext hfound => ?_,
            h.sound.onDisk content⟩
          · show Function.update s.disk other content other = some text
            rw [Function.update_self]
            exact (reported_onDisk htext).2
          · exact h.pending text found (reported_onDisk htext).1 hfound
      · next hother =>
          refine ⟨h.placed, h.single, fun text htext => ?_, h.pending, h.sound⟩
          show Function.update s.disk other content path = some text
          rw [Function.update_of_ne (Ne.symm hother)]
          exact h.standing text htext

theorem fits_of_reachable {sw : FileSync × Watch}
    (h : (watched contentHash path).Reachable sw) : Fits path sw.1 sw.2 := by
  refine Machine.Reaches.invariant (P := fun sw => Fits path sw.1 sw.2) ?_ ?_ h
  · rintro ⟨s, w⟩ ⟨⟨disk, hstart⟩, hfirst⟩
    have hs : s = started disk := hstart
    have hw : w = .first := hfirst
    subst hs hw
    exact ⟨nofun, List.nodup_nil, nofun, nofun, .of_none rfl rfl⟩
  · rintro ⟨s, w⟩ a sw' hfits - hstep
    obtain ⟨s', hs', rfl⟩ := Option.map_eq_some_iff.1 hstep
    obtain ⟨hok, hs'⟩ := Option.ite_none_right_eq_some.1 hs'
    cases hs'
    exact hfits.step hok

/-! ### When it goes wrong -/

/-- A save replaces what others wrote exactly when it goes past a report
that was passed over. -/
theorem Fits.clobbers_iff (h : Fits path s w) (a : Action) :
    Clobbers contentHash path s w a ↔ SavesPast path s w a := by
  have hsaved : ∀ d, s.pool.lookup path = some d →
      (s.writeCoreToDisk contentHash path d true).disk path = some d.savedText := by
    intro d hd
    show Function.update s.disk d.filePath (some d.savedText) path = _
    rw [h.placed path d hd, Function.update_self]
  constructor
  · rintro ⟨⟨written, hsave⟩, text, hreported, hreplaced, hunseen, hungiven⟩
    have hdisk := h.standing text hreported
    rcases hsave with rfl | rfl
    · have hreplaced : (s.autosavePath contentHash path written).disk path ≠ some text := hreplaced
      rw [autosavePath] at hreplaced
      split at hreplaced
      · exact absurd hdisk hreplaced
      next hfree =>
      split at hreplaced
      · exact absurd hdisk hreplaced
      next d hd =>
      split at hreplaced
      · next hmodified =>
          cases written with
          | false => exact absurd hdisk hreplaced
          | true =>
              rw [hsaved d hd] at hreplaced
              have hin : path ∈ s.pool := AList.lookup_isSome.1 (by rw [hd]; rfl)
              have hpassed : w.passedOver = true := by
                rcases h.sound.guarded text hreported hin with hseen | hkept | hpassed | hguard
                · exact absurd hseen hunseen
                · rw [hungiven] at hkept
                  cases hkept
                · exact hpassed
                · exact absurd hguard hfree
              refine ⟨hpassed, hfree, d, hd, ?_, .inl ⟨rfl, hmodified⟩⟩
              rw [hdisk]
              exact fun hsame => hreplaced hsame.symm
      · exact absurd hdisk hreplaced
    · have hreplaced : (s.saveBuffer contentHash path written).disk path ≠ some text := hreplaced
      rw [saveBuffer] at hreplaced
      split at hreplaced
      · exact absurd hdisk hreplaced
      next d hd =>
      rw [h.placed path d hd] at hreplaced
      split at hreplaced
      · exact absurd hdisk hreplaced
      next hfree =>
      cases written with
      | false => exact absurd hdisk hreplaced
      | true =>
          rw [hsaved d hd] at hreplaced
          have hin : path ∈ s.pool := AList.lookup_isSome.1 (by rw [hd]; rfl)
          have hpassed : w.passedOver = true := by
            rcases h.sound.guarded text hreported hin with hseen | hkept | hpassed | hguard
            · exact absurd hseen hunseen
            · rw [hungiven] at hkept
              cases hkept
            · exact hpassed
            · exact absurd hguard hfree
          refine ⟨hpassed, hfree, d, hd, ?_, .inr rfl⟩
          rw [hdisk]
          exact fun hsame => hreplaced hsame.symm
  · rintro ⟨hpassed, hfree, d, hd, hother, hsave⟩
    have hd : s.pool.lookup path = some d := hd
    obtain ⟨text, hreported, hunseen, hungiven⟩ := h.sound.owed hpassed
    rw [h.standing text hreported] at hother
    rcases hsave with ⟨rfl, hmodified⟩ | rfl
    · refine ⟨⟨true, .inl rfl⟩, text, hreported, ?_, hunseen, hungiven⟩
      have hperform : s.perform contentHash (.autosavePath path true) =
          s.writeCoreToDisk contentHash path d true := by
        show s.autosavePath contentHash path true = _
        rw [autosavePath, if_neg hfree, hd]
        exact if_pos hmodified
      rw [hperform, hsaved d hd]
      exact fun hsame => hother hsame.symm
    · refine ⟨⟨true, .inr rfl⟩, text, hreported, ?_, hunseen, hungiven⟩
      have hperform : s.perform contentHash (.saveBuffer path true) =
          s.writeCoreToDisk contentHash path d true := by
        show s.saveBuffer contentHash path true = _
        rw [saveBuffer, hd]
        dsimp only
        rw [h.placed path d hd]
        exact if_neg hfree
      rw [hperform, hsaved d hd]
      exact fun hsame => hother hsame.symm

/-- A batch takes an older text for a newer one exactly when it comes late
to a buffer that has nothing unsaved. -/
theorem Fits.discards_iff (h : Fits path s w) (a : Action) :
    Discards contentHash path s w a ↔ AppliesLate contentHash path s w a := by
  constructor
  · rintro ⟨rfl, hover, text, d, hread, hwritten, hd, hafter⟩
    have hafter : (s.applyDiskChanges contentHash).pool.lookup path =
        some (d.replaceText text path) := hafter
    -- a buffer that is made anew is of the next generation
    have hnew : ∀ d' : Document Char, some d' = some (d.replaceText text path) → d' ≠ d := by
      rintro d' hsame rfl
      have hseq : d'.editSeq = d'.editSeq + 1 := congrArg Document.editSeq (Option.some.inj hsame)
      simp at hseq
    refine ⟨rfl, hover, d, hd, ?_⟩
    cases applyDiskChanges_at h.placed h.single hread hd with
    | known _ hd' _ => exact absurd rfl (hnew d (hd'.symm.trans hafter))
    | same _ _ hd' => exact absurd rfl (hnew d (hd'.symm.trans hafter))
    | conflict _ _ _ hd' _ => exact absurd rfl (hnew d (hd'.symm.trans hafter))
    | reload hhash hrope hclean _ =>
        exact ⟨hclean, (path, some text), hread, rfl, text, rfl, hwritten, hrope, hhash⟩
  · rintro ⟨rfl, hover, d, hd, hclean, ⟨other, content⟩, hread, hother, text, htext, hwritten, hrope,
      hhash⟩
    have hother : other = path := hother
    have hcontent : content = some text := htext
    subst hother hcontent
    refine ⟨rfl, hover, text, d, hread, hwritten, hd, ?_⟩
    show (s.applyDiskChanges contentHash).pool.lookup other = some (d.replaceText text other)
    have happlied : Applied contentHash other text d s (s.applyDiskChanges contentHash) :=
      applyDiskChanges_at h.placed h.single hread hd
    cases happlied with
    | known hknown _ _ => exact absurd hknown hhash
    | same _ hsame _ => exact absurd hsame hrope
    | conflict _ _ hmodified _ _ =>
        rw [hclean] at hmodified
        cases hmodified
    | reload _ _ _ hafter => exact hafter

end

/-- Along every run, and for every buffer: no save replaces a change of
others that was reported, and no batch replaces the buffer's text by an
older one, exactly when no save goes past a report that was passed over
and no batch comes late to a buffer that has nothing unsaved. -/
theorem changes_kept_iff (contentHash : List Char → UInt64) (path : String)
    (disk : String → Option (List Char)) (actions : List Action) :
    (∀ front a back s w, actions = front ++ a :: back →
        (watched contentHash path).run (started disk, .first) front = some (s, w) →
        ¬ Clobbers contentHash path s w a ∧ ¬ Discards contentHash path s w a) ↔
      (watched contentHash path).Obeys
        (fun sw a => ¬ SavesPast path sw.1 sw.2 a ∧ ¬ AppliesLate contentHash path sw.1 sw.2 a)
        (started disk, .first) actions := by
  rw [Machine.obeys_iff_forall]
  have hfits : ∀ front sw, (watched contentHash path).run (started disk, .first) front = some sw →
      Fits path sw.1 sw.2 := fun front sw hrun =>
    fits_of_reachable (Machine.reachable_of_run ⟨⟨disk, rfl⟩, rfl⟩ hrun)
  constructor
  · rintro hall front a back ⟨s, w⟩ hsplit hrun
    have h := hfits front (s, w) hrun
    rw [← h.clobbers_iff, ← h.discards_iff]
    exact hall front a back s w hsplit hrun
  · intro hall front a back s w hsplit hrun
    have h := hfits front (s, w) hrun
    rw [h.clobbers_iff, h.discards_iff]
    exact hall front a back (s, w) hsplit hrun

/-- A batch has read what another wrote. The buffer is changed and saved
before the batch is applied, which then puts the other text in its place. -/
theorem late_batch_discards_save :
    ¬ ∀ (contentHash : List Char → UInt64) (path : String) (disk : String → Option (List Char))
      (front : List Action) (a : Action) (s : FileSync) (w : Watch),
      (watched contentHash path).run (started disk, .first) front = some (s, w) →
        ¬ Clobbers contentHash path s w a ∧ ¬ Discards contentHash path s w a := by
  intro hall
  let disk : String → Option (List Char) :=
    fun path => if path = "a.md" then some "one".toList else none
  let front : List Action := [.openBuffer "a.md", .externalWrite "a.md" (some "other".toList),
    .readFile "a.md" true, .editBuffer "a.md" (.insertChar 0 0 'x'), .saveBuffer "a.md" true]
  have hlate : ((watched sampleHash "a.md").run (started disk, .first) front).any (fun sw =>
      decide (AppliesLate sampleHash "a.md" sw.1 sw.2 .applyDiskChanges)) = true := by
    decide
  obtain ⟨⟨s, w⟩, hrun, hlate⟩ := (Option.any_eq_true _ _).1 hlate
  have hfits : Fits "a.md" s w :=
    fits_of_reachable (Machine.reachable_of_run ⟨⟨disk, rfl⟩, rfl⟩ hrun)
  exact (hall sampleHash "a.md" disk front .applyDiskChanges s w hrun).2
    ((hfits.discards_iff .applyDiskChanges).2 (of_decide_eq_true hlate))

end FileSync

end Yaldabaoth
