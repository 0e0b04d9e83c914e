import Mathlib.Data.List.Forall2
import Yaldabaoth.Proofs.Diff.Parsing

/-!
# `Yaldabaoth.Proofs.Diff.Fidelity`: which diffs are read as they are

Parsing keeps the path, the status, the hunks and the text of every file
that is `Sound`, and of no other: `raw.lines()` takes a carriage return
away with the line end, the names over a hunk are trimmed, and the path of
a file without hunks is searched in the first line from its front. Sound
files whose contents differ are hashed from different inputs.
-/

set_option autoImplicit false

namespace Yaldabaoth

open TextLines
open DiffText (chars trimEnd)

/-! ### Carriage returns and white space -/

theorem DiffLine.seen_eq_self (line : DiffLine) :
    line.seen = line ↔ line.text.getLast? ≠ some '\r' := by
  rw [← dropCr_eq_self]
  cases line <;> simp [DiffLine.seen, DiffLine.text]

theorem trimEnd_eq_self {text : List Char} :
    trimEnd text = text ↔ ∀ c ∈ text.getLast?, isWhitespace c = false := by
  rw [trimEnd, List.rdropWhile_eq_self_iff]
  constructor
  · intro h c hc
    obtain ⟨front, rfl⟩ := List.getLast?_eq_some_iff.1 hc
    simpa using h (by simp)
  · intro h hne
    have hlast := h (text.getLast hne) (by rw [List.getLast?_eq_some_getLast hne]; rfl)
    rw [hlast]
    decide

/-! ### Sound files -/

namespace GitFile

/-- The path comes through where it is read: as the target of a rename, as
a name over a hunk, or as the end of the first line. -/
def PathKept (f : GitFile) : Prop :=
  match f.change with
  | .renamed source _ _ => source.name.getLast? ≠ some '\r' ∧ f.path.name.getLast? ≠ some '\r'
  | _ =>
      match f.content with
      | .hunks _ _ => ∀ c ∈ f.path.name.getLast?, isWhitespace c = false
      | _ => ¬ chars " b/" <:+: f.path.name ∧ f.path.name.getLast? ≠ some '\r'

/-- No content line ends in a carriage return. -/
def ContentKept (f : GitFile) : Prop :=
  ∀ h ∈ f.content.list, ∀ l ∈ h.lines, l.line.text.getLast? ≠ some '\r'

def Sound (f : GitFile) : Prop := f.PathKept ∧ f.ContentKept

/-- The path is what stands behind the first ` b/`. -/
theorem parseGitHeaderNewPath_seenFirst (f : GitFile) (hsource : f.source = f.path) :
    (parseGitHeaderNewPath f.seenFirst).getD (chars "unknown") = f.path.name ↔
      ¬ chars " b/" <:+: f.path.name ∧ f.path.name.getLast? ≠ some '\r' := by
  have hread : parseGitHeaderNewPath f.seenFirst = afterFirst (chars " b/")
      ((chars "a/" ++ f.path.name) ++ (chars " b/" ++ dropCr f.path.name)) := by
    rw [seenFirst, parseGitHeaderNewPath, afterPrefix_self, hsource, List.append_assoc]
    rfl
  -- the letter and the slash are no part of an occurrence
  have hlead : chars " b/" <:+: chars "a/" ++ f.path.name ↔ chars " b/" <:+: f.path.name := by
    show chars " b/" <:+: 'a' :: '/' :: f.path.name ↔ _
    rw [List.infix_cons_iff, List.infix_cons_iff]
    simp [chars]
  rw [hread]
  by_cases hinside : chars " b/" <:+: f.path.name
  · refine iff_of_false ?_ fun h => h.1 hinside
    have hne : chars " b/" ≠ [] := by decide
    obtain ⟨found, hfound, hlength⟩ := afterFirst_length hne (dropCr f.path.name)
      (chars "a/" ++ f.path.name)
    have hlong := hlength (hlead.2 hinside)
    have hcut : f.path.name.length ≤ (dropCr f.path.name).length + 1 := by
      rw [dropCr]
      split
      · rw [List.length_dropLast]
        omega
      · omega
    have hpat : (chars " b/").length = 3 := by decide
    rw [hfound, Option.getD_some]
    intro hsame
    rw [hsame, hpat] at hlong
    omega
  · rw [afterFirst_eq (by decide) (by decide) _ (mt hlead.1 hinside), Option.getD_some,
      dropCr_eq_self]
    simp [hinside]

theorem seenHunks_eq_hunks (f : GitFile) : f.seenHunks = f.hunks ↔ f.ContentKept := by
  rw [seenHunks, hunks, List.map_inj_left]
  refine forall₂_congr fun h _ => ?_
  rw [GitHunk.seen, GitHunk.hunk, Hunk.mk.injEq, and_iff_right rfl, List.map_inj_left]
  exact forall₂_congr fun l _ => l.line.seen_eq_self

theorem seenPath_status (f : GitFile) :
    f.seenPath = f.path.name ∧ f.seenStatus = f.status ↔ f.PathKept := by
  have hhead := f.parseGitHeaderNewPath_seenFirst
  rw [source] at hhead
  rw [seenPath, seenStatus, status, PathKept]
  cases hchange : f.change with
  | renamed source _ _ =>
      dsimp only
      rw [FileStatus.renamed.injEq, dropCr_eq_self, dropCr_eq_self, and_comm]
  | modified _ =>
      rw [hchange] at hhead
      cases hcontent : f.content with
      | hunks _ _ => simpa using trimEnd_eq_self
      | none => simpa using hhead rfl
      | binary => simpa using hhead rfl
  | added _ =>
      rw [hchange] at hhead
      cases hcontent : f.content with
      | hunks _ _ => simpa using trimEnd_eq_self
      | none => simpa using hhead rfl
      | binary => simpa using hhead rfl
  | deleted _ =>
      rw [hchange] at hhead
      cases hcontent : f.content with
      | hunks _ _ => simpa using trimEnd_eq_self
      | none => simpa using hhead rfl
      | binary => simpa using hhead rfl

end GitFile

/-! ### Faithful parsing -/

theorem Hunk.patchText_printed (h : Hunk) : h.patchText =
    h.header ++ '\n' :: h.lines.flatMap fun line => line.printed ++ ['\n'] := by
  rw [patchText]
  congr 2
  refine congrArg (List.flatMap · h.lines) (funext fun line => ?_)
  cases line <;> rfl

/-- A hunk is printed again as git printed it, less the markers. -/
theorem GitHunk.patchText_hunk (h : GitHunk) : h.hunk.patchText = h.patch := by
  rw [Hunk.patchText_printed, hunk, patch, unlines, List.flatMap_cons, List.append_assoc,
    List.flatMap_map, List.flatMap_map]
  rfl

/-- What is parsed of a file is what git printed of it. -/
structure FileDiff.Reads (d : FileDiff) (f : GitFile) : Prop where
  path : d.path = f.path.name
  status : d.status = f.status
  hunks : d.hunks = f.hunks
  patches : d.hunks.map Hunk.patchText = f.content.list.map GitHunk.patch

/-- Every file is read, in order, as it was printed. -/
def ReadBack (hash : HashInput → UInt64) (files : List GitFile) : Prop :=
  List.Forall₂ FileDiff.Reads (parseFiles hash (gitDiff files)) files

/-- Files that differ in a content line are hashed from different inputs. -/
def ToldApart (hash : HashInput → UInt64) (files others : List GitFile) : Prop :=
  ∀ (i j : Nat) (d e : FileDiff) (f g : GitFile), files[i]? = some f → others[j]? = some g →
    (parseFiles hash (gitDiff files))[i]? = some d →
    (parseFiles hash (gitDiff others))[j]? = some e →
    f.hunks.map Hunk.lines ≠ g.hunks.map Hunk.lines →
    hashInput d.path d.hunks ≠ hashInput e.path e.hunks

theorem reads_iff_sound (hash : HashInput → UInt64) (f : GitFile) :
    (parseFileSection hash (f.lines.map dropCr)).Reads f ↔ f.Sound := by
  obtain ⟨hpath, hstatus, hhunks⟩ := parseFileSection_lines hash f
  rw [GitFile.Sound, ← f.seenPath_status, ← f.seenHunks_eq_hunks, ← hpath, ← hstatus, ← hhunks]
  constructor
  · intro h
    exact ⟨⟨h.path, h.status⟩, h.hunks⟩
  · intro h
    refine ⟨h.1.1, h.1.2, h.2, ?_⟩
    rw [h.2, GitFile.hunks, List.map_map]
    exact List.map_congr_left fun hunk _ => hunk.patchText_hunk

theorem readBack_iff_sound (hash : HashInput → UInt64) (files : List GitFile) :
    ReadBack hash files ↔ ∀ f ∈ files, f.Sound := by
  rw [ReadBack, parseFiles_gitDiff, List.forall₂_map_left_iff, List.forall₂_same]
  exact forall₂_congr fun f _ => reads_iff_sound hash f

theorem toldApart_of_readBack {hash : HashInput → UInt64} {files others : List GitFile}
    (hfiles : ReadBack hash files) (hothers : ReadBack hash others) :
    ToldApart hash files others := by
  intro i j d e f g hf hg hd he hdiffer hsame
  have hread : d.Reads f := by
    obtain ⟨hi, rfl⟩ := List.getElem?_eq_some_iff.1 hf
    obtain ⟨hi', rfl⟩ := List.getElem?_eq_some_iff.1 hd
    exact List.Forall₂.get hfiles hi' hi
  have hread' : e.Reads g := by
    obtain ⟨hj, rfl⟩ := List.getElem?_eq_some_iff.1 hg
    obtain ⟨hj', rfl⟩ := List.getElem?_eq_some_iff.1 he
    exact List.Forall₂.get hothers hj' hj
  apply hdiffer
  rw [← hread.hunks, ← hread'.hunks]
  exact (Prod.mk.inj hsame).2

/-- Parsing keeps what git printed, and tells contents apart, exactly on
sound files. -/
theorem parsing_faithful_iff (hash : HashInput → UInt64) (files others : List GitFile) :
    ReadBack hash files ∧ ReadBack hash others ∧ ToldApart hash files others ↔
      (∀ f ∈ files, f.Sound) ∧ ∀ g ∈ others, g.Sound := by
  rw [← readBack_iff_sound hash files, ← readBack_iff_sound hash others]
  constructor
  · intro h
    exact ⟨h.1, h.2.1⟩
  · intro h
    exact ⟨h.1, h.2, toldApart_of_readBack h.1 h.2⟩

/-- The file `notes` with the added line `text`. -/
def notesWith (text : List Char) (plain : '\n' ∉ text) : GitFile where
  path := ⟨chars "notes", by decide, by decide⟩
  change := .modified none
  index := some ⟨chars "83db48f..bf269f4 100644", by decide⟩
  content := .hunks ⟨⟨chars "-1,0 +1", by decide⟩, none, by simp, [⟨.added text, plain, false⟩]⟩ []

/-- A line that ends in a carriage return is read without it, and a file
that differs from another by it is hashed from the same input. -/
theorem carriage_return_lost : ¬ ∀ hash : HashInput → UInt64, ∀ files others : List GitFile,
    (files.map fun f => f.path.name).Nodup → (others.map fun f => f.path.name).Nodup →
      ReadBack hash files ∧ ReadBack hash others ∧ ToldApart hash files others := by
  intro h
  have hapart := (h (fun _ => 0) [notesWith (chars "x\r") (by decide)]
    [notesWith (chars "x") (by decide)] (by decide) (by decide)).2.2
  -- What is hashed of the first file, with the carriage return and without it.
  have hinputs :
      ((parseFiles (fun _ => 0) (gitDiff [notesWith (chars "x\r") (by decide)]))[0]?.map
        fun d => hashInput d.path d.hunks) =
      ((parseFiles (fun _ => 0) (gitDiff [notesWith (chars "x") (by decide)]))[0]?.map
        fun d => hashInput d.path d.hunks) := by decide
  have hsome :
      (parseFiles (fun _ => 0) (gitDiff [notesWith (chars "x\r") (by decide)]))[0]?.isSome := by
    decide
  obtain ⟨d, hd⟩ := Option.isSome_iff_exists.1 hsome
  rw [hd, Option.map_some] at hinputs
  obtain ⟨e, he, hsame⟩ := Option.map_eq_some_iff.1 hinputs.symm
  exact hapart 0 0 d e _ _ rfl rfl hd he (by decide) hsame.symm

end Yaldabaoth
