import Mathlib.Data.List.TakeWhile
import Yaldabaoth.Model.GitDiff

/-!
# `Yaldabaoth.Proofs.Diff.Parsing`: what is read of a printed diff

`parse_gitDiff` says exactly what the parser reads of any printed diff:
the files one by one, each as `seen`. A file is seen as it is where no
content line ends in a carriage return and its path survives the way by
which it is read (`Sound`), and nowhere else.

Content that looks like a head is no obstacle: a content line starts with
its mark, and the heads of sections and hunks start otherwise.
-/

set_option autoImplicit false

namespace Yaldabaoth

open TextLines
open DiffText (chars trimEnd)

/-! ### Lines of a head -/

/-- What the lines before the first hunk may start with to be read. -/
def headWords : List (List Char) :=
  [chars "rename from ", chars "rename to ", chars "new file mode", chars "deleted file mode",
    chars "--- ", chars "+++ "]

namespace SectionHead

attribute [local simp] read

/-- A line that starts otherwise is passed over. -/
theorem read_other (s : SectionHead) {known : List Char}
    (h : ∀ word ∈ headWords, ¬ word <+: known ∧ ¬ known <+: word) (rest : List Char) :
    s.read (known ++ rest) = s := by
  have hnone : ∀ word ∈ headWords, afterPrefix word (known ++ rest) = none :=
    fun word hword => afterPrefix_apart (h word hword).1 (h word hword).2 rest
  have hnot : ∀ word ∈ headWords, word.isPrefixOf (known ++ rest) = false :=
    fun word hword => isPrefixOf_apart (h word hword).1 (h word hword).2 rest
  rw [read, hnone _ (by decide), hnone (chars "rename to ") (by decide),
    hnot (chars "new file mode") (by decide), hnot (chars "deleted file mode") (by decide),
    hnone (chars "--- ") (by decide), hnone (chars "+++ ") (by decide)]
  rfl

theorem read_renameFrom (s : SectionHead) (rest : List Char) :
    s.read (chars "rename from " ++ rest) = { s with renameFrom := some rest } := by
  rw [read, afterPrefix_self]

theorem read_renameTo (s : SectionHead) (rest : List Char) :
    s.read (chars "rename to " ++ rest) = { s with renameTo := some rest } := by
  rw [read, afterPrefix_apart (by decide) (by decide), afterPrefix_self]

theorem read_newFile (s : SectionHead) (rest : List Char) :
    s.read (chars "new file mode " ++ rest) = { s with isNewFile := true } := by
  rw [read, afterPrefix_apart (by decide) (by decide), afterPrefix_apart (by decide) (by decide),
    isPrefixOf_append (by decide)]
  rfl

theorem read_deletedFile (s : SectionHead) (rest : List Char) :
    s.read (chars "deleted file mode " ++ rest) = { s with isDeletedFile := true } := by
  rw [read, afterPrefix_apart (by decide) (by decide), afterPrefix_apart (by decide) (by decide),
    isPrefixOf_apart (by decide) (by decide), isPrefixOf_append (by decide)]
  rfl

theorem read_oldPath (s : SectionHead) (rest : List Char) :
    s.read (chars "--- " ++ rest) = { s with oldPath := some (parseDiffOperandPath rest) } := by
  rw [read, afterPrefix_apart (by decide) (by decide), afterPrefix_apart (by decide) (by decide),
    isPrefixOf_apart (by decide) (by decide), isPrefixOf_apart (by decide) (by decide),
    afterPrefix_self]
  rfl

theorem read_newPath (s : SectionHead) (rest : List Char) :
    s.read (chars "+++ " ++ rest) = { s with newPath := some (parseDiffOperandPath rest) } := by
  rw [read, afterPrefix_apart (by decide) (by decide), afterPrefix_apart (by decide) (by decide),
    isPrefixOf_apart (by decide) (by decide), isPrefixOf_apart (by decide) (by decide),
    afterPrefix_apart (by decide) (by decide), afterPrefix_self]
  rfl

end SectionHead

/-! ### Paths of operands -/

theorem trimEnd_append {known : List Char} (hknown : ∀ c ∈ known.getLast?, isWhitespace c = false)
    (hne : known ≠ []) (rest : List Char) : trimEnd (known ++ rest) = known ++ trimEnd rest := by
  induction rest using List.reverseRecOn with
  | nil =>
      rw [List.append_nil]
      obtain ⟨front, last, rfl⟩ := List.eq_nil_or_concat known |>.resolve_left hne
      rw [List.concat_eq_append] at hknown ⊢
      have hlast := hknown last (by rw [List.getLast?_concat]; rfl)
      rw [trimEnd, List.rdropWhile_concat_neg _ _ _ (by simpa using hlast)]
      simp [trimEnd]
  | append_singleton rest last ih =>
      rw [← List.append_assoc, trimEnd, trimEnd]
      by_cases hwhite : isWhitespace last = true
      · rw [List.rdropWhile_concat_pos _ _ _ hwhite, List.rdropWhile_concat_pos _ _ _ hwhite]
        exact ih
      · rw [List.rdropWhile_concat_neg _ _ _ hwhite, List.rdropWhile_concat_neg _ _ _ hwhite,
          List.append_assoc]

theorem trimEnd_dropCr (text : List Char) : trimEnd (dropCr text) = trimEnd text := by
  rw [dropCr]
  split
  · next hcr =>
    obtain ⟨front, hfront⟩ := List.getLast?_eq_some_iff.1 hcr
    rw [hfront, List.dropLast_concat, trimEnd, trimEnd,
      List.rdropWhile_concat_pos _ _ _ (by decide)]
  · rfl

/-- A name of either side is read less what is white at its end, with the
tab behind it and without. -/
theorem parseDiffOperandPath_operand {lead : List Char} (hlead : lead = chars "a/" ∨ lead = chars "b/")
    {name : List Char} (hname : '\t' ∉ name) :
    parseDiffOperandPath (dropCr (GitFile.operand (lead ++ name))) = trimEnd name := by
  have hfirst : ∃ c tail, lead = c :: tail ∧ isWhitespace c = false ∧ c ≠ '/' ∧ '\t' ∉ lead ∧
      ∀ last ∈ lead.getLast?, isWhitespace last = false := by
    rcases hlead with rfl | rfl
    · exact ⟨_, _, rfl, by decide, by decide, by decide, by simp [chars, isWhitespace]⟩
    · exact ⟨_, _, rfl, by decide, by decide, by decide, by simp [chars, isWhitespace]⟩
  obtain ⟨c, tail, hc, hwhite, hslash, htab, hlast⟩ := hfirst
  have hplain : '\t' ∉ lead ++ name := by
    rw [List.mem_append, not_or]
    exact ⟨htab, hname⟩
  -- what stands before the tab is the name, or the name without its carriage return
  have hbefore : trimEnd ((dropCr (GitFile.operand (lead ++ name))).takeWhile fun c => c ≠ '\t') =
      trimEnd (lead ++ name) := by
    rw [GitFile.operand]
    split
    · have hkept : dropCr (lead ++ name ++ ['\t']) = lead ++ name ++ ['\t'] :=
        dropCr_eq_self.2 (by simp)
      rw [hkept, List.takeWhile_append_of_pos]
      · simp
      · intro x hx
        have hne : x ≠ '\t' := by
          rintro rfl
          exact hplain hx
        simpa using hne
    · rw [List.append_nil, List.takeWhile_eq_self_iff.2, trimEnd_dropCr]
      intro x hx
      have hmem : x ∈ lead ++ name := by
        rw [dropCr] at hx
        split at hx
        · exact List.dropLast_subset _ hx
        · exact hx
      have hne : x ≠ '\t' := by
        rintro rfl
        exact hplain hmem
      simpa using hne
  have htrim : DiffText.trim ((dropCr (GitFile.operand (lead ++ name))).takeWhile
      fun c => c ≠ '\t') = lead ++ trimEnd name := by
    have hne : lead ≠ [] := by
      rw [hc]
      exact List.cons_ne_nil c tail
    rw [← trimEnd_append hlast hne, ← hbefore, DiffText.trim]
    generalize hrest : (dropCr (GitFile.operand (lead ++ name))).takeWhile (fun c => c ≠ '\t') = rest
      at hbefore
    rw [trimEnd_append hlast hne, hc, List.cons_append] at hbefore
    -- it starts with a letter
    cases rest with
    | nil => rfl
    | cons d rest =>
        have hpre : trimEnd (d :: rest) <+: d :: rest := List.rdropWhile_prefix isWhitespace _
        rw [hbefore] at hpre
        have hd : c = d := (List.cons_prefix_cons.1 hpre).1
        rw [List.dropWhile_cons_of_neg (by rw [← hd, hwhite]; simp)]
  rw [parseDiffOperandPath, htrim]
  have hnot : lead ++ trimEnd name ≠ devNull := by
    intro heq
    rw [hc, List.cons_append] at heq
    exact hslash (List.cons.inj heq).1
  rw [if_neg hnot]
  rcases hlead with rfl | rfl
  · rw [afterPrefix_self]
    rfl
  · rw [afterPrefix_apart (by decide) (by decide), afterPrefix_self]
    rfl

theorem parseDiffOperandPath_devNull :
    parseDiffOperandPath (dropCr (GitFile.operand devNull)) = devNull := by
  decide

/-! ### What is seen of a file -/

def DiffLine.seen : DiffLine → DiffLine
  | .context text => .context (dropCr text)
  | .added text => .added (dropCr text)
  | .removed text => .removed (dropCr text)

def GitHunk.seen (h : GitHunk) : Hunk := ⟨h.header, h.lines.map fun l => l.line.seen⟩

namespace GitFile

def seenFirst (f : GitFile) : List Char :=
  chars "diff --git " ++ (chars "a/" ++ (f.source.name ++ (chars " b/" ++ dropCr f.path.name)))

/-- A rename names its path, a hunk stands under a name, and else there is
only the first line. -/
def seenPath (f : GitFile) : List Char :=
  match f.change with
  | .renamed _ _ _ => dropCr f.path.name
  | _ =>
      match f.content with
      | .hunks _ _ => trimEnd f.path.name
      | _ => (parseGitHeaderNewPath f.seenFirst).getD (chars "unknown")

def seenStatus (f : GitFile) : FileStatus :=
  match f.change with
  | .modified _ => .modified
  | .added _ => .added
  | .deleted _ => .deleted
  | .renamed source _ _ => .renamed (dropCr source.name)

def seenHunks (f : GitFile) : List Hunk := f.content.list.map GitHunk.seen

/-! ### The head of a section -/

/-- What the lines between the first one and the hunks start with. -/
def startWords : List (List Char) :=
  [chars "old mode ", chars "new mode ", chars "new file mode ", chars "deleted file mode ",
    chars "similarity index ", chars "rename from ", chars "rename to ", chars "index ",
    chars "Binary files ", chars "--- ", chars "+++ "]

theorem exists_startWord (f : GitFile) {line : List Char}
    (h : line ∈ f.changeLines ++ (f.indexLines ++ f.nameLines)) : ∃ word ∈ startWords, ∃ rest, line = word ++ rest := by
  have hmodes : ∀ modes, ∀ line ∈ modeLines modes, ∃ word ∈ startWords, ∃ rest,
      line = word ++ rest := by
    intro modes line hline
    cases modes with
    | none => cases hline
    | some modes =>
        simp only [modeLines, List.mem_cons, List.not_mem_nil, or_false] at hline
        rcases hline with rfl | rfl
        · exact ⟨chars "old mode ", by decide, _, rfl⟩
        · exact ⟨chars "new mode ", by decide, _, rfl⟩
  rw [List.mem_append, List.mem_append] at h
  rcases h with hchange | hindex | hname
  · rw [changeLines] at hchange
    cases hkind : f.change with
    | modified modes =>
        rw [hkind] at hchange
        exact hmodes modes line hchange
    | added mode =>
        rw [hkind] at hchange
        exact ⟨chars "new file mode ", by decide, _, List.mem_singleton.1 hchange⟩
    | deleted mode =>
        rw [hkind] at hchange
        exact ⟨chars "deleted file mode ", by decide, _, List.mem_singleton.1 hchange⟩
    | renamed source modes similarity =>
        rw [hkind] at hchange
        rcases List.mem_append.1 hchange with hmode | hrest
        · exact hmodes modes line hmode
        · simp only [List.mem_cons, List.not_mem_nil, or_false] at hrest
          rcases hrest with rfl | rfl | rfl
          · exact ⟨chars "similarity index ", by decide, _, rfl⟩
          · exact ⟨chars "rename from ", by decide, _, rfl⟩
          · exact ⟨chars "rename to ", by decide, _, rfl⟩
  · rw [indexLines] at hindex
    cases hsome : f.index with
    | none =>
        rw [hsome] at hindex
        cases hindex
    | some index =>
        rw [hsome] at hindex
        exact ⟨chars "index ", by decide, _, List.mem_singleton.1 hindex⟩
  · rw [nameLines] at hname
    cases hcontent : f.content with
    | none =>
        rw [hcontent] at hname
        cases hname
    | binary =>
        rw [hcontent] at hname
        exact ⟨chars "Binary files ", by decide, _, List.mem_singleton.1 hname⟩
    | hunks first rest =>
        rw [hcontent] at hname
        simp only [List.mem_cons, List.not_mem_nil, or_false] at hname
        rcases hname with rfl | rfl
        · exact ⟨chars "--- ", by decide, _, rfl⟩
        · exact ⟨chars "+++ ", by decide, _, rfl⟩

/-- No line of the head is the head of a section or a hunk. -/
theorem not_head_of_startWord {word : List Char} (hword : word ∈ startWords) (rest : List Char) :
    isHunkHead (dropCr (word ++ rest)) = false ∧ isSectionHead (dropCr (word ++ rest)) = false := by
  have hcr : ∀ word ∈ startWords, word.getLast? ≠ some '\r' := by decide
  have hhunk : ∀ word ∈ startWords, ¬ chars "@@" <+: word ∧ ¬ word <+: chars "@@" := by decide
  have hsection : ∀ word ∈ startWords,
      ¬ chars "diff --git " <+: word ∧ ¬ word <+: chars "diff --git " := by
    decide
  rw [dropCr_append (hcr word hword)]
  exact ⟨isPrefixOf_apart (hhunk word hword).1 (hhunk word hword).2 _,
    isPrefixOf_apart (hsection word hword).1 (hsection word hword).2 _⟩

/-- What the head says. -/
def seenHead (f : GitFile) : SectionHead where
  renameFrom := match f.change with
    | .renamed source _ _ => some (dropCr source.name)
    | _ => none
  renameTo := match f.change with
    | .renamed _ _ _ => some (dropCr f.path.name)
    | _ => none
  isNewFile := match f.change with
    | .added _ => true
    | _ => false
  isDeletedFile := match f.change with
    | .deleted _ => true
    | _ => false
  oldPath := match f.content with
    | .hunks _ _ => some (parseDiffOperandPath (dropCr (operand f.oldName)))
    | _ => none
  newPath := match f.content with
    | .hunks _ _ => some (parseDiffOperandPath (dropCr (operand f.newName)))
    | _ => none

theorem read_modeLines (s : SectionHead) (modes : Option (OneLine × OneLine)) :
    ((modeLines modes).map dropCr).foldl SectionHead.read s = s := by
  cases modes with
  | none => rfl
  | some modes =>
      rw [modeLines, List.map_cons, List.map_cons, List.map_nil, List.foldl_cons, List.foldl_cons,
        List.foldl_nil, dropCr_append (by decide), dropCr_append (by decide),
        SectionHead.read_other _ (by decide), SectionHead.read_other _ (by decide)]

theorem read_head (f : GitFile) :
    ((f.firstLine :: (f.changeLines ++ (f.indexLines ++ f.nameLines))).map dropCr).foldl
        SectionHead.read {} =
      f.seenHead := by
  have hfirst : SectionHead.read {} (dropCr f.firstLine) = {} := by
    rw [firstLine, dropCr_append (by decide), SectionHead.read_other _ (by decide)]
  have hindex : ∀ s : SectionHead, (f.indexLines.map dropCr).foldl SectionHead.read s = s := by
    intro s
    rw [indexLines]
    cases f.index with
    | none => rfl
    | some index =>
        dsimp only
        rw [List.map_cons, List.map_nil, List.foldl_cons, List.foldl_nil, dropCr_append (by decide),
          SectionHead.read_other _ (by decide)]
  have hname : ∀ s : SectionHead, s.oldPath = none → s.newPath = none →
      (f.nameLines.map dropCr).foldl SectionHead.read s =
        { s with oldPath := f.seenHead.oldPath, newPath := f.seenHead.newPath } := by
    rintro ⟨renameFrom, renameTo, isNewFile, isDeletedFile, oldPath, newPath⟩ rfl rfl
    rw [nameLines, seenHead]
    cases f.content with
    | none => rfl
    | binary =>
        dsimp only
        rw [List.map_cons, List.map_nil, List.foldl_cons, List.foldl_nil, dropCr_append (by decide),
          SectionHead.read_other _ (by decide)]
    | hunks first rest =>
        dsimp only
        rw [List.map_cons, List.map_cons, List.map_nil, List.foldl_cons, List.foldl_cons,
          List.foldl_nil, dropCr_append (by decide), dropCr_append (by decide),
          SectionHead.read_oldPath, SectionHead.read_newPath]
  rw [List.map_cons, List.foldl_cons, hfirst, List.map_append, List.foldl_append, List.map_append,
    List.foldl_append, hindex]
  have hchange : (f.changeLines.map dropCr).foldl SectionHead.read {} =
      { f.seenHead with oldPath := none, newPath := none } := by
    rw [changeLines, seenHead]
    cases f.change with
    | modified modes => exact read_modeLines {} modes
    | added mode =>
        dsimp only
        rw [List.map_cons, List.map_nil, List.foldl_cons, List.foldl_nil, dropCr_append (by decide),
          SectionHead.read_newFile]
    | deleted mode =>
        dsimp only
        rw [List.map_cons, List.map_nil, List.foldl_cons, List.foldl_nil, dropCr_append (by decide),
          SectionHead.read_deletedFile]
    | renamed source modes similarity =>
        dsimp only
        have hsimilar : SectionHead.read {} (chars "similarity index " ++ dropCr similarity.1) = {} :=
          SectionHead.read_other _ (by decide) _
        rw [List.map_append, List.foldl_append, read_modeLines, List.map_cons, List.map_cons,
          List.map_cons, List.map_nil, List.foldl_cons, List.foldl_cons, List.foldl_cons,
          List.foldl_nil, dropCr_append (by decide), dropCr_append (by decide),
          dropCr_append (by decide), hsimilar, SectionHead.read_renameFrom,
          SectionHead.read_renameTo]
  rw [hchange, hname _ rfl rfl]

end GitFile

/-! ### Hunks -/

/-- What the lines under a header start with. -/
def marks : List Char := [' ', '+', '-', '\\']

theorem DiffLine.mark_mem (line : DiffLine) : line.mark ∈ marks := by
  cases line <;> simp [DiffLine.mark, marks]

theorem dropCr_mark {c : Char} (hc : c ∈ marks) (rest : List Char) :
    dropCr (c :: rest) = c :: dropCr rest := by
  have hcr : ∀ c ∈ marks, [c].getLast? ≠ some '\r' := by simp [marks]
  exact dropCr_append (hcr c hc) rest

/-- Content that looks like a head does not start like one. -/
theorem not_head_of_mark {c : Char} (hc : c ∈ marks) (rest : List Char) :
    isHunkHead (dropCr (c :: rest)) = false ∧ isSectionHead (dropCr (c :: rest)) = false := by
  have hhunk : ∀ c ∈ marks, ¬ chars "@@" <+: [c] ∧ ¬ [c] <+: chars "@@" := by
    simp [marks, chars]
  have hsection : ∀ c ∈ marks, ¬ chars "diff --git " <+: [c] ∧ ¬ [c] <+: chars "diff --git " := by
    simp [marks, chars]
  rw [dropCr_mark hc]
  exact ⟨isPrefixOf_apart (hhunk c hc).1 (hhunk c hc).2 (dropCr rest),
    isPrefixOf_apart (hsection c hc).1 (hsection c hc).2 (dropCr rest)⟩

namespace GitHunk

/-- A heading is cut, so no header ends in a carriage return. -/
theorem dropCr_header (h : GitHunk) : dropCr h.header = h.header := by
  rw [dropCr_eq_self, header, ← List.append_assoc]
  cases hheading : h.heading with
  | none => rw [List.getLast?_append_of_ne_nil _ (by decide)]; decide
  | some text =>
      have htrimmed := h.trimmed text (by rw [hheading]; rfl)
      rw [← List.append_assoc, List.getLast?_append_of_ne_nil _ (List.cons_ne_nil _ _)]
      cases htext : text.1 with
      | nil => decide
      | cons c rest =>
          rw [htext] at htrimmed
          rw [List.getLast?_cons_cons]
          exact htrimmed

theorem isHunkHead_header (h : GitHunk) : isHunkHead h.header = true := by
  rw [isHunkHead, header, isPrefixOf_append (by decide)]
  decide

theorem exists_mark (h : GitHunk) {line : List Char} (hline : line ∈ h.body) :
    ∃ c ∈ marks, ∃ rest, line = c :: rest := by
  rw [body, List.mem_flatMap] at hline
  obtain ⟨l, -, hline⟩ := hline
  rcases List.mem_cons.1 hline with rfl | hmarker
  · exact ⟨l.line.mark, l.line.mark_mem, l.line.text, rfl⟩
  · split at hmarker
    · exact ⟨'\\', by decide, _, List.mem_singleton.1 hmarker⟩
    · cases hmarker

theorem parseHunkLine_printed (line : DiffLine) :
    parseHunkLine (dropCr line.printed) = some line.seen := by
  rw [DiffLine.printed, dropCr_mark line.mark_mem]
  cases line with
  | context _ => rfl
  | added _ => rfl
  | removed _ => rfl

/-- The markers are passed over, and every other line is read. -/
theorem filterMap_body (h : GitHunk) :
    (h.body.map dropCr).filterMap parseHunkLine = h.lines.map fun l => l.line.seen := by
  rw [body]
  induction h.lines with
  | nil => rfl
  | cons l ls ih =>
      rw [List.flatMap_cons, List.map_append, List.filterMap_append, ih, List.map_cons,
        List.map_cons, List.filterMap_cons, parseHunkLine_printed]
      cases l.noNewline with
      | false => rfl
      | true => rfl

end GitHunk

namespace GitFile

/-- The lines under the first one, as they come out of the text. -/
def seenRest (f : GitFile) : List (List Char) :=
  (f.changeLines ++ (f.indexLines ++ f.nameLines)).map dropCr ++
    (f.content.list.map fun h => (h.header, h.body.map dropCr)).flatMap fun block =>
      block.1 :: block.2

theorem lines_map_dropCr (f : GitFile) : f.lines.map dropCr = dropCr f.firstLine :: f.seenRest := by
  have hblocks : (f.content.list.flatMap fun h => h.header :: h.body).map dropCr =
      (f.content.list.map fun h => (h.header, h.body.map dropCr)).flatMap fun block =>
        block.1 :: block.2 := by
    rw [List.map_flatMap, List.flatMap_map]
    simp only [List.map_cons, GitHunk.dropCr_header]
  rw [lines, List.map_cons, seenRest, ← hblocks]
  simp only [List.map_append, List.append_assoc]

theorem not_head_firstLine (f : GitFile) : isHunkHead (dropCr f.firstLine) = false := by
  rw [firstLine, dropCr_append (by decide)]
  exact isPrefixOf_apart (by decide) (by decide) _

theorem isSectionHead_firstLine (f : GitFile) : isSectionHead (dropCr f.firstLine) = true := by
  rw [firstLine, dropCr_append (by decide), isSectionHead, isPrefixOf_append (by decide)]
  decide

theorem not_head_start (f : GitFile) : ∀ line ∈ (f.changeLines ++ (f.indexLines ++
    f.nameLines)).map dropCr, isHunkHead line = false ∧ isSectionHead line = false := by
  intro line hline
  obtain ⟨before, hbefore, rfl⟩ := List.mem_map.1 hline
  obtain ⟨word, hword, rest, rfl⟩ := f.exists_startWord hbefore
  exact not_head_of_startWord hword rest

theorem not_head_body (h : GitHunk) : ∀ line ∈ h.body.map dropCr,
    isHunkHead line = false ∧ isSectionHead line = false := by
  intro line hline
  obtain ⟨before, hbefore, rfl⟩ := List.mem_map.1 hline
  obtain ⟨c, hc, rest, rfl⟩ := h.exists_mark hbefore
  exact not_head_of_mark hc rest

theorem parseHunks_lines (f : GitFile) : parseHunks (f.lines.map dropCr) = f.seenHunks := by
  have hheads : ∀ block ∈ f.content.list.map fun h => (h.header, h.body.map dropCr),
      isHunkHead block.1 = true := by
    intro block hblock
    obtain ⟨h, -, rfl⟩ := List.mem_map.1 hblock
    exact h.isHunkHead_header
  have hbodies : ∀ block ∈ f.content.list.map fun h => (h.header, h.body.map dropCr),
      ∀ line ∈ block.2, isHunkHead line = false ∧ isSectionHead line = false := by
    intro block hblock
    obtain ⟨h, -, rfl⟩ := List.mem_map.1 hblock
    exact not_head_body h
  -- the first line stops a hunk and starts none
  rw [lines_map_dropCr, parseHunks, chunks, seenRest,
    chunks_append (fun line hline => (f.not_head_start line hline).1)
      fun line hline => (f.not_head_start line hline).2,
    chunks_flatMap hheads (fun block hblock line hline => (hbodies block hblock line hline).1)
      fun block hblock line hline => (hbodies block hblock line hline).2]
  simp only [not_head_firstLine, isSectionHead_firstLine, Bool.false_eq_true, if_false, if_true,
    List.map_map, seenHunks]
  refine List.map_congr_left fun h _ => ?_
  show Hunk.mk h.header ((h.body.map dropCr).filterMap parseHunkLine) = h.seen
  rw [h.filterMap_body]
  rfl

/-! ### Sections -/

/-- The head of a section ends where its first hunk starts. -/
theorem takeWhile_lines (f : GitFile) :
    (f.lines.map dropCr).takeWhile (fun line => !isHunkHead line) =
      (f.firstLine :: (f.changeLines ++ (f.indexLines ++ f.nameLines))).map dropCr := by
  rw [lines_map_dropCr, seenRest, List.map_cons, List.takeWhile_cons_of_pos (by
    rw [f.not_head_firstLine]
    rfl), List.takeWhile_append_of_pos (fun line hline => by
      rw [(f.not_head_start line hline).1]
      rfl)]
  have hnone : ((f.content.list.map fun h => (h.header, h.body.map dropCr)).flatMap fun block =>
      block.1 :: block.2).takeWhile (fun line => !isHunkHead line) = [] := by
    cases f.content.list with
    | nil => rfl
    | cons first rest =>
        rw [List.map_cons, List.flatMap_cons, List.cons_append, List.takeWhile_cons_of_neg]
        rw [first.isHunkHead_header]
        decide
  rw [hnone, List.append_nil]

theorem ne_devNull (path : RepoPath) : trimEnd path.name ≠ devNull := by
  intro hnull
  have hlead : trimEnd path.name <+: path.name := List.rdropWhile_prefix isWhitespace _
  rw [hnull] at hlead
  obtain ⟨rest, hrest⟩ := hlead
  apply path.relative
  rw [← hrest]
  rfl

theorem dropCr_firstLine (f : GitFile) : dropCr f.firstLine = f.seenFirst := by
  rw [firstLine, dropCr_append (by decide), dropCr_append (by decide), seenFirst,
    ← List.append_assoc f.source.name, dropCr_append, List.append_assoc]
  rw [List.getLast?_append_of_ne_nil _ (by decide)]
  decide

/-- The path that the line `---` is read as. -/
def seenOld (f : GitFile) : List Char :=
  match f.change with
  | .added _ => devNull
  | _ => trimEnd f.source.name

def seenNew (f : GitFile) : List Char :=
  match f.change with
  | .deleted _ => devNull
  | _ => trimEnd f.path.name

theorem seenHead_oldPath {f : GitFile} {first : GitHunk} {rest : List GitHunk}
    (hcontent : f.content = .hunks first rest) : f.seenHead.oldPath = some f.seenOld := by
  have hname := parseDiffOperandPath_operand (.inl rfl) f.source.plain.2.1
  rw [seenHead, hcontent, oldName, seenOld]
  cases f.change with
  | added _ => exact congrArg some parseDiffOperandPath_devNull
  | modified _ => exact congrArg some hname
  | deleted _ => exact congrArg some hname
  | renamed _ _ _ => exact congrArg some hname

theorem seenHead_newPath {f : GitFile} {first : GitHunk} {rest : List GitHunk}
    (hcontent : f.content = .hunks first rest) : f.seenHead.newPath = some f.seenNew := by
  have hname := parseDiffOperandPath_operand (.inr rfl) f.path.plain.2.1
  rw [seenHead, hcontent, newName, seenNew]
  cases f.change with
  | deleted _ => exact congrArg some parseDiffOperandPath_devNull
  | modified _ => exact congrArg some hname
  | added _ => exact congrArg some hname
  | renamed _ _ _ => exact congrArg some hname

/-- A rename says its path, a hunk stands under a name of its file, and
else the first line is read. -/
theorem seenHead_path (f : GitFile) : f.seenHead.path (dropCr f.firstLine) = f.seenPath := by
  rw [dropCr_firstLine, SectionHead.path, seenPath]
  cases hcontent : f.content with
  | hunks first rest =>
      have hnot := ne_devNull f.path
      rw [seenHead_oldPath hcontent, seenHead_newPath hcontent, seenHead, seenOld, seenNew, source]
      cases hchange : f.change with
      | modified _ => simp [Option.filter, hnot]
      | added _ => simp [Option.filter, hnot]
      | deleted _ => simp [Option.filter, hnot]
      | renamed _ _ _ => rfl
  | none =>
      rw [seenHead, hcontent]
      cases f.change <;> rfl
  | binary =>
      rw [seenHead, hcontent]
      cases f.change <;> rfl

theorem seenHead_status (f : GitFile) : f.seenHead.status = f.seenStatus := by
  rw [SectionHead.status, seenStatus]
  cases hcontent : f.content with
  | hunks first rest =>
      have hnot := ne_devNull f.path
      rw [seenHead_oldPath hcontent, seenHead_newPath hcontent, seenHead, seenOld, seenNew, source]
      cases hchange : f.change with
      | modified _ => simp [hnot]
      | added _ => simp
      | deleted _ => simp [hnot]
      | renamed _ _ _ => rfl
  | none =>
      rw [seenHead, hcontent]
      cases f.change <;> simp
  | binary =>
      rw [seenHead, hcontent]
      cases f.change <;> simp

end GitFile

/-! ### The whole text -/

theorem parseFileSection_lines (hash : HashInput → UInt64) (f : GitFile) :
    (parseFileSection hash (f.lines.map dropCr)).path = f.seenPath ∧
      (parseFileSection hash (f.lines.map dropCr)).status = f.seenStatus ∧
      (parseFileSection hash (f.lines.map dropCr)).hunks = f.seenHunks := by
  have hhead := f.lines_map_dropCr
  simp only [parseFileSection]
  rw [f.takeWhile_lines, f.read_head, f.parseHunks_lines, hhead, List.head?_cons, Option.getD_some]
  exact ⟨f.seenHead_path, f.seenHead_status, rfl⟩

namespace GitFile

theorem seenRest_not_head (f : GitFile) : ∀ line ∈ f.seenRest, isSectionHead line = false := by
  intro line hline
  rcases List.mem_append.1 hline with hstart | hblocks
  · exact (f.not_head_start line hstart).2
  · obtain ⟨block, hblock, hmem⟩ := List.mem_flatMap.1 hblocks
    obtain ⟨h, -, rfl⟩ := List.mem_map.1 hblock
    rcases List.mem_cons.1 hmem with rfl | hbody
    · exact isPrefixOf_apart (by decide) (by decide) _
    · exact (not_head_body h line hbody).2

theorem plain_names (f : GitFile) : '\n' ∉ f.oldName ∧ '\n' ∉ f.newName := by
  have hold := f.source.plain.1
  have hnew := f.path.plain.1
  rw [oldName, newName]
  cases f.change <;> simp [hold, hnew, chars, devNull]

theorem plain_operand {name : List Char} (h : '\n' ∉ name) : '\n' ∉ operand name := by
  rw [operand]
  split <;> simp [h]

theorem plain_modeLines (modes : Option (OneLine × OneLine)) :
    ∀ line ∈ modeLines modes, '\n' ∉ line := by
  intro line hline
  cases modes with
  | none => cases hline
  | some modes =>
      simp only [modeLines, List.mem_cons, List.not_mem_nil, or_false] at hline
      rcases hline with rfl | rfl
      · simp [chars, modes.1.2]
      · simp [chars, modes.2.2]

theorem plain_changeLines (f : GitFile) : ∀ line ∈ f.changeLines, '\n' ∉ line := by
  intro line hline
  rw [changeLines] at hline
  cases hchange : f.change with
  | modified modes =>
      rw [hchange] at hline
      exact plain_modeLines modes line hline
  | added mode =>
      rw [hchange] at hline
      rw [List.mem_singleton.1 hline]
      simp [chars, mode.2]
  | deleted mode =>
      rw [hchange] at hline
      rw [List.mem_singleton.1 hline]
      simp [chars, mode.2]
  | renamed source modes similarity =>
      rw [hchange] at hline
      rcases List.mem_append.1 hline with hmode | hrest
      · exact plain_modeLines modes line hmode
      · simp only [List.mem_cons, List.not_mem_nil, or_false] at hrest
        rcases hrest with rfl | rfl | rfl
        · simp [chars, similarity.2]
        · simp [chars, source.plain.1]
        · simp [chars, f.path.plain.1]

theorem plain_nameLines (f : GitFile) : ∀ line ∈ f.nameLines, '\n' ∉ line := by
  intro line hline
  have hnames := f.plain_names
  rw [nameLines] at hline
  cases hcontent : f.content with
  | none =>
      rw [hcontent] at hline
      cases hline
  | binary =>
      rw [hcontent] at hline
      rw [List.mem_singleton.1 hline]
      simp [chars, hnames.1, hnames.2]
  | hunks first rest =>
      rw [hcontent] at hline
      simp only [List.mem_cons, List.not_mem_nil, or_false] at hline
      rcases hline with rfl | rfl
      · simp [chars, plain_operand hnames.1]
      · simp [chars, plain_operand hnames.2]

theorem plain_hunk (h : GitHunk) : ∀ line ∈ h.header :: h.body, '\n' ∉ line := by
  intro line hline
  rcases List.mem_cons.1 hline with rfl | hbody
  · rw [GitHunk.header]
    cases h.heading with
    | none => simp [chars, h.operands.2]
    | some text => simp [chars, h.operands.2, text.2]
  · rw [GitHunk.body, List.mem_flatMap] at hbody
    obtain ⟨l, -, hmem⟩ := hbody
    rcases List.mem_cons.1 hmem with rfl | hmarker
    · rw [DiffLine.printed, List.mem_cons, not_or]
      refine ⟨?_, l.plain⟩
      cases l.line <;> simp [DiffLine.mark]
    · split at hmarker
      · rw [List.mem_singleton.1 hmarker]
        decide
      · cases hmarker

/-- No line of a section is broken by what is in it. -/
theorem plain_lines (f : GitFile) : ∀ line ∈ f.lines, '\n' ∉ line := by
  intro line hline
  rw [lines, List.mem_cons, List.mem_append, List.mem_append, List.mem_append] at hline
  rcases hline with rfl | hchange | hindex | hname | hhunks
  · simp [firstLine, chars, f.source.plain.1, f.path.plain.1]
  · exact f.plain_changeLines line hchange
  · rw [indexLines] at hindex
    cases hsome : f.index with
    | none =>
        rw [hsome] at hindex
        cases hindex
    | some index =>
        rw [hsome] at hindex
        rw [List.mem_singleton.1 hindex]
        simp [chars, index.2]
  · exact f.plain_nameLines line hname
  · obtain ⟨h, -, hmem⟩ := List.mem_flatMap.1 hhunks
    exact plain_hunk h line hmem

end GitFile

/-- Every file of the text is read, in order, as it is seen. -/
theorem parseFiles_gitDiff (hash : HashInput → UInt64) (files : List GitFile) :
    parseFiles hash (gitDiff files) =
      files.map fun f => parseFileSection hash (f.lines.map dropCr) := by
  have hplain : ∀ line ∈ files.flatMap GitFile.lines, '\n' ∉ line := by
    intro line hline
    obtain ⟨f, -, hmem⟩ := List.mem_flatMap.1 hline
    exact f.plain_lines line hmem
  have hblocks : (files.flatMap GitFile.lines).map dropCr =
      (files.map fun f => (dropCr f.firstLine, f.seenRest)).flatMap fun block =>
        block.1 :: block.2 := by
    rw [List.map_flatMap, List.flatMap_map]
    simp only [GitFile.lines_map_dropCr]
  rw [parseFiles, gitDiff, lines_unlines hplain, hblocks, chunks_flatMap, List.map_map]
  · refine List.map_congr_left fun f _ => ?_
    rw [f.lines_map_dropCr]
    rfl
  · intro block hblock
    obtain ⟨f, -, rfl⟩ := List.mem_map.1 hblock
    exact f.isSectionHead_firstLine
  · intro block hblock line hline
    obtain ⟨f, -, rfl⟩ := List.mem_map.1 hblock
    exact f.seenRest_not_head line hline
  · intro block hblock line hline
    rfl

end Yaldabaoth
