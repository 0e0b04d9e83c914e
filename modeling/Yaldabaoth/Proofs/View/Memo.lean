import Yaldabaoth.Proofs.View.Floors
import Yaldabaoth.Proofs.View.Reads

/-!
# `Yaldabaoth.Proofs.View.Memo`: the list of a transcript is kept in step

The fingerprint leaves the text of the lines and their tags out, and the
blocks are found again only when other lines are frozen. What is in use is
what a rebuild without caches makes (`ViewedAgent.UpToDate`) as long as
nothing that is written into the transcript changes the marks of its lines
behind the fingerprint (`ViewedAgent.Announced`). Tool calls, cursor moves,
phases and You-blocks never do.
-/

set_option autoImplicit false

namespace Yaldabaoth

open Rope TranscriptLines

/-- Whether the operation writes text of the agent or of the user. -/
def AgentOp.writes {κ : Type} : AgentOp κ → Bool
  | .chunk .. | .notice _ | .userTurn .. | .reply .. => true
  | _ => false

variable {κ β : Type}

namespace StreamedAgent

/-- The blocks of the transcript. -/
def blocks (a : StreamedAgent κ) (parse : List (List Char) → Option β) : List (ResolvedBlock β) :=
  ViewModel.resolve a.transcript parse

/-- What changes under the same number of lines, and of frozen lines, is not read, and what
changes under the same frozen ranges is in no block. -/
structure Silent (parse : List (List Char) → Option β) (a a' : StreamedAgent κ) : Prop where
  marks : a'.lineCount = a.lineCount → a'.frozenLineCount = a.frozenLineCount →
    Alike a.transcript a'.transcript
  blocks : a'.frozenLines = a.frozenLines → a'.blocks parse = a.blocks parse

end StreamedAgent

namespace ViewedAgent

variable (parse : List (List Char) → Option β)

/-- The view model is the one that a rebuild without caches makes. -/
structure UpToDate (s : ViewedAgent κ β) : Prop where
  flatItems : s.view.flatItems = (AgentViewModel.new.rebuild parse s.agent).flatItems
  gutter : s.view.gutter = (AgentViewModel.new.rebuild parse s.agent).gutter
  lineToItem : s.view.lineToItem = (AgentViewModel.new.rebuild parse s.agent).lineToItem
  navStops : s.view.navStops = (AgentViewModel.new.rebuild parse s.agent).navStops
  resolvedBlocks :
    s.view.resolvedBlocks = (AgentViewModel.new.rebuild parse s.agent).resolvedBlocks

/-- What the operation writes shows in the fingerprint and in the frozen ranges. -/
def Announced [DecidableEq κ] (s : ViewedAgent κ β) (op : AgentOp κ) : Prop :=
  op.writes = true → s.agent.Silent parse (s.agent.apply op)

end ViewedAgent

/-! ### Tool calls -/

namespace StreamedAgent

variable {a a' : StreamedAgent κ}

theorem getElem?_lines (a : StreamedAgent κ) {i : Nat} (h : i < a.lineCount) :
    a.transcript.lines[i]? = some (displayLine a.editor.rope i) := by
  show ((List.range a.lineCount).map (displayLine a.editor.rope))[i]? = _
  rw [List.getElem?_map, List.getElem?_range h]
  rfl

/-- Blocks are read off the frozen lines. -/
theorem blocks_of_keeps (h : a.editor.KeepsFrozen a'.editor)
    (parse : List (List Char) → Option β) : a'.blocks parse = a.blocks parse := by
  apply FrozenAlike.resolve
  refine ⟨h.frozen, fun i hi => ?_⟩
  obtain ⟨r, hr, hlo, hhi⟩ := isFrozen_iff.1 hi
  have hlt : i < a.lineCount := by
    rw [← a.transcript_lineCount]
    exact lt_of_isFrozen hi
  rw [a.getElem?_lines hlt, a'.getElem?_lines (lt_of_lt_of_le hlt h.lenLines),
    h.text r hr i hlo hhi]

variable [DecidableEq κ]

theorem startTool_keeps (a : StreamedAgent κ) (turn : Nat) (id : κ) :
    a.editor.KeepsFrozen (a.startTool turn id).editor := by
  have h := a.fits.keeps_lineForNewToolCall.1
  exact ⟨h.lenLines, h.frozen, h.text⟩

/-- A tool call gets a line of its own. -/
theorem startTool_lineCount (a : StreamedAgent κ) (turn : Nat) (id : κ) :
    a.lineCount < (a.startTool turn id).lineCount :=
  a.fits.keeps_lineForNewToolCall.2

theorem startTool_silent (parse : List (List Char) → Option β) (a : StreamedAgent κ) (turn : Nat)
    (id : κ) : a.Silent parse (a.startTool turn id) := by
  refine ⟨fun hcount => ?_, fun _ => blocks_of_keeps (a.startTool_keeps turn id) parse⟩
  exact absurd hcount (Nat.ne_of_gt (a.startTool_lineCount turn id))

/-! ### Operations -/

/-- The same calls, with the same anchors. -/
def SameCalls (a a' : StreamedAgent κ) : Prop := a'.order = a.order ∧ a'.anchor = a.anchor

omit [DecidableEq κ] in
theorem silent_of_transcript (parse : List (List Char) → Option β)
    (h : a'.transcript = a.transcript) : a.Silent parse a' := by
  refine ⟨fun _ _ => ?_, fun _ => ?_⟩
  · rw [h]
    exact .refl _
  · rw [blocks, blocks, h]

/-- Every operation is silent, if what it writes is. -/
theorem apply_silent {parse : List (List Char) → Option β} {op : AgentOp κ}
    (h : op.writes = true → a.Silent parse (a.apply op)) : a.Silent parse (a.apply op) := by
  cases op with
  | chunk | notice | userTurn | reply => exact h rfl
  | toolCallStarted turn id => exact startTool_silent parse a turn id
  | toolCallUpdated turn id =>
      rw [apply]
      split
      · exact silent_of_transcript parse rfl
      · exact startTool_silent parse a turn id
  | _ => exact silent_of_transcript parse rfl

/-- Calls come and move only under another fingerprint. -/
theorem apply_sameCalls {op : AgentOp κ}
    (hkey : (a.apply op).viewModelFingerprint = a.viewModelFingerprint) :
    a.SameCalls (a.apply op) := by
  have hstart (turn : Nat) (id : κ)
      (hkey : (a.startTool turn id).viewModelFingerprint = a.viewModelFingerprint) :
      a.SameCalls (a.startTool turn id) :=
    absurd (congrArg ViewKey.lineCount hkey) (Nat.ne_of_gt (a.startTool_lineCount turn id))
  cases op with
  | toolCallStarted turn id => exact hstart turn id hkey
  | toolCallUpdated turn id =>
      rw [apply] at hkey ⊢
      split at hkey
      · rw [if_pos ‹_›]
        exact ⟨rfl, rfl⟩
      · rw [if_neg ‹_›]
        exact hstart turn id hkey
  | _ => exact ⟨rfl, rfl⟩

/-! ### The fingerprint -/

omit [DecidableEq κ] in
/-- The fingerprint has all that the list takes from the surface. -/
theorem sameSurface_of_key (hkey : a'.viewModelFingerprint = a.viewModelFingerprint) :
    ViewModel.SameSurface a.surface a'.surface := by
  have hworksheet : (if a'.chatbox then none
      else some (a'.editor.view.cursor.line, a'.dragProtectLine, a'.insertMode)) =
      if a.chatbox then none
      else some (a.editor.view.cursor.line, a.dragProtectLine, a.insertMode) :=
    congrArg ViewKey.worksheet hkey
  have hchatbox : a'.chatbox = a.chatbox := by
    cases h : a.chatbox <;> cases h' : a'.chatbox <;> simp_all
  constructor
  · exact hchatbox
  · exact congrArg ViewKey.isAwaiting hkey
  · exact congrArg ViewKey.inlineYouBlockActive hkey
  · exact congrArg ViewKey.youBlockAnchor hkey
  · exact congrArg (fun key => key.parked.map Prod.fst) hkey
  · show (if a'.chatbox then none
        else some (a'.dragProtectLine.getD a'.editor.view.cursor.line)) =
      if a.chatbox then none else some (a.dragProtectLine.getD a.editor.view.cursor.line)
    rw [hchatbox] at hworksheet ⊢
    cases h : a.chatbox with
    | true => rfl
    | false =>
        simp only [h, Bool.false_eq_true, if_false, Option.some.injEq, Prod.mk.injEq] at hworksheet
        rw [hworksheet.1, hworksheet.2.1]

omit [DecidableEq κ] in
/-- The fingerprint has the line of each call, so the calls stand where they stood. -/
theorem sameTools_of_key (hkey : a'.viewModelFingerprint = a.viewModelFingerprint)
    (hcalls : a.SameCalls a') : ViewModel.SameTools a.tools a'.tools := by
  intro l
  have hlines : a'.order.map a'.resolvedLine = a.order.map a.resolvedLine :=
    congrArg ViewKey.toolLines hkey
  rw [hcalls.1] at hlines
  have hcount : a'.lineCount = a.lineCount := congrArg ViewKey.lineCount hkey
  show a'.order.filter _ = a.order.filter _
  rw [hcalls.1]
  refine List.filter_congr fun id hid => ?_
  have hline : a'.resolvedLine id = a.resolvedLine id := List.map_inj_left.1 hlines id hid
  show ((((a'.anchor id).map a'.editor.core.lineForAnchor).map fun line =>
      line.getD (a'.transcript.lineCount - 1)) == some l) =
    ((((a.anchor id).map a.editor.core.lineForAnchor).map fun line =>
      line.getD (a.transcript.lineCount - 1)) == some l)
  simp only [resolvedLine, hcalls.2] at hline
  rw [transcript_lineCount, transcript_lineCount, hcount, hcalls.2]
  cases han : a.anchor id with
  | none => rfl
  | some an =>
      rw [han] at hline
      simp only [Option.bind_some] at hline
      simp only [Option.map_some, hline]

end StreamedAgent

/-! ### The rebuild -/

namespace AgentViewModel

variable {parse : List (List Char) → Option β}

/-- The blocks that are kept are what their lines parse to. -/
def CacheSound (parse : List (List Char) → Option β) (m : AgentViewModel κ β) : Prop :=
  ∀ content b, m.blockCache.lookup content = some b → parse content = some b

theorem parseCached_eq {m : AgentViewModel κ β} (h : m.CacheSound parse)
    (content : List (List Char)) : parseCached parse m content = parse content := by
  rw [parseCached]
  cases hfind : m.blockCache.lookup content with
  | none => rfl
  | some b => exact (h content b hfind).symm

/-- Blocks that are found again are found as they are, and kept under their lines. -/
theorem detectBlocks_spec {m : AgentViewModel κ β} (hcache : m.CacheSound parse)
    (t : TranscriptLines)
    (hsame : m.blockCacheFrozen = some t.frozen →
      m.resolvedBlocks = ViewModel.resolve t parse) :
    (m.detectBlocks parse t).resolvedBlocks = ViewModel.resolve t parse ∧
      (m.detectBlocks parse t).blockCacheFrozen = some t.frozen ∧
        (m.detectBlocks parse t).CacheSound parse := by
  rw [detectBlocks]
  split
  · rename_i hfrozen
    exact ⟨hsame hfrozen, hfrozen, hcache⟩
  · refine ⟨?_, rfl, ?_⟩
    · simp only [parseCached_eq hcache]
      rfl
    · intro content b hfind
      obtain ⟨front, back, hsplit, -⟩ := List.lookup_eq_some_iff.1 hfind
      have hmem : (content, b) ∈ front ++ (content, b) :: back :=
        List.mem_append_right _ List.mem_cons_self
      rw [← hsplit] at hmem
      simp only [parseCached_eq hcache, List.mem_filterMap, List.mem_map] at hmem
      obtain ⟨-, ⟨r, -, rfl⟩, hkept⟩ := hmem
      obtain ⟨b', hparse, heq⟩ := Option.map_eq_some_iff.1 hkept
      cases heq
      exact hparse

theorem new_cacheSound : (AgentViewModel.new : AgentViewModel κ β).CacheSound parse := by
  intro content b h
  cases h

/-- A rebuild without caches. -/
theorem rebuild_new (a : StreamedAgent κ) :
    (new.rebuild parse a).resolvedBlocks = a.blocks parse :=
  (detectBlocks_spec new_cacheSound a.transcript fun h => by cases h).1

end AgentViewModel

namespace ViewedAgent

variable {parse : List (List Char) → Option β}

/-- What is rebuilt from the right blocks is up to date. -/
theorem upToDate_rebuild {a : StreamedAgent κ} {m : AgentViewModel κ β}
    (h : (m.detectBlocks parse a.transcript).resolvedBlocks = a.blocks parse) :
    UpToDate parse ⟨a, m.rebuild parse a⟩ := by
  have hnew : (AgentViewModel.new.detectBlocks parse a.transcript).resolvedBlocks =
      (m.detectBlocks parse a.transcript).resolvedBlocks :=
    (AgentViewModel.rebuild_new a).trans h.symm
  constructor
  · simp only [AgentViewModel.rebuild, hnew]
  · rfl
  · simp only [AgentViewModel.rebuild, hnew]
  · simp only [AgentViewModel.rebuild, hnew]
  · exact hnew.symm

/-- Under the same fingerprint a rebuild makes the same again. -/
theorem UpToDate.congr {a a' : StreamedAgent κ} {view : AgentViewModel κ β}
    (h : UpToDate parse ⟨a, view⟩)
    (hkey : a'.viewModelFingerprint = a.viewModelFingerprint) (hcalls : a.SameCalls a')
    (hmarks : Alike a.transcript a'.transcript) (hblocks : a'.blocks parse = a.blocks parse) :
    UpToDate parse ⟨a', view⟩ := by
  have hcount : a'.lineCount = a.lineCount := congrArg ViewKey.lineCount hkey
  have hresolved : (AgentViewModel.new.detectBlocks parse a'.transcript).resolvedBlocks =
      (AgentViewModel.new.detectBlocks parse a.transcript).resolvedBlocks :=
    ((AgentViewModel.rebuild_new a').trans hblocks).trans (AgentViewModel.rebuild_new a).symm
  have hitems : (AgentViewModel.new.rebuild parse a').flatItems =
      (AgentViewModel.new.rebuild parse a).flatItems := by
    simp only [AgentViewModel.rebuild, hresolved]
    exact ViewModel.flatItemsWith_congr hmarks (StreamedAgent.sameTools_of_key hkey hcalls)
      (StreamedAgent.sameSurface_of_key hkey) _
  constructor
  · exact h.flatItems.trans hitems.symm
  · refine h.gutter.trans ?_
    show (List.range a.lineCount).map a.transcript.tag =
      (List.range a'.lineCount).map a'.transcript.tag
    rw [hcount]
    exact List.map_congr_left fun i _ => (hmarks.tag i).symm
  · refine h.lineToItem.trans ?_
    show ViewModel.buildLineToItem (AgentViewModel.new.rebuild parse a).flatItems _ a.lineCount =
      ViewModel.buildLineToItem (AgentViewModel.new.rebuild parse a').flatItems _ a'.lineCount
    rw [hitems, hcount, hresolved]
  · refine h.navStops.trans ?_
    show ViewModel.buildNavStops a.transcript (AgentViewModel.new.rebuild parse a).flatItems =
      ViewModel.buildNavStops a'.transcript (AgentViewModel.new.rebuild parse a').flatItems
    rw [hitems]
    exact (ViewModel.buildNavStops_congr hmarks _).symm
  · exact h.resolvedBlocks.trans hresolved.symm

/-! ### Runs -/

/-- The view model is up to date, and the caches say what it was made from. -/
structure Kept (parse : List (List Char) → Option β) (s : ViewedAgent κ β) : Prop where
  upToDate : s.UpToDate parse
  fingerprint : s.view.fingerprint = some s.agent.viewModelFingerprint
  frozen : s.view.blockCacheFrozen = some s.agent.frozenLines
  cache : s.view.CacheSound parse

theorem Kept.resolvedBlocks {s : ViewedAgent κ β} (h : s.Kept parse) :
    s.view.resolvedBlocks = s.agent.blocks parse :=
  h.upToDate.resolvedBlocks.trans (AgentViewModel.rebuild_new s.agent)

theorem kept_rebuild {a : StreamedAgent κ} {m : AgentViewModel κ β} (hcache : m.CacheSound parse)
    (hsame : m.blockCacheFrozen = some a.frozenLines → m.resolvedBlocks = a.blocks parse) :
    Kept parse ⟨a, m.rebuild parse a⟩ := by
  have hspec := AgentViewModel.detectBlocks_spec hcache a.transcript hsame
  exact ⟨upToDate_rebuild hspec.1, rfl, hspec.2.1, hspec.2.2⟩

variable [DecidableEq κ]

/-- One operation, and the render behind it. -/
theorem Kept.step {s : ViewedAgent κ β} (h : s.Kept parse) {op : AgentOp κ}
    (hop : s.Announced parse op) : (s.step parse op).Kept parse := by
  have hsilent : s.agent.Silent parse (s.agent.apply op) := StreamedAgent.apply_silent hop
  rw [ViewedAgent.step, AgentViewModel.render]
  split
  · -- the list stays in use
    rename_i hsame
    have hkey : (s.agent.apply op).viewModelFingerprint = s.agent.viewModelFingerprint :=
      Option.some.inj (hsame.symm.trans h.fingerprint)
    have hmarks := hsilent.marks (congrArg ViewKey.lineCount hkey)
      (congrArg ViewKey.frozenLineCount hkey)
    refine ⟨h.upToDate.congr hkey (StreamedAgent.apply_sameCalls hkey) hmarks
      (hsilent.blocks hmarks.frozen), hsame, ?_, h.cache⟩
    exact h.frozen.trans (congrArg some hmarks.frozen.symm)
  · -- it is made anew, from the blocks at hand if nothing else is frozen
    refine kept_rebuild h.cache fun hfrozen => ?_
    have hlayout : (s.agent.apply op).frozenLines = s.agent.frozenLines :=
      Option.some.inj (hfrozen.symm.trans h.frozen)
    rw [hsilent.blocks hlayout]
    exact h.resolvedBlocks

theorem kept_of_reaches {s : ViewedAgent κ β}
    (h : (machine parse).Reaches (Announced parse) s) : s.Kept parse := by
  refine Machine.Reaches.invariant (P := Kept parse) ?_ ?_ h
  · rintro ⟨a, view⟩ hstart
    obtain rfl : view = AgentViewModel.new.rebuild parse a := hstart
    exact kept_rebuild AgentViewModel.new_cacheSound fun h => by cases h
  · intro s op s' hkept hop hstep
    obtain rfl := Option.some.inj hstep
    exact hkept.step hop

/-- Blocks that come, go or change under the same frozen ranges are not found. -/
theorem Kept.misses_blocks {s : ViewedAgent κ β} (h : s.Kept parse) {op : AgentOp κ}
    (hlayout : (s.agent.apply op).frozenLines = s.agent.frozenLines)
    (hblocks : (s.agent.apply op).blocks parse ≠ s.agent.blocks parse) :
    ¬ (s.step parse op).UpToDate parse := by
  intro hupToDate
  have hkeeps : (s.view.render parse (s.agent.apply op)).resolvedBlocks =
      s.view.resolvedBlocks := by
    rw [AgentViewModel.render]
    split
    · rfl
    · have hsame : s.view.blockCacheFrozen = some (s.agent.apply op).transcript.frozen :=
        h.frozen.trans (congrArg some hlayout.symm)
      rw [AgentViewModel.rebuild, AgentViewModel.detectBlocks, if_pos hsame]
  refine hblocks ?_
  rw [← h.resolvedBlocks, ← hkeeps, ← AgentViewModel.rebuild_new]
  exact hupToDate.resolvedBlocks.symm

/-- A tag that changes under the same fingerprint does not show. -/
theorem Kept.misses_tag {s : ViewedAgent κ β} (h : s.Kept parse) {op : AgentOp κ}
    (hkey : (s.agent.apply op).viewModelFingerprint = s.agent.viewModelFingerprint) {i : Nat}
    (hi : i < s.agent.lineCount)
    (htag : (s.agent.apply op).transcript.tag i ≠ s.agent.transcript.tag i) :
    ¬ (s.step parse op).UpToDate parse := by
  intro hupToDate
  have hkeeps : s.view.render parse (s.agent.apply op) = s.view := by
    rw [AgentViewModel.render, h.fingerprint, if_pos (congrArg some hkey.symm)]
  have hcount : (s.agent.apply op).lineCount = s.agent.lineCount :=
    congrArg ViewKey.lineCount hkey
  have hgutter : s.view.gutter = (List.range (s.agent.apply op).lineCount).map
      (s.agent.apply op).transcript.tag := by
    have := hupToDate.gutter
    rwa [show (s.step parse op).view = s.view from hkeeps] at this
  have hold : s.view.gutter = (List.range s.agent.lineCount).map s.agent.transcript.tag :=
    h.upToDate.gutter
  rw [hold, hcount] at hgutter
  exact htag (List.map_inj_left.1 hgutter i (List.mem_range.2 hi)).symm

/-- An agent without a transcript, in a worksheet. -/
def sampleAgent : StreamedAgent String where
  editor := ⟨.new [] "", ⟨⟨0, 0⟩, none, false⟩⟩
  order := []
  anchor _ := none
  expanded := ∅
  chatbox := false
  turnPhase := .awaiting
  focus := .transcript
  insertMode := false
  dragProtectLine := none
  youBlockOpen := false
  youBlockAnchor := none
  parkedYouBlocks := []
  fits := ⟨by decide, by decide, by decide⟩
  order_nodup := List.nodup_nil

/-- A block is its lines. -/
def sampleParse (content : List (List Char)) : Option (List (List Char)) := some content

def sampleViewed : ViewedAgent String (List (List Char)) :=
  ⟨sampleAgent, AgentViewModel.new.rebuild sampleParse sampleAgent⟩

/-- A chunk of three lines, a tool call behind it, and the phase after the turn. -/
def sampleOps : List (AgentOp String) :=
  [.chunk 1 "one\ntwo\nthree".toList, .toolCallStarted 1 "call", .moveCursor 0 0, .phase .idle]

end ViewedAgent

end Yaldabaoth
