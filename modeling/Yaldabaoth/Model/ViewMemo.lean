import Mathlib.Data.Finset.Basic
import Yaldabaoth.Lib.Machine
import Yaldabaoth.Model.AgentViewModel
import Yaldabaoth.Proofs.View.Streamed

/-!
# `Yaldabaoth.Model.ViewMemo`: when the list of a transcript is built again

`view_model_fingerprint` and `rebuild_agent_view_model` of `agent.rs` with
its caches, over an agent that `apply_reply_events`, the keys and the
You-blocks change. A fingerprint is the data that goes into its hash, and
the parsed blocks are kept by their lines, so two of either never collide.
A key press or an event is followed by a render.
-/

set_option autoImplicit false

namespace Yaldabaoth

open Rope

/-! ### The agent -/

/-- What the list reads of `AgentState`. -/
structure StreamedAgent (κ : Type) where
  editor : Editor Char TurnId
  /-- `tools.order`, which has the keys of `tools.calls`. -/
  order : List κ
  anchor : κ → Option LineAnchor
  expanded : Finset String
  chatbox : Bool
  turnPhase : TurnPhase
  focus : AgentFocus
  insertMode : Bool
  dragProtectLine : Option Nat
  youBlockOpen : Bool
  youBlockAnchor : Option Nat
  parkedYouBlocks : List (Option Nat × List Char)
  fits : editor.Fits
  order_nodup : order.Nodup

/-- `display_line`. -/
def displayLine (rope : List Char) (i : Nat) : List Char :=
  ((line rope i).flatMap fun ch =>
    if ch = '\t' then [' ', ' ', ' ', ' '] else [ch]).rdropWhile fun ch => ch == '\n'

namespace StreamedAgent

variable {κ : Type} (a : StreamedAgent κ)

def lineCount : Nat := lenLines a.editor.rope

def frozenLines : List (Nat × Nat) := a.editor.core.frozenLines

def frozenLineCount : Nat := (a.frozenLines.map fun r => r.2 - r.1).sum

def transcript : TranscriptLines where
  lines := (List.range a.lineCount).map (displayLine a.editor.rope)
  lines_pos := by simp [lineCount, lenLines]
  frozen := a.frozenLines
  tag := a.editor.core.lineMeta
  frozen_bounds r hr := ⟨Nat.le_of_lt (a.fits.frozen_sorted.nonempty r hr), by
    simpa [lineCount] using a.fits.frozen_bounds r hr⟩
  frozen_sorted := a.fits.frozen_sorted.apart

@[simp] theorem transcript_lineCount : a.transcript.lineCount = a.lineCount := by
  simp [transcript, TranscriptLines.lineCount]

/-- The line of a call, where its anchor has one. -/
def resolvedLine (id : κ) : Option Nat := (a.anchor id).bind a.editor.core.lineForAnchor

def tools : ToolCalls κ a.transcript.lineCount where
  order := a.order
  anchor id := (a.anchor id).map a.editor.core.lineForAnchor
  order_nodup := a.order_nodup
  anchor_bounds id l h := by
    obtain ⟨an, -, hl⟩ := Option.map_eq_some_iff.1 h
    rw [transcript_lineCount]
    exact a.fits.lineFor_lt hl

def surface : AgentSurface where
  chatbox := a.chatbox
  turnPhase := a.turnPhase
  focus := a.focus
  cursorLine := a.editor.view.cursor.line
  dragProtectLine := a.dragProtectLine
  youBlockOpen := a.youBlockOpen
  youBlockAnchor := a.youBlockAnchor
  parked := a.parkedYouBlocks.map Prod.fst

end StreamedAgent

/-! ### The fingerprint -/

/-- What `view_model_fingerprint` hashes. -/
structure ViewKey (κ : Type) where
  lineCount : Nat
  frozenLineCount : Nat
  toolCount : Nat
  lastTool : Option κ
  toolLines : List (Option Nat)
  expanded : Finset String
  isAwaiting : Bool
  /-- In a worksheet the line of the cursor, the line kept while a mouse
  selects, and whether the mode is Insert. -/
  worksheet : Option (Nat × Option Nat × Bool)
  inlineYouBlockActive : Bool
  youBlockAnchor : Option Nat
  parked : List (Option Nat × List Char)
deriving DecidableEq

namespace StreamedAgent

variable {κ : Type} (a : StreamedAgent κ)

def viewModelFingerprint : ViewKey κ where
  lineCount := a.lineCount
  frozenLineCount := a.frozenLineCount
  toolCount := a.order.length
  lastTool := a.order.getLast?
  toolLines := a.order.map a.resolvedLine
  expanded := a.expanded
  isAwaiting := a.turnPhase.isAwaiting
  worksheet :=
    if a.chatbox then none
    else some (a.editor.view.cursor.line, a.dragProtectLine, a.insertMode)
  inlineYouBlockActive := a.surface.inlineYouBlockActive
  youBlockAnchor := a.youBlockAnchor
  parked := a.parkedYouBlocks

end StreamedAgent

/-! ### The rebuild -/

namespace ViewModel

variable {κ β : Type}

/-- `flatItems`, with the blocks at hand. -/
def flatItemsWith (t : TranscriptLines) (tools : ToolCalls κ t.lineCount) (s : AgentSurface)
    (resolved : List (ResolvedBlock β)) : List (FlatItem κ β) :=
  let flat := flatLoop t tools none resolved (List.range t.lineCount)
  let merged := mergeGroups (collapseFrom t s.protectLine none flat)
  let tail := if s.turnPhase.isAwaiting then [.thinkingIndicator] else []
  insertYouBlocks t s (dropHeaders (merged ++ tail)).1

/-- The text lines of the list without frozen padding, and every line that is not frozen. -/
def buildNavStops (t : TranscriptLines) (items : List (FlatItem κ β)) : List Nat :=
  let shown := items.filterMap fun item =>
    match item with
    | .line i => if t.isFrozen i && t.isBlank i then none else some i
    | _ => none
  let editable := (List.range t.lineCount).filter fun l => !t.isFrozen l
  ((shown ++ editable).insertionSort fun l l' => l ≤ l').dedup

end ViewModel

/-- `AgentViewModel`. -/
structure AgentViewModel (κ β : Type) where
  blockCache : List (List (List Char) × β)
  blockCacheFrozen : Option (List (Nat × Nat))
  resolvedBlocks : List (ResolvedBlock β)
  flatItems : List (FlatItem κ β)
  gutter : List (Option TurnId)
  lineToItem : List Nat
  navStops : List Nat
  fingerprint : Option (ViewKey κ)

namespace AgentViewModel

variable {κ β : Type}

def new : AgentViewModel κ β where
  blockCache := []
  blockCacheFrozen := none
  resolvedBlocks := []
  flatItems := []
  gutter := []
  lineToItem := []
  navStops := []
  fingerprint := none

section
variable (parse : List (List Char) → Option β)

/-- The block of a range, parsed unless its lines have been. -/
def parseCached (m : AgentViewModel κ β) (content : List (List Char)) : Option β :=
  (m.blockCache.lookup content).or (parse content)

/-- The blocks, found again when the frozen ranges are others. -/
def detectBlocks (t : TranscriptLines) (m : AgentViewModel κ β) : AgentViewModel κ β :=
  if m.blockCacheFrozen = some t.frozen then m
  else
    let content := fun (r : Nat × Nat) => (t.lines.drop r.1).take (r.2 - r.1)
    let resolved := t.detectBlockRanges.map fun r => (r, parseCached parse m (content r))
    { m with
        blockCache := resolved.filterMap fun r => r.2.map fun b => (content r.1, b)
        blockCacheFrozen := some t.frozen
        resolvedBlocks := resolved }

/-- `rebuild_agent_view_model`. -/
def rebuild (a : StreamedAgent κ) (m : AgentViewModel κ β) : AgentViewModel κ β :=
  let m := m.detectBlocks parse a.transcript
  let items := ViewModel.flatItemsWith a.transcript a.tools a.surface m.resolvedBlocks
  { m with
      flatItems := items
      gutter := (List.range a.lineCount).map a.transcript.tag
      lineToItem := ViewModel.buildLineToItem items m.resolvedBlocks a.lineCount
      navStops := ViewModel.buildNavStops a.transcript items
      fingerprint := some a.viewModelFingerprint }

variable [DecidableEq κ]

/-- The view model that a render uses. -/
def render (a : StreamedAgent κ) (m : AgentViewModel κ β) : AgentViewModel κ β :=
  if m.fingerprint = some a.viewModelFingerprint then m else m.rebuild parse a

end

end AgentViewModel

/-! ### What changes the agent -/

inductive AgentOp (κ : Type) where
  | chunk (turn : Nat) (text : List Char)
  | toolCallStarted (turn : Nat) (id : κ)
  | toolCallUpdated (turn : Nat) (id : κ)
  | notice (text : List Char)
  | userTurn (turn : Nat) (text : List Char)
  /-- A draft frozen below a line. -/
  | reply (turn afterLine : Nat) (text : List Char)
  | turnFinalized
  | phase (p : TurnPhase)
  | moveCursor (line col : Nat)
  | drag (protect : Option Nat)
  | mode (inserting : Bool)
  | inputSurface (chatbox : Bool)
  | focus (f : AgentFocus)
  /-- The active You-block, opened, moved or closed. -/
  | youBlock (isOpen : Bool) (anchor : Option Nat)
  | park (blocks : List (Option Nat × List Char))
  | toggleExpanded (id : String)

namespace StreamedAgent

variable {κ : Type} [DecidableEq κ] (a : StreamedAgent κ)

/-- The agent with a new call, `register`ed at its anchor. -/
def startTool (turn : Nat) (id : κ) : StreamedAgent κ :=
  let made := a.editor.anchorForNewToolCall a.editor.agentTailFloorChar
  { a with
      editor := made.2.withCore (made.2.core.insertMetadata made.1 (.tool turn))
      order := if id ∈ a.order then a.order else a.order ++ [id]
      anchor := fun id' => if id' = id then some made.1 else a.anchor id'
      fits := (a.fits.anchorForNewToolCall _).insertMetadata _ _
      order_nodup := by
        split
        · exact a.order_nodup
        · rename_i hid
          exact a.order_nodup.append (List.nodup_singleton id)
            (List.disjoint_singleton.2 hid) }

def apply : AgentOp κ → StreamedAgent κ
  | .chunk turn text =>
      { a with
          editor := a.editor.appendLlmChunkFloored (.llm turn) text a.editor.agentTailFloorChar
          fits := a.fits.appendLlmChunkFloored _ _ _ }
  | .toolCallStarted turn id => a.startTool turn id
  | .toolCallUpdated turn id => if id ∈ a.order then a else a.startTool turn id
  | .notice text =>
      { a with
          editor := a.editor.appendSystemNotice text
          fits := a.fits.appendSystemLine _ }
  | .userTurn turn text =>
      { a with
          editor := a.editor.freezeAsUserTurn text (.user turn)
          fits := a.fits.freezeAsUserTurn _ _ }
  | .reply turn afterLine text =>
      { a with
          editor := a.editor.freezeAsUserTurnAt afterLine text (.user turn)
          fits := a.fits.freezeAsUserTurnAt _ _ _ }
  | .turnFinalized =>
      { a with
          editor := a.editor.withCore a.editor.core.clearCachedLlmLine
          fits := a.fits.clearCachedLlmLine }
  | .phase p => { a with turnPhase := p }
  | .moveCursor l col =>
      { a with
          editor := a.editor.setCursor l col
          fits := ⟨a.fits.frozen_sorted, a.fits.frozen_bounds, a.fits.anchor_bounds⟩ }
  | .drag protect => { a with dragProtectLine := protect }
  | .mode inserting => { a with insertMode := inserting }
  | .inputSurface chatbox => { a with chatbox }
  | .focus f => { a with focus := f }
  | .youBlock isOpen anchor => { a with youBlockOpen := isOpen, youBlockAnchor := anchor }
  | .park blocks => { a with parkedYouBlocks := blocks }
  | .toggleExpanded id =>
      { a with expanded := if id ∈ a.expanded then a.expanded.erase id else a.expanded ∪ {id} }

end StreamedAgent

/-- An agent, and the view model of its tile. -/
structure ViewedAgent (κ β : Type) where
  agent : StreamedAgent κ
  view : AgentViewModel κ β

namespace ViewedAgent

variable {κ β : Type} [DecidableEq κ] (parse : List (List Char) → Option β)

def step (s : ViewedAgent κ β) (op : AgentOp κ) : ViewedAgent κ β :=
  ⟨s.agent.apply op, s.view.render parse (s.agent.apply op)⟩

/-- Any agent, rendered once. -/
def machine : Machine (ViewedAgent κ β) (AgentOp κ) where
  start s := s.view = AgentViewModel.new.rebuild parse s.agent
  step s op := some (s.step parse op)

end ViewedAgent

end Yaldabaoth
