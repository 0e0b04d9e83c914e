import Mathlib.Algebra.GroupWithZero.Nat
import Mathlib.Data.List.Sort
import Yaldabaoth.Lib.Assoc
import Yaldabaoth.Model.AgentState
import Yaldabaoth.Model.DiffModel

/-!
# `Yaldabaoth.Model.AgentViewModel`: the rendered list of a transcript

`detect_block_ranges`, `build_line_to_item`, `build_nav_stops` and
`rebuild_agent_view_model` of `agent.rs`, run with empty caches. What
`parse_block_range` makes of the lines of a block is a parameter, and a
block is whatever it makes. Positions in the list, which the source keeps
as `u32`, are numbers.
-/

set_option autoImplicit false

namespace Yaldabaoth

/-- What `editor` and `document` say of the transcript: its lines, of
which there is always one, the frozen ones among them, and the tags. -/
structure TranscriptLines where
  lines : List (List Char)
  lines_pos : 0 < lines.length
  frozen : List (Nat × Nat)
  /-- `anchor_for_line_opt` and `metadata::<TurnId>`. -/
  tag : Nat → Option TurnId
  frozen_bounds : ∀ r ∈ frozen, r.1 ≤ r.2 ∧ r.2 ≤ lines.length
  frozen_sorted : frozen.Pairwise fun a b => a.2 ≤ b.1

namespace TranscriptLines

variable (t : TranscriptLines)

def lineCount : Nat := t.lines.length

/-- A line without the white space around it; beyond the end it is empty. -/
def trimmed (i : Nat) : List Char := DiffText.trim ((t.lines)[i]?.getD [])

def isBlank (i : Nat) : Bool := (t.trimmed i).isEmpty

def isFrozen (i : Nat) : Bool := t.frozen.any fun r => decide (r.1 ≤ i) && decide (i < r.2)

/-! ### Blocks -/

def isFence (text : List Char) : Bool := ['\x60', '\x60', '\x60'].isPrefixOf text

def isTableRow (text : List Char) : Bool := text.head? == some '|' && text.getLast? == some '|'

def byteLen (text : List Char) : Nat := (text.map Char.utf8Size).sum

/-- The end of the frozen range that holds the line. -/
def turnEnd (start : Nat) : Nat :=
  ((t.frozen.find? fun r => decide (r.1 ≤ start) && decide (start < r.2)).map Prod.snd).getD
    t.lineCount

/-- The closing fence of the turn, for the fence that opens at `start`. -/
def closingFence (start : Nat) : Option Nat :=
  (List.range' (start + 1) (t.turnEnd start - (start + 1))).find? fun i =>
    isFence (t.trimmed i) && decide (byteLen (t.trimmed i) ≤ byteLen (t.trimmed start) + 20)

/-- How many rows of a table stand from `start` on. -/
def tableRows (start : Nat) : Nat :=
  ((List.range' start (t.lineCount - start)).takeWhile fun i =>
    t.isFrozen i && isTableRow (t.trimmed i)).length

/-- The loop of `detect_block_ranges`, which takes at least one line in each
turn. -/
def detectFrom : Nat → Nat → List (Nat × Nat)
  | 0, _ => []
  | fuel + 1, i =>
      if i < t.lineCount then
        if !t.isFrozen i then detectFrom fuel (i + 1)
        else if isFence (t.trimmed i) then
          match t.closingFence i with
          | some j => (i, j + 1) :: detectFrom fuel (j + 1)
          -- an open fence stays lines
          | none => detectFrom fuel (i + 1)
        else if isTableRow (t.trimmed i) then
          let j := i + t.tableRows i
          if 3 ≤ t.tableRows i then (i, j) :: detectFrom fuel j else detectFrom fuel j
        else detectFrom fuel (i + 1)
      else []

def detectBlockRanges : List (Nat × Nat) := t.detectFrom t.lineCount 0

end TranscriptLines

/-! ### The list -/

inductive TurnRole where
  | claude
  | user
deriving Repr, DecidableEq

/-- `HeaderRole::from_turn` and `into_turn_role`. -/
def TurnId.headerRole : TurnId → Option TurnRole
  | .llm _ => some .claude
  | .user _ => some .user
  | .tool _ => none
  | .system => none

inductive FlatItem (κ β : Type) where
  | line (idx : Nat)
  | toolGroup (anchorLine : Nat) (ids : List κ)
  | block (b : β)
  | turnHeader (role : TurnRole)
  | thinkingIndicator
  | youBlock (parked : Option Nat)
deriving Repr, DecidableEq

namespace FlatItem

variable {κ β : Type}

def isStructural : FlatItem κ β → Bool
  | .toolGroup .. => true
  | .turnHeader _ => true
  | .block _ => true
  | _ => false

def isHeader : FlatItem κ β → Bool
  | .turnHeader _ => true
  | _ => false

end FlatItem

/-- `ResolvedBlock`: a range, with the block where its text is one. -/
abbrev ResolvedBlock (β : Type) := (Nat × Nat) × Option β

/-- `ToolCalls`, with the calls in the order they were announced. A live
anchor is on a line of the document. -/
structure ToolCalls (κ : Type) (lineCount : Nat) where
  order : List κ
  /-- `anchor`, and the line that `line_for_anchor` finds for it. -/
  anchor : κ → Option (Option Nat)
  order_nodup : order.Nodup
  anchor_bounds : ∀ id line, anchor id = some (some line) → line < lineCount

inductive AgentFocus where
  | compose
  | transcript
  | panel
deriving Repr, DecidableEq

/-- What the list takes from the rest of `AgentState`. -/
structure AgentSurface where
  chatbox : Bool
  turnPhase : TurnPhase
  focus : AgentFocus
  cursorLine : Nat
  dragProtectLine : Option Nat
  youBlockOpen : Bool
  youBlockAnchor : Option Nat
  /-- The anchors of `parked_you_blocks`. -/
  parked : List (Option Nat)
deriving Repr, DecidableEq

namespace TranscriptLines

variable (t : TranscriptLines)

/-- The number of the most recent agent turn. -/
def latestTurn : Option Nat :=
  ((List.range t.lineCount).filterMap fun i =>
    match t.tag i with
    | some (.llm n) => some n
    | _ => none).max?

def youBlockAnchorIsLegal (l : Nat) : Bool :=
  if t.lineCount - 1 ≤ l then true
  else
    match t.latestTurn with
    | none => true
    | some latest => decide (t.tag l = some (.llm latest))

end TranscriptLines

namespace AgentSurface

def inlineYouBlockActive (s : AgentSurface) : Bool :=
  (s.youBlockOpen || s.focus == .compose) && !s.turnPhase.isAwaiting && !s.chatbox

def effectiveYouBlockAnchor (s : AgentSurface) (t : TranscriptLines) : Option Nat :=
  s.youBlockAnchor.filter fun l => t.youBlockAnchorIsLegal l

/-- The line that is never collapsed. -/
def protectLine (s : AgentSurface) : Option Nat :=
  if s.chatbox then none else some (s.dragProtectLine.getD s.cursorLine)

end AgentSurface

/-! ### The passes -/

namespace ViewModel

variable {κ β : Type}

section
variable (t : TranscriptLines)

/-- The line that a call stands below; a stale anchor falls back to the end. -/
def toolLine (tools : ToolCalls κ t.lineCount) (id : κ) : Option Nat :=
  (tools.anchor id).map fun line => line.getD (t.lineCount - 1)

def toolsAtLine (tools : ToolCalls κ t.lineCount) (line : Nat) : List κ :=
  tools.order.filter fun id => toolLine t tools id == some line

def resolve (parse : List (List Char) → Option β) : List (ResolvedBlock β) :=
  t.detectBlockRanges.map fun r => (r, parse ((t.lines.drop r.1).take (r.2 - r.1)))

/-- Whether the run of lines without a header from here on holds text. -/
def runNonEmpty (line : Nat) : Bool :=
  ((List.range' line (t.lineCount - line)).takeWhile fun j =>
    ((t.tag j).bind TurnId.headerRole).isNone).any fun j => !t.isBlank j

/-- The header above a line, and the turn that runs after it. -/
def headerAt (prev : Option TurnId) (line : Nat) : Option TurnRole × Option TurnId :=
  match t.tag line with
  | some tid =>
      match tid.headerRole with
      | some role => if prev = some tid then (none, prev) else (some role, some tid)
      | none => (none, prev)
  | none =>
      if prev.isSome && runNonEmpty t line then (some .user, none) else (none, prev)

/-- The line, or the block that begins there. -/
def lineOrBlock (blocks : List (ResolvedBlock β)) (line : Nat) : List (FlatItem κ β) :=
  match blocks.head? with
  | some ((start, stop), some b) =>
      if start ≤ line ∧ line < stop then if line = start then [.block b] else []
      else [.line line]
  | _ => [.line line]

def toolGroupAt (tools : ToolCalls κ t.lineCount) (line : Nat) : List (FlatItem κ β) :=
  if (toolsAtLine t tools line).isEmpty then [] else [.toolGroup line (toolsAtLine t tools line)]

def flatLoop (tools : ToolCalls κ t.lineCount) :
    Option TurnId → List (ResolvedBlock β) → List Nat → List (FlatItem κ β)
  | _, _, [] => []
  | prev, blocks, line :: rest =>
      let (header, prev) := headerAt t prev line
      let blocks := blocks.dropWhile fun r => decide (r.1.2 ≤ line)
      (header.map FlatItem.turnHeader).toList ++ lineOrBlock blocks line ++
        toolGroupAt t tools line ++ flatLoop tools prev blocks rest

def isBlankLine (protect : Option Nat) : FlatItem κ β → Bool
  | .line i => some i != protect && t.isBlank i
  | _ => false

def isFrozenLine : FlatItem κ β → Bool
  | .line i => t.isFrozen i
  | _ => false

/-- Whether the item stays, by the item before it, which stayed or not, and the one behind. -/
def keeps (protect : Option Nat) (before : Option (FlatItem κ β × Bool)) (item : FlatItem κ β)
    (behind : Option (FlatItem κ β)) : Bool :=
  if !isBlankLine t protect item then true
  else if isFrozenLine t item then false
  else
    match behind with
    | none => false
    | some next =>
        if (before.any fun p => p.1.isStructural) || next.isStructural then false
        else !before.any fun p => isBlankLine t protect p.1 && p.2

def collapseFrom (protect : Option Nat) :
    Option (FlatItem κ β × Bool) → List (FlatItem κ β) → List (FlatItem κ β)
  | _, [] => []
  | before, item :: rest =>
      if keeps t protect before item rest.head? then
        item :: collapseFrom protect (some (item, true)) rest
      else collapseFrom protect (some (item, false)) rest

end

/-- Groups that follow one another become one; the list so far has its last
item first. -/
def mergeStep (merged : List (FlatItem κ β)) (item : FlatItem κ β) : List (FlatItem κ β) :=
  match item, merged with
  | .toolGroup _ ids, .toolGroup anchorLine earlier :: more =>
      .toolGroup anchorLine (earlier ++ ids) :: more
  | item, merged => item :: merged

def mergeGroups (items : List (FlatItem κ β)) : List (FlatItem κ β) :=
  (items.foldl mergeStep []).reverse

/-- The scan from right to left that drops a header without content. -/
def dropHeaders : List (FlatItem κ β) → List (FlatItem κ β) × Bool
  | [] => ([], false)
  | item :: rest =>
      let (kept, content) := dropHeaders rest
      if item.isHeader then (if content then item :: kept else kept, false)
      else (item :: kept, true)

/-- The place of a You-block in the list: behind the last line up to its anchor. -/
def slot (items : List (FlatItem κ β)) (anchor : Option Nat) : Nat :=
  match anchor with
  | none => items.length
  | some a =>
      (items.zipIdx.reverse.findSome? fun p =>
        match p.1 with
        | .line i => if i ≤ a then some (p.2 + 1) else none
        | _ => none).getD items.length

/-- Where the You-blocks go, the last place first. -/
def inserts (t : TranscriptLines) (s : AgentSurface) (items : List (FlatItem κ β)) :
    List (Nat × Option Nat) :=
  let active :=
    if s.inlineYouBlockActive then [(slot items (s.effectiveYouBlockAnchor t), none)] else []
  let parked := s.parked.zipIdx.map fun p =>
    (slot items (p.1.filter fun l => t.youBlockAnchorIsLegal l), some p.2)
  (active ++ parked).insertionSort fun a b => b.1 ≤ a.1

def insertYouBlocks (t : TranscriptLines) (s : AgentSurface) (items : List (FlatItem κ β)) :
    List (FlatItem κ β) :=
  if s.chatbox || s.turnPhase.isAwaiting then items
  else
    (inserts t s items).foldl
      (fun items p => items.insertIdx (min p.1 items.length) (.youBlock p.2)) items

/-- The list and the blocks that a rebuild makes. -/
def flatItems (t : TranscriptLines) (tools : ToolCalls κ t.lineCount) (s : AgentSurface)
    (parse : List (List Char) → Option β) : List (FlatItem κ β) :=
  let flat := flatLoop t tools none (resolve t parse) (List.range t.lineCount)
  let merged := mergeGroups (collapseFrom t s.protectLine none flat)
  let tail := if s.turnPhase.isAwaiting then [.thinkingIndicator] else []
  insertYouBlocks t s (dropHeaders (merged ++ tail)).1

/-! ### The reverse index -/

/-- The ranges that became blocks. -/
def parsedRanges (resolved : List (ResolvedBlock β)) : List (Nat × Nat) :=
  resolved.filterMap fun r => r.2.map fun _ => r.1

/-- The lines get the place of their item, a block those of the next range. -/
def mapItems (lineCount : Nat) :
    List (FlatItem κ β × Nat) → List (Nat × Nat) → List (Option Nat) → List (Option Nat)
  | [], _, map => map
  | (.line i, p) :: rest, parsed, map => mapItems lineCount rest parsed (map.set i (some p))
  | (.block _, p) :: rest, r :: parsed, map =>
      mapItems lineCount rest parsed
        ((List.range' r.1 (min r.2 lineCount - r.1)).foldl (fun map l => map.set l (some p)) map)
  | _ :: rest, parsed, map => mapItems lineCount rest parsed map

/-- Lines without an item take that of the line above. -/
def fillIn : Nat → List (Option Nat) → List Nat
  | _, [] => []
  | last, v :: rest => v.getD last :: fillIn (v.getD last) rest

def buildLineToItem (items : List (FlatItem κ β)) (resolved : List (ResolvedBlock β))
    (lineCount : Nat) : List Nat :=
  fillIn 0 (mapItems lineCount items.zipIdx (parsedRanges resolved) (List.replicate lineCount none))

end ViewModel

end Yaldabaoth
