import Yaldabaoth.Lib.Machine
import Yaldabaoth.Model.AgentViewModel

/-!
# `Yaldabaoth.Model.ReplyDrafts`: the You-blocks of a worksheet

The part of `AgentState` that keeps reply drafts while the agent is idle:
`settle_input_focus`, `open_you_block_at_cursor`, `collect_you_blocks`,
`freeze_you_blocks` and the end of `reset_for_replay`, with
`freeze_as_user_turn` and `freeze_as_user_turn_at` of `editor.rs`. The
lines of a transcript stand with their tags, which their anchors carry
along. Edit modes, reveals and the marker of a reply are left out.
-/

set_option autoImplicit false

namespace Yaldabaoth

inductive InputModeKind where
  | worksheet
  | chatbox
deriving Repr, DecidableEq

/-- A draft with the line that it is anchored at, none for the end. -/
abbrev YouBlock := Option Nat × List Char

structure ReplyDrafts where
  transcript : TranscriptLines
  cursorLine : Nat
  /-- `nav_stops_cache`, ascending. -/
  navStops : List Nat
  mode : InputModeKind
  compose : List Char
  focus : AgentFocus
  youBlockOpen : Bool
  youBlockAnchor : Option Nat
  parkedYouBlocks : List YouBlock

namespace TranscriptLines

/-- `document().is_empty()`. -/
def isEmpty (t : TranscriptLines) : Bool := t.lines == [[]]

/-- The transcript of a new `Editor`. -/
def blank : TranscriptLines where
  lines := [[]]
  lines_pos := by decide
  frozen := []
  tag := fun _ => none
  frozen_bounds := by simp
  frozen_sorted := by simp

def youBlockEffectiveLine (t : TranscriptLines) (anchor : Option Nat) : Nat :=
  anchor.getD (t.lineCount - 1)

/-- Whether every line below one anchor, down to the other, is blank. -/
def youBlocksWouldBeAdjacent (t : TranscriptLines) (a b : Option Nat) : Bool :=
  let la := t.youBlockEffectiveLine a
  let lb := t.youBlockEffectiveLine b
  (List.range' (min la lb + 1) (max la lb - min la lb)).all t.isBlank

end TranscriptLines

/-- `trim().is_empty()`. -/
def isBlankText (text : List Char) : Bool := (DiffText.trim text).isEmpty

namespace ReplyDrafts

/-- A new tile with a restored draft. -/
def fresh (t : TranscriptLines) (draft : List Char) : ReplyDrafts where
  transcript := t
  cursorLine := 0
  navStops := []
  mode := .worksheet
  compose := draft
  focus := .compose
  youBlockOpen := false
  youBlockAnchor := none
  parkedYouBlocks := []

variable (s : ReplyDrafts)

def closeYouBlock : ReplyDrafts :=
  { s with youBlockOpen := false, youBlockAnchor := none, parkedYouBlocks := [] }

def settleInputFocus : ReplyDrafts :=
  if s.mode = .chatbox then { s.closeYouBlock with focus := .compose }
  else if s.transcript.isEmpty || !isBlankText s.compose then
    { s with youBlockOpen := true, youBlockAnchor := none, focus := .compose }
  else { s.closeYouBlock with focus := .transcript }

/-- The transcript is emptied; the drafts are not. -/
def resetForReplay : ReplyDrafts :=
  settleInputFocus { s with transcript := .blank, cursorLine := 0, navStops := [] }

/-- The last stop up to the line. -/
def snapNavStop (line : Nat) : Option Nat :=
  (s.navStops.takeWhile fun stop => decide (stop ≤ line)).getLast?

/-- Where a block opens for a caret on the line, if it may. -/
def snapped (line : Nat) : Option Nat :=
  if s.transcript.youBlockAnchorIsLegal line then some ((s.snapNavStop line).getD line) else none

/-- The open draft is put aside unless it is blank. -/
def stash : List YouBlock :=
  if s.youBlockOpen && !isBlankText s.compose then
    s.parkedYouBlocks ++ [(s.youBlockAnchor, s.compose)]
  else s.parkedYouBlocks

/-- What an opening does to the blocks. -/
def openAt (target : Option Nat) : ReplyDrafts :=
  if s.youBlockOpen && s.transcript.youBlocksWouldBeAdjacent s.youBlockAnchor target then s
  else
    match s.parkedYouBlocks.findIdx? fun p => s.transcript.youBlocksWouldBeAdjacent p.1 target with
    | some i =>
        match s.parkedYouBlocks[i]? with
        | some parked =>
            { s with
              -- the index is that of a block parked before the stash
              parkedYouBlocks := s.stash.eraseIdx i
              mode := .worksheet
              compose := parked.2
              youBlockOpen := true
              youBlockAnchor := parked.1 }
        | none => s
    | none =>
        match target with
        | some anchor =>
            if !s.youBlockOpen && s.parkedYouBlocks.isEmpty then
              { s with youBlockOpen := true, youBlockAnchor := some anchor }
            else
              { s with
                parkedYouBlocks := s.stash
                mode := .worksheet
                compose := []
                youBlockOpen := true
                youBlockAnchor := some anchor }
        | none =>
            if s.youBlockOpen then s else { s with youBlockOpen := true, youBlockAnchor := none }

def openYouBlockAtCursor : ReplyDrafts :=
  { s.openAt (s.snapped s.cursorLine) with focus := .compose }

/-! ### Freezing -/

/-- The anchor that is used: one that is not legal is the end. -/
def effective (anchor : Option Nat) : Option Nat :=
  anchor.filter fun l => s.transcript.youBlockAnchorIsLegal l

/-- An anchor in the order of the document, the end behind every line. -/
def anchorBefore (a b : Option Nat) : Prop :=
  match a, b with
  | some i, some j => i ≤ j
  | _, none => True
  | none, some _ => False

instance : DecidableRel anchorBefore := fun a b => by
  unfold anchorBefore
  cases a <;> cases b <;> infer_instance

def collectYouBlocks : List YouBlock :=
  let parked := (s.parkedYouBlocks.filter fun p => !isBlankText p.2).map fun p =>
    (s.effective p.1, p.2)
  let active :=
    if s.youBlockOpen && !isBlankText s.compose then [(s.effective s.youBlockAnchor, s.compose)]
    else []
  (parked ++ active).insertionSort fun a b => anchorBefore a.1 b.1

end ReplyDrafts

/-- A line with its tag. -/
abbrev TaggedLine := List Char × Option TurnId

def TranscriptLines.tagged (t : TranscriptLines) : List TaggedLine :=
  t.lines.zipIdx.map fun p => (p.1, t.tag p.2)

namespace Freezing

/-- `split('\n')`. -/
def splitLines (text : List Char) : List (List Char) := text.splitOn '\n'

/-- `strip_suffix('\n')`. -/
def stripSuffix (text : List Char) : List Char :=
  if text.getLast? = some '\n' then text.dropLast else text

/-- Whether the last character of the document is a newline. -/
def endsLine (lines : List TaggedLine) : Bool :=
  decide (1 < lines.length) && (lines.getLast?.any fun l => l.1.isEmpty)

def isEmptyDocument (lines : List TaggedLine) : Bool :=
  decide (lines.length ≤ 1) && lines.all fun l => l.1.isEmpty

/-- A text put behind the last character. -/
def append (lines : List TaggedLine) (text : List Char) : List TaggedLine :=
  match lines.getLast?, splitLines text with
  | some last, first :: more =>
      -- a line break at column 0 takes the anchor of the line down with it
      let carrier := if last.1.isEmpty then more.length else 0
      lines.dropLast ++ ((last.1 ++ first) :: more).zipIdx.map fun p =>
        (p.1, if p.2 = carrier then last.2 else none)
  | _, _ => lines

/-- `freeze_as_user_turn`. -/
def freezeAsUserTurn (lines : List TaggedLine) (text : List Char) (turn : TurnId) :
    List TaggedLine :=
  let lines :=
    if !isEmptyDocument lines && !endsLine lines then append lines ['\n'] else lines
  let start := lines.length - 1
  let lines := append lines (stripSuffix text)
  let lines := if endsLine lines then lines else append lines ['\n']
  lines.take start ++ (lines.drop start).map fun l => (l.1, some turn)

/-- `freeze_as_user_turn_at`. -/
def freezeAsUserTurnAt (lines : List TaggedLine) (afterLine : Nat) (text : List Char)
    (turn : TurnId) : List TaggedLine :=
  if lines.length ≤ afterLine + 1 then freezeAsUserTurn lines text turn
  else
    lines.take (afterLine + 1) ++ (splitLines (stripSuffix text)).map (fun l => (l, some turn)) ++
      lines.drop (afterLine + 1)

/-- The blocks in the order they are frozen in, the end first. -/
def freezeOrder (blocks : List YouBlock) : List YouBlock :=
  blocks.insertionSort fun a b => ReplyDrafts.anchorBefore b.1 a.1

def freezeBlock (turn : TurnId) (lines : List TaggedLine) (block : YouBlock) : List TaggedLine :=
  match block.1 with
  | some a => freezeAsUserTurnAt lines a block.2 turn
  | none => freezeAsUserTurn lines block.2 turn

def freezeYouBlocks (lines : List TaggedLine) (blocks : List YouBlock) (k : Nat) :
    List TaggedLine :=
  (freezeOrder blocks).foldl (freezeBlock (.user k)) lines

end Freezing

/-! ### The machine -/

inductive DraftAct where
  | reset
  | settle
  /-- The caret moves to a line of the transcript. -/
  | moveCaret (line : Nat)
  /-- The view caches its stops. -/
  | navStops (stops : List Nat)
  /-- The open draft becomes another text. -/
  | type (text : List Char)
  | openAtCursor
deriving Repr, DecidableEq

namespace ReplyDrafts

def step (s : ReplyDrafts) : DraftAct → Option ReplyDrafts
  | .reset => some s.resetForReplay
  | .settle => some s.settleInputFocus
  | .moveCaret line =>
      if line < s.transcript.lineCount then some { s with cursorLine := line } else none
  | .navStops stops => some { s with navStops := stops }
  | .type text => if s.youBlockOpen then some { s with compose := text } else none
  | .openAtCursor => some s.openYouBlockAtCursor

/-- Tiles are settled when they are made. -/
def machine : Machine ReplyDrafts DraftAct where
  start s := ∃ t draft, s = (fresh t draft).settleInputFocus
  step := step

end ReplyDrafts

end Yaldabaoth
