import Yaldabaoth.Model.AgentState
import Yaldabaoth.Model.DiffModel
import Yaldabaoth.Model.Editor

/-!
# `Yaldabaoth.Model.StreamedText`: what the program writes into a transcript

`Editor::append_llm_chunk_floored`, `freeze_as_user_turn` and
`freeze_as_user_turn_at` of `editor.rs`, with `anchor_for_new_tool_call`
and `agent_tail_floor_char` of `agent.rs` and `append_system_line` of
`agent_ui.rs`. The metadata of a line is the tag of its turn.
-/

set_option autoImplicit false

namespace Yaldabaoth

open Rope

/-- `SENTENCE_CLOSERS`. -/
def sentenceClosers : List Char :=
  ['*', '_', '\x60', '~', ')', ']', '\x7d', '\x22', '\x27', '»', '”', '’']

namespace EditorCore

variable {μ : Type} [DecidableEq μ]

def lastLineWithMeta (core : EditorCore Char μ) (tag : μ) : Option Nat :=
  (core.lineAnchors.byLine.reverse.find? fun p => core.metadata p.2 == some tag).map Prod.fst

def clearCachedLlmLine (core : EditorCore Char μ) : EditorCore Char μ :=
  { core with lastLlmLine := none, lastLlmOpen := false }

/-- The lines from `start` on get anchors, and these the tag. -/
def tagLines (core : EditorCore Char μ) (start stop : Nat) (tag : μ) : EditorCore Char μ :=
  (List.range' start (stop - start)).foldl
    (fun core l => (core.anchorForLine l).2.insertMetadata (core.anchorForLine l).1 tag) core

end EditorCore

namespace Editor

variable {μ : Type} [DecidableEq μ]

def withCore (ed : Editor Char μ) (core : EditorCore Char μ) : Editor Char μ := { ed with core }

def eof (ed : Editor Char μ) : Nat := ed.rope.length

def lastIsNl (ed : Editor Char μ) : Bool := ed.rope.getLast? == some '\n'

/-- The editor with a line break at its end, if it has text. -/
def endedByNl (ed : Editor Char μ) : Editor Char μ :=
  if !ed.rope.isEmpty && !ed.lastIsNl then ed.spliceInsert ed.eof ['\n'] else ed

/-- The lines are frozen, and each is tagged. -/
def freezeLines (ed : Editor Char μ) (start stop : Nat) (tag : μ) : Editor Char μ :=
  ed.withCore ((ed.core.addFrozenLines start stop).tagLines start stop tag)

/-! ### Chunks of the agent -/

def lineTaggedThisTurn (ed : Editor Char μ) (line : Nat) (tag : μ) : Bool :=
  (ed.core.lineMeta line).any fun v => decide (v = tag)

def lineTaggedOtherTurn (ed : Editor Char μ) (line : Nat) (tag : μ) : Bool :=
  (ed.core.lineMeta line).any fun v => decide (v ≠ tag)

/-- The line of the hint, if it still has the tag. -/
def cachedLine (ed : Editor Char μ) (tag : μ) : Option Nat :=
  ed.core.lastLlmLine.filter fun l => decide (l < lenLines ed.rope) && ed.lineTaggedThisTurn l tag

/-- The last character that is no closing mark, in a text without white space at its end. -/
def sentenceEnd (content : List Char) : Option Char :=
  let trimmed := DiffText.trimEnd content
  (trimmed.rdropWhile sentenceClosers.contains).getLast?.or trimmed.getLast?

/-- The end of the line that the chunk goes on with, where the sentence on it is not finished. -/
def continuationRejoinPoint (ed : Editor Char μ) (tag : μ) (chunk : List Char) : Option Nat :=
  if !ed.core.lastLlmOpen then none
  else
    match ed.cachedLine tag, chunk.head? with
    | some l, some first =>
        let contentLen := lineLenChars ed.rope l
        if first = '\n' ∨ first = '\r' then none
        else if contentLen = 0 then none
        else
          match sentenceEnd ((line ed.rope l).take contentLen) with
          | none => none
          | some last =>
              if ['.', '!', '?', ':'].contains last then none
              else some (lineColToChar ed.rope l contentLen)
    | _, _ => none

def findLlmInsertionPoint (ed : Editor Char μ) (tag : μ) : Nat :=
  match (ed.cachedLine tag).or (ed.core.lastLineWithMeta tag) with
  | none => ed.eof
  | some l =>
      if (line ed.rope l).getLast? == some '\n' then
        if lenLines ed.rope ≤ l + 1 then ed.eof
        -- a line of another turn is not written into
        else if ed.lineTaggedOtherTurn (l + 1) tag then ed.eof
        else lineColToChar ed.rope (l + 1) 0
      else lineColToChar ed.rope l (lineLenChars ed.rope l)

/-- The agent's line right above the draft, while it is open. -/
def continueAbove (ed : Editor Char μ) (tag : μ) (floorChar : Nat) : Option Nat :=
  match charToLine ed.rope floorChar with
  | 0 => none
  | la + 1 =>
      if ed.core.lastLlmOpen && ed.core.lastLlmLine == some la && ed.lineTaggedThisTurn la tag then
        some la
      else none

/-- Where the chunk goes; above a draft a line may be opened for it first. -/
def chunkPlace (ed : Editor Char μ) (tag : μ) (chunk : List Char) (floorChar : Nat) :
    Editor Char μ × Nat :=
  let natural := (ed.continuationRejoinPoint tag chunk).getD (ed.findLlmInsertionPoint tag)
  if ed.eof ≤ floorChar ∨ natural < floorChar then (ed, min natural floorChar)
  else
    match ed.continueAbove tag floorChar with
    | some la => (ed, lineColToChar ed.rope la (lineLenChars ed.rope la))
    | none => (ed.spliceInsert floorChar ['\n'], floorChar)

/-- The first line of a chunk that was written, and the line behind its last. -/
def chunkLines (ed : Editor Char μ) (insertionChar : Nat) (chunk : List Char) : Nat × Nat :=
  let stop := (lineColOfChar ed.rope (insertionChar + chunk.length)).1
  ((lineColOfChar ed.rope insertionChar).1,
    if chunk.getLast? == some '\n' then stop else stop + 1)

def appendLlmChunkFloored (ed : Editor Char μ) (tag : μ) (chunk : List Char) (floorChar : Nat) :
    Editor Char μ :=
  if chunk.isEmpty then ed
  else
    let (ed, insertionChar) := ed.chunkPlace tag chunk floorChar
    let ed := ed.spliceInsert insertionChar chunk
    let (start, stop) := ed.chunkLines insertionChar chunk
    let ed := ed.freezeLines start stop tag
    if start < stop then
      ed.withCore (ed.core.setCachedLlmLine (stop - 1) (!(chunk.getLast? == some '\n')))
    else ed

/-! ### Turns of the user -/

/-- `strip_suffix('\n').unwrap_or(text)`. -/
def stripNl (text : List Char) : List Char :=
  if text.getLast? == some '\n' then text.dropLast else text

def freezeAsUserTurn (ed : Editor Char μ) (text : List Char) (tag : μ) : Editor Char μ :=
  let ed := ed.endedByNl
  let start := lenLines ed.rope - 1
  let ed := ed.spliceInsert ed.eof (stripNl text)
  let ed := if !ed.lastIsNl then ed.spliceInsert ed.eof ['\n'] else ed
  ed.freezeLines start (lenLines ed.rope) tag

def freezeAsUserTurnAt (ed : Editor Char μ) (afterLine : Nat) (text : List Char) (tag : μ) :
    Editor Char μ :=
  if lenLines ed.rope ≤ afterLine + 1 then ed.freezeAsUserTurn text tag
  else
    let insert := stripNl text ++ ['\n']
    let ed := ed.spliceInsert (lineToChar ed.rope (afterLine + 1)) insert
    ed.freezeLines (afterLine + 1) (afterLine + 1 + countNl insert) tag

/-! ### Tool calls and notices -/

/-- Whether the line is neither frozen nor tagged. -/
def isLoose (ed : Editor Char μ) (l : Nat) : Bool :=
  !ed.core.isFrozenLine l && (ed.core.lineMeta l).isNone

/-- The lines of the user at the end, from the last one up. -/
def looseTail (ed : Editor Char μ) : List Nat :=
  (List.range (lenLines ed.rope)).reverse.takeWhile ed.isLoose

def agentTailFloorChar (ed : Editor Char μ) : Nat :=
  let floorLine := lenLines ed.rope - ed.looseTail.length
  let hasUserText := ed.looseTail.any fun l => !(DiffText.trim (line ed.rope l)).isEmpty
  if !hasUserText || decide (lenLines ed.rope ≤ floorLine) then ed.eof
  else lineColToChar ed.rope floorLine 0

/-- The line that `anchor_for_new_tool_call` makes, and the editor with it. -/
def lineForNewToolCall (ed : Editor Char μ) (floorChar : Nat) : Nat × Editor Char μ :=
  if floorChar < ed.eof then
    (charToLine ed.rope floorChar, ed.spliceInsert floorChar ['\n'])
  else
    let ed := ed.endedByNl.spliceInsert ed.endedByNl.eof ['\n']
    (lenLines ed.rope - 2, ed)

def anchorForNewToolCall (ed : Editor Char μ) (floorChar : Nat) : LineAnchor × Editor Char μ :=
  let (l, ed) := ed.lineForNewToolCall floorChar
  ((ed.core.anchorForLine l).1, ed.withCore (ed.core.anchorForLine l).2)

def appendSystemLine (ed : Editor Char TurnId) (line : List Char) : Editor Char TurnId :=
  let ed := ed.endedByNl
  ed.appendLlmChunkFloored .system (line ++ ['\n']) ed.agentTailFloorChar

def appendSystemNotice (ed : Editor Char TurnId) (msg : List Char) : Editor Char TurnId :=
  ed.appendSystemLine (['―', ' '] ++ msg)

end Editor

end Yaldabaoth
