import Yaldabaoth.Lib.Machine
import Yaldabaoth.Lib.Maps
import Yaldabaoth.Model.Editor

/-!
# `Yaldabaoth.Model.AnchorMaps`: the two maps of the line anchors

`LineAnchorStore` of `editor.rs` as it is stored: one map from lines to
anchors and one back, which every operation updates entry by entry, and
the metadata that is kept for anchors. `Model.Editor` has the graph of the
two maps in their place.

A map of the metadata that was never made is an empty one here. Line
numbers are of a text in memory, so they do not reach `usize::MAX`.
-/

set_option autoImplicit false

namespace Yaldabaoth

structure AnchorMaps where
  nextId : Nat
  byAnchor : Map LineAnchor Nat
  byLine : Map Nat LineAnchor
deriving DecidableEq

namespace AnchorMaps

def empty : AnchorMaps where
  nextId := 0
  byAnchor := ∅
  byLine := ∅

def allocate (st : AnchorMaps) (line : Nat) : LineAnchor × AnchorMaps :=
  match st.byLine.lookup line with
  | some a => (a, st)
  | none =>
      let a : LineAnchor := ⟨st.nextId⟩
      (a, { nextId := st.nextId + 1
            byAnchor := st.byAnchor.insert a line
            byLine := st.byLine.insert line a })

def lineFor (st : AnchorMaps) (a : LineAnchor) : Option Nat := st.byAnchor.lookup a

/-- `by_line.range(first..)`, in the order of the lines. -/
def entriesFrom (st : AnchorMaps) (first : Nat) : List (Nat × LineAnchor) :=
  ((st.byLine.entries.map fun e => (e.1, e.2)).filter fun e => decide (first ≤ e.1)).insertionSort
    fun e f => e.1 ≤ f.1

/-- One entry of `by_line` goes `insertedNl` lines down. -/
def lower (insertedNl : Nat) (st : AnchorMaps) (line : Nat) : Option AnchorMaps :=
  match st.byLine.lookup line with
  | none => none  -- `expect("line present")`
  | some a =>
      some { st with
        byLine := (st.byLine.erase line).insert (line + insertedNl) a
        byAnchor := st.byAnchor.insert a (line + insertedNl) }

def shiftForInsert (st : AnchorMaps) (effLine effCol insertedNl : Nat) : Option AnchorMaps :=
  if insertedNl = 0 then some st
  else
    let firstShifted := if effCol = 0 then effLine else effLine + 1
    let affected := (st.entriesFrom firstShifted).map Prod.fst
    affected.reverse.foldlM (lower insertedNl) st

/-- An entry that is no longer in `by_line` is dropped, or it comes back further up. -/
def settle (lastConsumed deletedNl : Nat) (acc : AnchorMaps × List LineAnchor)
    (e : Nat × LineAnchor) : AnchorMaps × List LineAnchor :=
  let (st, dropped) := acc
  let (line, a) := e
  if line ≤ lastConsumed then ({ st with byAnchor := st.byAnchor.erase a }, dropped ++ [a])
  else
    ({ st with
        byLine := st.byLine.insert (line - deletedNl) a
        byAnchor := st.byAnchor.insert a (line - deletedNl) }, dropped)

/-- The store after the shift, and the anchors that it dropped. -/
def shiftForDelete (st : AnchorMaps) (startLine startCol deletedNl : Nat) :
    AnchorMaps × List LineAnchor :=
  if deletedNl = 0 then (st, [])
  else
    let firstConsumed := if startCol = 0 then startLine else startLine + 1
    let lastConsumed := startLine + deletedNl
    let affected := st.entriesFrom firstConsumed
    let cleared :=
      affected.foldl (fun st e => { st with byLine := st.byLine.erase e.1 }) st
    affected.foldl (settle lastConsumed deletedNl) (cleared, [])

end AnchorMaps

/-! ### Metadata -/

/-- The anchors with what is kept for them. `τ` are the types of metadata. -/
structure AnchorTable (τ μ : Type) where
  anchors : AnchorMaps
  metadata : τ → Map LineAnchor μ

namespace AnchorTable

variable {τ μ : Type}

def empty : AnchorTable τ μ where
  anchors := .empty
  metadata := fun _ => ∅

/-- `LineMetadataMut::insert`. -/
def insertMetadata [DecidableEq τ] (table : AnchorTable τ μ) (t : τ) (a : LineAnchor) (v : μ) :
    AnchorTable τ μ :=
  { table with metadata := Function.update table.metadata t ((table.metadata t).insert a v) }

/-- `drop_anchor`, in the map of every type. -/
def dropAnchor (table : AnchorTable τ μ) (a : LineAnchor) : AnchorTable τ μ :=
  { table with metadata := fun t => (table.metadata t).erase a }

/-- The anchors of `shift_frozen_for_delete_at`: what is kept for a dropped one goes. -/
def shiftForDelete (table : AnchorTable τ μ) (startLine startCol deletedNl : Nat) :
    AnchorTable τ μ × List LineAnchor :=
  let (anchors, dropped) := table.anchors.shiftForDelete startLine startCol deletedNl
  (dropped.foldl dropAnchor { table with anchors }, dropped)

/-- What is read for a line: `anchor_for_line_opt`, then `metadata::<T>().get`. -/
def lineMeta (table : AnchorTable τ μ) (t : τ) (line : Nat) : Option μ :=
  (table.anchors.byLine.lookup line).bind fun a => (table.metadata t).lookup a

end AnchorTable

/-! ### Runs -/

inductive AnchorAct (τ μ : Type) where
  | anchorForLine (line : Nat)
  | shiftForInsert (effLine effCol insertedNl : Nat)
  | shiftForDelete (startLine startCol deletedNl : Nat)
  | insertMetadata (t : τ) (a : LineAnchor) (v : μ)

/-- A table with the anchors that it made and those that it dropped, oldest first. -/
structure AnchorRun (τ μ : Type) where
  table : AnchorTable τ μ
  made : List LineAnchor
  dropped : List LineAnchor

namespace AnchorRun

variable {τ μ : Type} [DecidableEq τ]

def start : AnchorRun τ μ where
  table := .empty
  made := []
  dropped := []

/-- The caller can name only anchors that it was given. -/
def step (run : AnchorRun τ μ) : AnchorAct τ μ → Option (AnchorRun τ μ)
  | .anchorForLine line =>
      let (a, anchors) := run.table.anchors.allocate line
      some { run with
        table := { run.table with anchors }
        made := if (run.table.anchors.byLine.lookup line).isSome then run.made
          else run.made ++ [a] }
  | .shiftForInsert effLine effCol insertedNl =>
      (run.table.anchors.shiftForInsert effLine effCol insertedNl).map fun anchors =>
        { run with table := { run.table with anchors } }
  | .shiftForDelete startLine startCol deletedNl =>
      let (table, dropped) := run.table.shiftForDelete startLine startCol deletedNl
      some { run with table, dropped := run.dropped ++ dropped }
  | .insertMetadata t a v =>
      if a ∈ run.made then some { run with table := run.table.insertMetadata t a v } else none

def machine (τ μ : Type) [DecidableEq τ] : Machine (AnchorRun τ μ) (AnchorAct τ μ) where
  start run := run = .start
  step := step

end AnchorRun

/-! ### The lines of a text -/

namespace TextRows

variable {α : Type}

/-- The rows where a text of `mid.length + 1` line breaks comes in. -/
def insertRows (rows : List (List α)) (line col : Nat) (first : List α) (mid : List (List α))
    (last : List α) : List (List α) :=
  let row := rows.getD line []
  rows.take line ++ (row.take col ++ first) :: (mid ++ (last ++ row.drop col) :: rows.drop (line + 1))

/-- The rows without the text from a position to one `nl` rows further down. -/
def deleteRows (rows : List (List α)) (line col nl stopCol : Nat) : List (List α) :=
  let row := (rows.getD line []).take col ++ (rows.getD (line + nl) []).drop stopCol
  rows.take line ++ row :: rows.drop (line + nl + 1)

end TextRows

end Yaldabaoth
