import Yaldabaoth.Model.MdHighlight

/-!
# `Yaldabaoth.Model.HighlightCache`: highlighting what has changed

`highlight_cache.rs`, with `common_prefix_suffix` of `yux/list.rs`. The
hash of a text is a parameter. Regions, the containing range's start or
`-1`, are optional numbers. The counters for instrumentation are left out.
-/

set_option autoImplicit false

namespace Yaldabaoth

namespace MdHighlight

/-! ### Alignment -/

section align

variable {α : Type} [DecidableEq α]

def commonPrefix : List α → List α → Nat
  | a :: old, b :: new => if a = b then commonPrefix old new + 1 else 0
  | _, _ => 0

/-- The shared ends, which do not overlap. -/
def commonPrefixSuffix (old new : List α) : Nat × Nat :=
  let maxPre := min old.length new.length
  let pre := commonPrefix old new
  let maxSuf := maxPre - pre
  (pre, commonPrefix (old.reverse.take maxSuf) (new.reverse.take maxSuf))

end align

/-! ### The cache -/

structure LineHl where
  raw : List Segment
  stripped : List Segment
deriving Repr, DecidableEq

structure ThemeFp where
  paragraph : Style
  codeInline : Style
  codeBlockBg : Style
  heading : Vector Style 6
deriving Repr, DecidableEq

def ThemeFp.of (theme : Theme) : ThemeFp where
  paragraph := theme.paragraph
  codeInline := theme.codeInline
  codeBlockBg := theme.codeBlockBg
  heading := theme.heading

structure FenceFp where
  inFence : Bool
  langHash : UInt64
deriving Repr, DecidableEq

structure HighlightCache where
  lines : List LineHl
  hashes : List UInt64
  fenceBefore : List FenceFp
  lastEditSeq : UInt64
  primed : Bool
  themeFp : Option ThemeFp
  snapshot : Option (List LineHl)
deriving Repr, DecidableEq

namespace HighlightCache

def new : HighlightCache where
  lines := []
  hashes := []
  fenceBefore := []
  lastEditSeq := 0
  primed := false
  themeFp := none
  snapshot := none

def reset (_ : HighlightCache) : HighlightCache := new

section snapshot

variable (hash : List Char → UInt64)

def fenceFp (fence : FenceState) : FenceFp where
  inFence := fence.inFence
  langHash := (fence.lang.map hash).getD 0

variable (theme : Theme) (hl : Option Highlighter)

/-- The old slot with the content of line `i`: of `oldN` old and `n` new
lines the ends are shared. -/
def oldSlot (pre suf oldN n i : Nat) : Option Nat :=
  if i < pre then some i
  else if n - suf ≤ i then some (i + oldN - n)
  else none

/-- The old slot's highlight, if that slot was highlighted behind the same
fence. -/
def lineAt (slot : Option Nat) (oldLines : List LineHl) (oldFence : List FenceFp)
    (line : List Char) (fence : FenceState) : Option LineHl :=
  match slot.filter fun j => oldFence[j]? = some (fenceFp hash fence) with
  | some j => oldLines[j]?
  | none => do
      let (raw, _) ← highlightOneLine theme false hl line fence
      let (stripped, _) ← highlightOneLine theme true hl line fence
      some ⟨raw, stripped⟩

/-- The loop over the lines from `i` on. `ranges` are those that may contain
line `i` or a later one. -/
def reconcile (slot : Nat → Option Nat) (oldLines : List LineHl) (oldFence : List FenceFp) :
    List (List Char) → Nat → List (Nat × Nat) → Option (Option Nat) → FenceState →
      Option (List (LineHl × FenceFp))
  | [], _, _, _, _ => some []
  | line :: rest, i, ranges, prevRegion, fence => do
      let ranges := ranges.dropWhile fun range => range.2 ≤ i
      let region := (ranges.head?.filter fun range => range.1 ≤ i ∧ i < range.2).map Prod.fst
      let fence := if prevRegion = some region then fence else {}
      let lineHl ← lineAt hash theme hl (slot i) oldLines oldFence line fence
      let next ← advanceFence line fence
      let more ← reconcile slot oldLines oldFence rest (i + 1) ranges (some region) next
      some ((lineHl, fenceFp hash fence) :: more)

/-- The call changes nothing that the cache looks at. -/
def fastPath (cache : HighlightCache) (lines : List (List Char)) (theme : Theme)
    (editSeq : UInt64) : Option (List LineHl) :=
  if cache.primed ∧ cache.themeFp = some (ThemeFp.of theme) ∧ editSeq = cache.lastEditSeq ∧
      lines.length = cache.lines.length then cache.snapshot
  else none

/-- `snapshot_inner`: the highlight of every line and the cache after it. -/
def snapshotInner (cache : HighlightCache) (lines : List (List Char)) (editSeq : UInt64)
    (frozenRanges : List (Nat × Nat)) : Option (List LineHl × HighlightCache) :=
  match cache.fastPath lines theme editSeq with
  | some snap => some (snap, cache)
  | none => do
      let themeChanged := cache.themeFp ≠ some (ThemeFp.of theme)
      let oldLines := if themeChanged then [] else cache.lines
      let oldHashes := if themeChanged then [] else cache.hashes
      let oldFence := if themeChanged then [] else cache.fenceBefore
      let newHashes := lines.map hash
      let (pre, suf) := commonPrefixSuffix oldHashes newHashes
      let slot := oldSlot pre suf oldHashes.length lines.length
      let done ← reconcile hash theme hl slot oldLines oldFence lines 0 frozenRanges none {}
      let newLines := done.map Prod.fst
      some (newLines, {
        lines := newLines
        hashes := newHashes
        fenceBefore := done.map Prod.snd
        lastEditSeq := editSeq
        primed := true
        themeFp := some (ThemeFp.of theme)
        snapshot := some newLines
      })

end snapshot

/-! ### Runs -/

/-- A call of `snapshot_syn`; the highlighter is the same for all. -/
structure Call where
  lines : List (List Char)
  theme : Theme
  editSeq : UInt64
  frozenRanges : List (Nat × Nat)
deriving Repr, DecidableEq

inductive Op where
  | snapshot (call : Call)
  | reset
deriving Repr, DecidableEq

/-- What the calls return. -/
def run (hash : List Char → UInt64) (hl : Highlighter) (cache : HighlightCache) :
    List Op → Option (List (List LineHl))
  | [] => some []
  | .reset :: ops => run hash hl cache.reset ops
  | .snapshot call :: ops => do
      let (snap, cache) ←
        snapshotInner hash call.theme (some hl) cache call.lines call.editSeq call.frozenRanges
      let more ← run hash hl cache ops
      some (snap :: more)

end HighlightCache

end MdHighlight

end Yaldabaoth
