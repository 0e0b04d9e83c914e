import Mathlib.Data.List.DropRight

/-!
# `Yaldabaoth.Model.AgentTranscript`: which user turns are shown

`UserTurnReconciler` of `agent_transcript.rs`: a turn of the user is
announced by its submit and by up to two echoes, and the reconciler
tells the GUI for each announcement whether to insert a row.
-/

set_option autoImplicit false

namespace Yaldabaoth

/-- `MAX_PENDING_ECHOES`. -/
def maxPendingEchoes : Nat := 64

inductive UserTurnOrigin where
  | localSubmit
  | echo
deriving Repr, DecidableEq

inductive UserTurnAction where
  | insert (advanceBoundary : Bool)
  | skip
deriving Repr, DecidableEq

/-- The characters with the Unicode property `White_Space`, which
`char::is_whitespace` goes by. -/
def isWhitespace (ch : Char) : Bool :=
  let n := ch.toNat
  (9 ≤ n && n ≤ 13) || n == 32 || n == 0x85 || n == 0xA0 || n == 0x1680 ||
    (0x2000 ≤ n && n ≤ 0x200A) || n == 0x2028 || n == 0x2029 || n == 0x202F || n == 0x205F ||
    n == 0x3000

/-- `normalize_user_text`: `trim_end`. -/
def normalizeUserText (text : String) : String :=
  String.ofList (text.toList.rdropWhile isWhitespace)

structure UserTurnReconciler where
  pendingLocal : List String
  lastInserted : Option String
deriving Repr, DecidableEq

namespace UserTurnReconciler

def new : UserTurnReconciler := { pendingLocal := [], lastInserted := none }

/-- `reconcile`, once the text is normalized. -/
def reconcileNormalized (r : UserTurnReconciler) (n : String) (replaying : Bool) :
    UserTurnOrigin → UserTurnReconciler × UserTurnAction
  | .localSubmit =>
      let pending :=
        if r.pendingLocal.length ≥ maxPendingEchoes then r.pendingLocal.drop 1
        else r.pendingLocal
      ({ pendingLocal := pending ++ [n], lastInserted := some n }, .insert false)
  | .echo =>
      if n ∈ r.pendingLocal then
        ({ pendingLocal := r.pendingLocal.erase n, lastInserted := some n }, .skip)
      else if !replaying && r.lastInserted == some n then (r, .skip)
      else ({ r with lastInserted := some n }, .insert replaying)

def reconcile (r : UserTurnReconciler) (origin : UserTurnOrigin) (text : String)
    (replaying : Bool) : UserTurnReconciler × UserTurnAction :=
  r.reconcileNormalized (normalizeUserText text) replaying origin

def noteTurnProgressed (r : UserTurnReconciler) : UserTurnReconciler :=
  { r with lastInserted := none }

end UserTurnReconciler

end Yaldabaoth
