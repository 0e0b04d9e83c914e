import Yaldabaoth.Lib.Machine
import Yaldabaoth.Model.DeliveryCoordinator

/-!
# `Yaldabaoth.Model.CogHost`: coordinators over one journal file

The runs of `DeliveryCoordinator` over one journal file: a process opens
the journal and makes a coordinator of it, its public operations are
called in any order, and the process dies between two of them or in the
middle of one. The next process opens the file as it was left.
-/

set_option autoImplicit false

namespace Yaldabaoth

open LineLog

structure CogHost where
  /-- What the journal file holds. -/
  disk : Bytes
  /-- The coordinator of the running process. -/
  process : Option DeliveryCoordinator
  tick : Nat
  events : List CogEvent

/-- The public operations of the coordinator. -/
inductive CogOp where
  | activate
  | revalidateCapabilities
  | renewHost
  | claimAvailable
  | recordProviderResult (attemptId : OpaqueId) (result : ProviderDeliveryResult)
  | retryTerminalMutations
  | renewAttempts
  | shutdown
deriving DecidableEq

/-- Call an operation; what it returns is in `CogEvent`. -/
def CogOp.call (w : Surroundings) : CogOp → CogCall PUnit
  | .activate => do
      let _ ← CoordinatorRun.activate w
      pure ⟨⟩
  | .revalidateCapabilities => do
      let _ ← CoordinatorRun.revalidateCapabilities w
      pure ⟨⟩
  | .renewHost => CoordinatorRun.renewHost w
  | .claimAvailable => do
      let _ ← CoordinatorRun.claimAvailable w
      pure ⟨⟩
  | .recordProviderResult attemptId result =>
      CoordinatorRun.recordProviderResult w attemptId result
  | .retryTerminalMutations => CoordinatorRun.retryTerminalMutations w
  | .renewAttempts => CoordinatorRun.renewAttempts w
  | .shutdown => CoordinatorRun.shutdown w

inductive CogAct where
  /-- A process starts. -/
  | start (config : CoordinatorConfig)
  /-- An operation is called, and returns or dies. -/
  | call (op : CogOp)
  /-- The process dies between two operations. -/
  | die

namespace CogHost

/-- The host once an operation has ended. -/
def afterCall : Except Halt PUnit × CoordinatorRun → CogHost
  | (result, run) =>
      { disk := run.coordinator.journal.contents
        process := if result = .error .killed then none else some run.coordinator
        tick := run.tick
        events := run.events }

def step (w : Surroundings) (s : CogHost) : CogAct → Option CogHost
  | .start config =>
      match s.process with
      | some _ => none
      | none =>
          match openJournal w.json s.disk with
          | .error _ => none
          | .ok journal =>
              some { s with
                disk := journal.contents
                process := some (.new config journal)
                events := s.events ++ [.opened journal.attempts] }
  | .call op =>
      s.process.map fun coordinator =>
        afterCall ((op.call w).exec { coordinator, tick := s.tick, events := s.events })
  | .die => s.process.map fun _ => { s with process := none }

/-- No process yet, on a file that may hold anything. -/
def machine (w : Surroundings) : Machine CogHost CogAct where
  start s := ∃ disk, s = { disk, process := none, tick := 0, events := [] }
  step := step w

end CogHost

end Yaldabaoth
