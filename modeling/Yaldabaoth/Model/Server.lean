import Yaldabaoth.Lib.Machine
import Yaldabaoth.Model.Manager
import Yaldabaoth.Model.Pump
import Yaldabaoth.Proofs.Wal.Records

/-!
# `Yaldabaoth.Model.Server`: the actor among its threads

The session server around one session: the actor, the spawn threads
that have not reported yet (`Manager.jobs`), and the pumps that
`publish_channel` started. A step is one command applied by the actor,
from a client, from a spawn thread or from a pump; or a crash, from
which `restore_seed_from_dir` builds the session anew out of the
records that are left.

The actor's inlet is one queue, and what a thread sends next does not
depend on what the actor has applied so far. A command therefore
counts as sent when it is applied, and a pump that a later generation
supersedes may send for as long as it likes.
-/

set_option autoImplicit false

namespace Yaldabaoth

/-- A pump as the actor knows it: the generation its commands are
stamped with, and the turn count it has reported up to, which starts at
its turn base. -/
structure PumpStamp where
  generation : Nat
  reported : Nat
deriving Repr, DecidableEq

structure Server where
  /-- The id every command names. -/
  id : ServerSessionId
  manager : Manager
  pumps : List PumpStamp

inductive ServerAct where
  /-- A client creates the session. -/
  | create (cwd : PathBuf) (label : String) (provider : AgentProvider)
      (resumeSessionId : Option String) (fate : Fate)
  /-- A client's command. -/
  | client (command : Command) (fate : Fate)
  /-- A spawn thread's handshake succeeded. -/
  | spawned (job : Nat) (handle : TransportHandle) (fate : Fate)
  /-- A spawn thread's handshake failed. -/
  | spawnFailed (job : Nat) (reason : String) (fate : Fate)
  /-- A pump sends a command. -/
  | pump (pump : Nat) (send : PumpSend) (fate : Fate)
  /-- The process dies with this many records in the log file, and a new
  one starts. -/
  | crash (kept : Nat)

/-- Whether a command is one that clients send to a session. -/
def Command.fromClient : Command → Bool
  | .publishChannel _ _ _ _ | .spawnFailed _ _ | .record _ _
  | .turnCount _ _ _ | .replayDone _ | .agentDisconnected _ => false
  | _ => true

namespace PumpStamp

variable (pump : PumpStamp)

/-- A turn count is sent when the worker's counter has moved, with the
outcome of a live turn. -/
def sends : PumpSend → Prop
  | .turnCount turns outcome => pump.reported < turns ∧ outcome ≠ .replayEnd
  | _ => True

instance (send : PumpSend) : Decidable (pump.sends send) := by
  cases send <;> unfold sends <;> infer_instance

/-- The command a send becomes. -/
def command : PumpSend → Command
  | .record event => .record pump.generation event
  | .turnCount turns outcome => .turnCount pump.generation turns outcome
  | .replayDone => .replayDone pump.generation
  | .agentDisconnected => .agentDisconnected pump.generation

/-- The pump behind a send; it ends with `AgentDisconnected`. -/
def after : PumpSend → Option PumpStamp
  | .turnCount turns _ => some { pump with reported := turns }
  | .agentDisconnected => none
  | _ => some pump

end PumpStamp

namespace Server

variable (s : Server)

/-- Apply a command to the actor. -/
def apply (command : Command) (fate : Fate) : Server × Reply :=
  let (manager, reply) := s.manager.apply s.id fate command
  ({ s with manager }, reply)

/-- The pump a published channel gets. -/
def withPump : Reply → Server
  | .published (some channel) =>
      { s with
        pumps := { generation := channel.generation, reported := channel.turnBase } :: s.pumps }
  | _ => s

/-- `restore_seed_from_disk` and `spawn_resume_worker` on the records
left. A log that cannot be recovered keeps the server from starting. -/
def restart (kept : Nat) : Option Server :=
  match s.manager.session.bind fun session => session.walPath.map (session, ·) with
  | none =>
      some { s with
        manager := { s.manager with session := none, answers := [], jobs := [] }
        pumps := [] }
  | some (session, path) =>
      let disk := session.disk.take kept
      match recoverRecords path disk with
      | .error _ => none
      | .ok recovered =>
          let session := recovered.map fun rs =>
            restoreSeed rs disk (disk.filterMap WalRecord.note?) s.manager.limits
          let jobs := (session.filter fun session => !session.archived).toList.map
            ManagedSession.resumeJob
          some { s with
            manager := { s.manager with session, answers := [], jobs }
            pumps := [] }

/-- Whether nothing is left of an earlier session. -/
def vacant : Bool := s.manager.session.isNone && s.manager.jobs.isEmpty && s.pumps.isEmpty

def step (s : Server) : ServerAct → Option Server
  | .create cwd label provider resumeSessionId fate =>
      if s.vacant then
        let (manager, _) := s.manager.doCreate s.id cwd label provider resumeSessionId fate
        some { s with manager }
      else none
  | .client command fate =>
      if command.fromClient then some (s.apply command fate).1 else none
  | .spawned job handle fate =>
      match s.manager.jobs[job]? with
      | none => none
      | some spawn =>
          let s := { s with manager := { s.manager with jobs := s.manager.jobs.eraseIdx job } }
          let (s, reply) := s.apply
            (.publishChannel handle spawn.expectedGeneration spawn.isRespawn spawn.resumed) fate
          some (s.withPump reply)
  | .spawnFailed job reason fate =>
      match s.manager.jobs[job]? with
      | none => none
      | some spawn =>
          let s := { s with manager := { s.manager with jobs := s.manager.jobs.eraseIdx job } }
          some (s.apply (.spawnFailed spawn.expectedGeneration reason) fate).1
  | .pump pump send fate =>
      match s.pumps[pump]? with
      | none => none
      | some stamp =>
          if stamp.sends send then
            let s := { s with pumps := (stamp.after send).toList ++ s.pumps.eraseIdx pump }
            some (s.apply (stamp.command send) fate).1
          else none
  | .crash kept => s.restart kept

/-- A server without sessions. -/
def empty (id : ServerSessionId) (defaultPermissionMode : PermissionMode)
    (limits : EventLogLimits) (walDir : Option PathBuf) : Server :=
  { id
    manager :=
      { session := none, answers := [], jobs := [], defaultPermissionMode, limits, walDir }
    pumps := [] }

/-- The machine of the server. -/
def machine : Machine Server ServerAct where
  start s := ∃ id mode limits walDir, s = empty id mode limits walDir
  step := step

end Server

end Yaldabaoth
