import Yaldabaoth.Model.Server

/-!
# `Yaldabaoth.Model.Crew`: the actor and the worker behind its channel

The session actor together with the worker of the channel it holds. The
worker runs one turn for each prompt it is handed, in order. A steered
payload joins the turn that runs, and is a turn of its own when none
does. Each turn that ends is reported by one `TurnCount`. A worker
whose channel is dropped or replaced is gone, with the turns it owed.

Every other command may arrive at any time, from whoever sends it. What
the commands themselves do is `Manager.apply`. A `Crew` only keeps
count: which prompts were admitted, what the transports accepted, and
which turns are over.
-/

set_option autoImplicit false

namespace Yaldabaoth

namespace WorkerInput

/-- The payload of a user's prompt; those of deliveries are left out. -/
def userPayload? : WorkerInput → Option PromptPayload
  | .prompt payload none | .steer payload none => some payload
  | _ => none

/-- The delivery a payload was sent for. -/
def delivery? : WorkerInput → Option Nat
  | .prompt _ sentFor | .steer _ sentFor => sentFor
  | .cancel => none

end WorkerInput

/-- A turn: what was handed to the worker for it. -/
abbrev Turn := List WorkerInput

structure Worker where
  /-- The turns not over yet. The first one runs. -/
  queue : List Turn
  /-- The turns that are over and not reported yet. -/
  ended : List (Turn × TurnOutcome)
deriving DecidableEq

namespace Worker

/-- A worker that owes nothing. -/
def idle : Worker := { queue := [], ended := [] }

/-- Hand the worker one input. A signal to cancel is no payload. -/
def take (w : Worker) : WorkerInput → Worker
  | .prompt payload sentFor => { w with queue := w.queue ++ [[.prompt payload sentFor]] }
  | .steer payload sentFor =>
      match w.queue with
      | [] => { w with queue := [[.steer payload sentFor]] }
      | running :: rest => { w with queue := (running ++ [.steer payload sentFor]) :: rest }
  | .cancel => w

/-- Hand the worker several inputs, in order. -/
def takeAll (w : Worker) (inputs : List WorkerInput) : Worker := inputs.foldl take w

/-- The turns not reported yet, the oldest first. -/
def unreported (w : Worker) : List Turn := w.ended.map (·.1) ++ w.queue

end Worker

/-- What a channel was handed between two states of it. -/
def handed (before after : Option TransportHandle) : List WorkerInput :=
  match after with
  | none => []
  | some channel => channel.inbox.drop ((before.map (·.inbox.length)).getD 0)

/-- The payload of a command that submits a prompt. -/
def Command.payload? : Command → Option PromptPayload
  | .prompt text images | .steer text images => some { text, textBlocks := [], images }
  | .adminPrompt text => some { text, textBlocks := [], images := [] }
  | _ => none

/-- Whether a command installed a channel. -/
def Reply.installs : Reply → Bool
  | .published (some _) => true
  | _ => false

/-- Whether a command was answered with success. -/
def Reply.succeeds : Reply → Bool
  | .done (.ok ()) => true
  | _ => false

structure Crew where
  server : Server
  worker : Worker
  /-- The prompts whose command was answered with success, in order. -/
  admitted : List PromptPayload
  /-- What the session's transports accepted, in order. -/
  accepted : List WorkerInput
  /-- The same of the session's lives before the last crash. -/
  earlier : List WorkerInput
  /-- The turns that are over, with how they ended. -/
  finished : List (Turn × TurnOutcome)

inductive CrewAct where
  /-- The session is created. -/
  | create (cwd : PathBuf) (label : String) (provider : AgentProvider)
      (resumeSessionId : Option String) (fate : Fate)
  /-- The actor applies a command. -/
  | command (command : Command) (fate : Fate)
  /-- The worker exits or closes its end of the channel. -/
  | hangUp (connected receiving : Bool)
  /-- The turn that runs ends. -/
  | turnEnds (outcome : TurnOutcome)
  /-- The oldest end of a turn is reported. -/
  | turnCount (fate : Fate)
  /-- The process dies with this many records in the log file, and a new
  one starts. -/
  | crash (kept : Nat)

namespace Crew

variable (c : Crew)

def session : Option ManagedSession := c.server.manager.session

/-- The commands that may arrive at any time. A spawned channel is a
fresh one, the ends of the worker's turns have an action of their own,
and a session that is closed is gone. -/
def Arrives (s : ManagedSession) : Command → Prop
  | .close => False
  | .publishChannel handle _ _ _ => handle.inbox = []
  | .turnCount generation _ _ => generation ≠ s.channelGeneration
  | _ => True

instance (s : ManagedSession) : DecidablePred (Arrives s)
  | .close | .publishChannel .. | .turnCount .. | .attach _ | .detach | .prompt .. | .steer ..
  | .adminPrompt _ | .cogDelivery .. | .cancel | .restart | .rename _ | .setArchived _
  | .setPermissionMode _ | .setModel _ | .spawnFailed .. | .record .. | .replayDone _
  | .agentDisconnected _ => by
      dsimp only [Arrives]
      infer_instance

/-- The actor applies a command to its session. -/
def apply (s : ManagedSession) (command : Command) (fate : Fate) : Crew :=
  let (server, reply) := c.server.apply command fate
  let channel := server.manager.session.bind (·.channel)
  let inputs := handed (if reply.installs then none else s.channel) channel
  let worker := if reply.installs || channel.isNone then .idle else c.worker
  { c with
    server
    worker := worker.takeAll inputs
    admitted := c.admitted ++ (if reply.succeeds then command.payload?.toList else [])
    accepted := c.accepted ++ inputs }

/-- The flags of the channel as the worker leaves them. -/
def hangUp (s : ManagedSession) (connected receiving : Bool) : ManagedSession :=
  { s with channel := s.channel.map fun handle =>
      { handle with
        connected := handle.connected && connected
        receiving := handle.receiving && receiving } }

def step (c : Crew) : CrewAct → Option Crew
  | .create cwd label provider resumeSessionId fate =>
      (c.server.step (.create cwd label provider resumeSessionId fate)).map fun server =>
        { c with server }
  | .command command fate =>
      match c.session with
      | none => none
      | some s => if Arrives s command then some (c.apply s command fate) else none
  | .hangUp connected receiving =>
      c.session.map fun s =>
        { c with server := { c.server with
            manager := c.server.manager.put (hangUp s connected receiving) } }
  | .turnEnds outcome =>
      match c.worker.queue with
      | [] => none
      | turn :: rest =>
          some { c with
            worker := { queue := rest, ended := c.worker.ended ++ [(turn, outcome)] }
            finished := c.finished ++ [(turn, outcome)] }
  | .turnCount fate =>
      match c.session, c.worker.ended with
      | some s, (_, outcome) :: rest =>
          let c := { c with worker := { c.worker with ended := rest } }
          some (c.apply s (.turnCount s.channelGeneration (s.turns + 1) outcome) fate)
      | _, _ => none
  | .crash kept =>
      (c.server.restart kept).map fun server =>
        { c with
          server
          worker := .idle
          admitted := (server.manager.session.map fun s =>
            s.pendingPrompts.map (·.payload)).getD []
          accepted := []
          earlier := c.earlier ++ c.accepted }

/-- No session, and nothing counted. -/
def empty (server : Server) : Crew :=
  { server, worker := .idle, admitted := [], accepted := [], earlier := [], finished := [] }

/-- The machine of the actor and the worker. -/
def machine : Machine Crew CrewAct where
  start c := ∃ id mode limits walDir, c = .empty (Server.empty id mode limits walDir)
  step := step

end Crew

end Yaldabaoth
