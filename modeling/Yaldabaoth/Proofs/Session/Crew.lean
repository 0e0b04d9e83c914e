import Yaldabaoth.Proofs.Session.DeskSteps
import Yaldabaoth.Proofs.Session.Steps

/-!
# `Yaldabaoth.Proofs.Session.Crew`: one step of the actor and the worker

`Crew.Change` says what a step of the crew can be: the session is
created, a command is applied (`Worked`), the worker's end changes, a
turn ends, or the process is restarted. `Crew.Sane` is what the desk
and the worker of every reachable state have in common, and
`Crew.reaches_change` is the induction over runs in these terms.
-/

set_option autoImplicit false

namespace Yaldabaoth

/-! ### What a channel is handed -/

namespace Desk

/-- The channel is gone, or it holds what it held with the inputs
behind. -/
def Hands (before : Option (List WorkerInput)) (inputs : List WorkerInput)
    (after : Option (List WorkerInput)) : Prop :=
  after = none ∧ inputs = [] ∨ ∃ box, before = some box ∧ after = some (box ++ inputs)

theorem hands_nil (box : Option (List WorkerInput)) : Hands box [] box := by
  cases box with
  | none => exact .inl ⟨rfl, rfl⟩
  | some box => exact .inr ⟨box, rfl, by rw [List.append_nil]⟩

theorem Signals.hands {before after : Option (List WorkerInput)} {inputs : List WorkerInput}
    (h : Signals before inputs after) : Hands before inputs after := by
  cases h with
  | absent => exact hands_nil none
  | ignored => exact hands_nil (some _)
  | taken => exact .inr ⟨_, rfl, rfl⟩

theorem Signals.line {before after : Option (List WorkerInput)} {inputs : List WorkerInput}
    (h : Signals before inputs after) : after.isSome = before.isSome := by
  cases h <;> rfl

/-- Writing leaves all but the log, the numbers and the rejections as
they were. -/
structure Still (d d' : Desk) : Prop where
  lifecycle : d'.lifecycle = d.lifecycle
  archived : d'.archived = d.archived
  inbox : d'.inbox = d.inbox
  busy : d'.busy = d.busy
  pending : d'.pending = d.pending
  waiting : d'.waiting = d.waiting
  active : d'.active = d.active
  generation : d'.generation = d.generation
  turns : d'.turns = d.turns
  answers : d'.answers = d.answers
  walOpen : d'.walOpen = d.walOpen
  walPath : d'.walPath = d.walPath

theorem Files.still {d d' : Desk} {evs : List PromptEvent} (h : d.Files evs d') : Still d d' := by
  obtain ⟨_, _, _, _, rfl⟩ := h.shape
  exact ⟨rfl, rfl, rfl, rfl, rfl, rfl, rfl, rfl, rfl, rfl, rfl, rfl⟩

/-- The search for a delivery touches the deliveries, the channel and
the busy flag, and what it hands over it marks as busy. -/
structure Next.Effect (d : Desk) (inputs : List WorkerInput) (d' : Desk) : Prop where
  lifecycle : d'.lifecycle = d.lifecycle
  archived : d'.archived = d.archived
  hands : Hands d.inbox inputs d'.inbox
  line : d'.inbox.isSome = d.inbox.isSome
  busy : d'.busy = (d.busy || !inputs.isEmpty)
  pending : d'.pending = d.pending
  generation : d'.generation = d.generation
  turns : d'.turns = d.turns
  walOpen : d'.walOpen = d.walOpen
  walPath : d'.walPath = d.walPath
  walIo : d'.walIo = d.walIo
  log : d'.log = d.log
  nextPromptId : d'.nextPromptId = d.nextPromptId
  rejections : d'.rejections = d.rejections
  /-- What is handed over is no user's prompt. -/
  payloads : inputs.filterMap WorkerInput.userPayload? = []
  /-- Nothing waits, nothing is found. -/
  idle : d.waiting = [] → inputs = [] ∧ d' = d

theorem Next.effect {d d' : Desk} {inputs : List WorkerInput} (h : Next d inputs d') :
    Next.Effect d inputs d' := by
  induction h with
  | @done d _ =>
      exact ⟨rfl, rfl, hands_nil _, rfl, by simp, rfl, rfl, rfl, rfl, rfl, rfl, rfl, rfl, rfl, rfl,
        fun _ => ⟨rfl, rfl⟩⟩
  | failed idle waiting next ih =>
      refine { ih with idle := fun hwaiting => ?_ }
      rw [waiting] at hwaiting
      cases hwaiting
  | @started d pending rest delivery box idle waiting inbox correlates =>
      refine ⟨rfl, rfl, .inr ⟨box, inbox, rfl⟩, ?_, ?_, rfl, rfl, rfl, rfl, rfl, rfl, rfl, rfl, rfl,
        rfl, fun hwaiting => ?_⟩
      · rw [inbox]
        rfl
      · rw [idle.2]
        rfl
      · rw [waiting] at hwaiting
        cases hwaiting

variable {d d' : Desk} {deed : Deed} {evs : List PromptEvent} {inputs : List WorkerInput}

/-- A published channel holds what it was handed, and any other goes on
from what it held. -/
theorem Step.hands (h : Step d deed evs inputs d') :
    if deed.installs then d'.inbox = some inputs else Hands d.inbox inputs d'.inbox := by
  cases h with
  | quiet files | lost files =>
      show Hands _ _ _
      rw [files.still.inbox]
      exact hands_nil d.inbox
  | sent _ inbox _ _ files => exact .inr ⟨_, inbox, files.still.inbox⟩
  | queued _ inbox files => exact .inl ⟨files.still.inbox.trans inbox, rfl⟩
  | refused _ files | failed _ files | notRestarted _ files =>
      exact .inl ⟨files.still.inbox, rfl⟩
  | answered | held => exact hands_nil d.inbox
  | started _ _ inbox _ _ => exact .inr ⟨_, inbox, rfl⟩
  | cancelled _ signals => exact signals.hands
  | unqueued _ signals files =>
      show Hands _ _ _
      rw [files.still.inbox]
      exact signals.hands
  | restarted _ => exact .inl ⟨rfl, rfl⟩
  | shelved _ _ files eq =>
      refine .inl ⟨?_, rfl⟩
      rw [eq]
      exact files.still.inbox
  | reopened _ eq files =>
      show Hands _ _ _
      rw [files.still.inbox, eq]
      exact hands_nil d.inbox
  | notReopened _ _ files => exact .inl ⟨files.still.inbox, rfl⟩
  | published _ _ handed files =>
      show d'.inbox = some inputs
      rw [handed]
      exact files.still.inbox
  | settled files next =>
      show Hands _ _ _
      have hinbox := files.still.inbox
      rw [← show _ = d.inbox from hinbox]
      exact next.effect.hands

/-- The file stays where it is. -/
theorem Step.walPath (h : Step d deed evs inputs d') : d'.walPath = d.walPath := by
  cases h with
  | shelved _ _ files eq =>
      rw [eq]
      exact files.still.walPath
  | reopened _ eq files =>
      rw [files.still.walPath, eq]
  | notReopened _ eq files =>
      rw [files.still.walPath, eq]
      rfl
  | settled files next => exact next.effect.walPath.trans files.still.walPath
  | answered | held | started | cancelled | restarted => rfl
  | quiet files | lost files | sent _ _ _ _ files | queued _ _ files | refused _ files
  | failed _ files | unqueued _ _ files | notRestarted _ files | published _ _ _ files =>
      exact files.still.walPath

/-! ### The desk of a reachable state -/

/-- What every desk has in common. -/
structure Sane (d : Desk) : Prop where
  shelf : d.archived = true ↔ d.lifecycle = .archived
  line : d.lifecycle = .live ↔ d.inbox.isSome = true
  queue : d.pending ≠ [] →
    d.lifecycle = .spawning ∨ d.lifecycle = .restarting ∨ d.lifecycle = .archived
  rest : d.lifecycle ≠ .live → d.active = none ∧ d.waiting = []
  /-- The log file is open unless the session is archived. -/
  file : d.archived = false → d.walPath.isSome = true → d.walOpen = true

/-- A desk that owes nothing and has no channel. -/
theorem sane_of_down {reason : String} (h : d.archived = false)
    (hfile : d.archived = false → d.walPath.isSome = true → d.walOpen = true) :
    Sane (d.down reason) where
  shelf := by
    show d.archived = true ↔ _
    rw [h]
    exact ⟨nofun, nofun⟩
  line := ⟨nofun, nofun⟩
  queue := fun h => absurd rfl h
  rest _ := ⟨rfl, rfl⟩
  file := hfile

theorem Files.sane (h : d.Files evs d') (hsane : d.Sane) : d'.Sane := by
  obtain ⟨_, _, _, _, rfl⟩ := h.shape
  exact ⟨hsane.shelf, hsane.line, hsane.queue, hsane.rest, hsane.file⟩

theorem Sane.settled (h : d.Sane) (turns : Nat) (outcome : TurnOutcome) :
    (d.settled turns outcome).Sane := by
  refine ⟨h.shelf, h.line, h.queue, fun hdown => ⟨?_, (h.rest hdown).2⟩, h.file⟩
  show (if _ then none else d.active) = none
  rw [(h.rest hdown).1]
  exact ite_self none

theorem Step.sane (h : Step d deed evs inputs d') (hsane : d.Sane) : d'.Sane := by
  cases h with
  | quiet files | lost files => exact files.sane hsane
  | sent live inbox _ _ files =>
      refine files.sane ⟨hsane.shelf, ⟨fun _ => rfl, fun _ => live⟩, hsane.queue, hsane.rest,
        hsane.file⟩
  | queued spawning inbox files =>
      refine files.sane ⟨hsane.shelf, hsane.line, fun _ => ?_, hsane.rest, hsane.file⟩
      exact spawning.imp_right .inl
  | refused open_ files | failed open_ files => exact files.sane (sane_of_down open_ hsane.file)
  | answered => exact ⟨hsane.shelf, hsane.line, hsane.queue, hsane.rest, hsane.file⟩
  | held live =>
      exact ⟨hsane.shelf, hsane.line, hsane.queue, fun h => absurd live h, hsane.file⟩
  | started live _ _ _ _ =>
      exact ⟨hsane.shelf, ⟨fun _ => rfl, fun _ => live⟩, hsane.queue, fun h => absurd live h,
        hsane.file⟩
  | cancelled _ signals =>
      refine ⟨hsane.shelf, ?_, hsane.queue, fun h => ⟨rfl, (hsane.rest h).2⟩, hsane.file⟩
      show d.lifecycle = .live ↔ _
      rw [hsane.line, signals.line]
  | unqueued down signals files =>
      refine files.sane ⟨hsane.shelf, ?_, fun h => absurd rfl h,
        fun h => ⟨rfl, (hsane.rest h).2⟩, hsane.file⟩
      show d.lifecycle = .live ↔ _
      rw [hsane.line, signals.line]
  | restarted open_ =>
      refine ⟨?_, ⟨nofun, nofun⟩, fun _ => .inr (.inl rfl), fun _ => ⟨rfl, rfl⟩, hsane.file⟩
      show d.archived = true ↔ _
      rw [open_]
      exact ⟨nofun, nofun⟩
  | notRestarted open_ files => exact files.sane (sane_of_down open_ hsane.file)
  | shelved _ _ files eq =>
      obtain ⟨_, _, _, _, hshape⟩ := files.shape
      rw [eq, hshape]
      exact ⟨⟨fun _ => rfl, fun _ => rfl⟩, ⟨nofun, nofun⟩, fun h => absurd rfl h,
        fun _ => ⟨rfl, rfl⟩, nofun⟩
  | reopened closed eq files =>
      refine files.sane ?_
      have hnot : d.lifecycle ≠ .live := by
        rcases closed with ⟨h, -⟩ | ⟨-, h, -⟩
        · rw [hsane.shelf.1 h]
          nofun
        · rw [h]
          nofun
      rw [eq]
      refine ⟨⟨nofun, nofun⟩, ⟨nofun, fun h => absurd (hsane.line.2 h) hnot⟩, fun _ => .inl rfl,
        fun _ => hsane.rest hnot, fun _ hpath => ?_⟩
      rcases closed with ⟨-, -, h⟩ | ⟨h, -, hsame⟩
      · exact h
      · exact hsame.trans (hsane.file h hpath)
  | notReopened closed eq files =>
      refine files.sane (sane_of_down (by rw [eq]) fun _ hpath => ?_)
      rw [eq] at hpath ⊢
      rcases closed with ⟨-, -, h⟩ | ⟨h, -, hsame⟩
      · exact h
      · exact hsame.trans (hsane.file h hpath)
  | published open_ _ _ files =>
      refine files.sane ⟨?_, ⟨fun _ => rfl, fun _ => rfl⟩, fun h => absurd rfl h,
        fun h => absurd rfl h, hsane.file⟩
      show d.archived = true ↔ _
      rw [open_]
      exact ⟨nofun, nofun⟩
  | settled files next =>
      have he := files.sane (hsane.settled _ _)
      have heffect := next.effect
      constructor
      · rw [heffect.archived, heffect.lifecycle]
        exact he.shelf
      · rw [heffect.line, heffect.lifecycle]
        exact he.line
      · rw [heffect.pending, heffect.lifecycle]
        exact he.queue
      · intro hdown
        rw [heffect.lifecycle] at hdown
        rw [(heffect.idle (he.rest hdown).2).2]
        exact he.rest hdown
      · rw [heffect.archived, heffect.walPath, heffect.walOpen]
        exact he.file

end Desk

/-! ### One step -/

namespace Crew

/-- A session that was just created: nothing is owed, logged or told. -/
structure New (d : Desk) : Prop where
  archived : d.archived = false
  lifecycle : d.lifecycle = .spawning ∨ d.lifecycle = .disconnected
  inbox : d.inbox = none
  busy : d.busy = false
  pending : d.pending = []
  waiting : d.waiting = []
  active : d.active = none
  answers : d.answers = []
  walOpen : d.walPath.isSome = true → d.walOpen = true
  log : d.log = []
  nextPromptId : d.nextPromptId = 1

theorem New.sane {d : Desk} (h : New d) : d.Sane where
  shelf := by
    rw [h.archived]
    refine ⟨nofun, fun hshelf => ?_⟩
    have hlifecycle := h.lifecycle
    rw [hshelf] at hlifecycle
    rcases hlifecycle with h | h <;> cases h
  line := by
    rw [h.inbox]
    refine ⟨fun hlive => ?_, nofun⟩
    have hlifecycle := h.lifecycle
    rw [hlive] at hlifecycle
    rcases hlifecycle with h | h <;> cases h
  queue hpending := absurd h.pending hpending
  rest _ := ⟨h.active, h.waiting⟩
  file _ := h.walOpen

/-- A step of the crew on the session `s` by a command. -/
structure Worked (c c' : Crew) (s s' : ManagedSession) (command : Command) (fate : Fate)
    (reply : Reply) (deed : Desk.Deed) (evs : List PromptEvent) (inputs : List WorkerInput) :
    Prop where
  applied : c' = c.apply s command fate
  session : c.session = some s
  session' : c'.session = some s'
  works : ManagedSession.Works { s with walIo := fate.walIo } command s' reply deed evs inputs
  worker : c'.worker =
    (if deed.installs || s'.channel.isNone then Worker.idle else c.worker).takeAll inputs
  admitted : c'.admitted = c.admitted ++ (evs.filterMap PromptEvent.admitted?).map (·.payload)
  accepted : c'.accepted = c.accepted ++ inputs
  earlier : c'.earlier = c.earlier
  finished : c'.finished = c.finished

/-- The prompts a restart on this many records finds queued. -/
def recovered (c : Crew) (kept : Nat) : List RecoveredPrompt :=
  match c.session.bind fun s => s.walPath.map (s, ·) with
  | none => []
  | some (s, path) =>
      match recoverRecords path (s.disk.take kept) with
      | .ok (some rs) => rs.pendingPrompts
      | _ => []

theorem recovered_eq {c : Crew} {kept : Nat} {s : ManagedSession} {path : PathBuf}
    {rs : RecoveredSession} (hsession : c.session = some s) (hpath : s.walPath = some path)
    (hrecover : recoverRecords path (s.disk.take kept) = .ok (some rs)) :
    c.recovered kept = rs.pendingPrompts := by
  unfold recovered
  rw [hsession, Option.bind_some, hpath, Option.map_some]
  simp only [hrecover]

/-- What becomes of the session in a restart. -/
inductive Revived (c : Crew) (kept : Nat) : Option ManagedSession → Prop
  | gone : Revived c kept none
  | back {s : ManagedSession} {path : PathBuf} {rs : RecoveredSession} {limits : EventLogLimits}
      (session : c.session = some s) (walPath : s.walPath = some path)
      (recover : recoverRecords path (s.disk.take kept) = .ok (some rs)) :
      Revived c kept (some (restoreSeed rs (s.disk.take kept)
        ((s.disk.take kept).filterMap WalRecord.note?) limits))

/-- What a step of the crew can be. -/
inductive Change (c : Crew) : CrewAct → Crew → Prop
  | created {cwd : PathBuf} {label : String} {provider : AgentProvider}
      {resumeSessionId : Option String} {fate : Fate} {server : Server} {s' : ManagedSession}
      (vacant : c.session = none) (session' : Crew.session { c with server } = some s')
      (new : New s'.desk) :
      Change c (.create cwd label provider resumeSessionId fate) { c with server }
  | worked {c' : Crew} {s s' : ManagedSession} {command : Command} {fate : Fate} {reply : Reply}
      {deed : Desk.Deed} {evs : List PromptEvent} {inputs : List WorkerInput}
      (arrives : Arrives s command)
      (worked : c.Worked c' s s' command fate reply deed evs inputs) :
      Change c (.command command fate) c'
  | reported {c' : Crew} {s s' : ManagedSession} {fate : Fate} {reply : Reply}
      {evs : List PromptEvent} {inputs : List WorkerInput} {turn : Turn} {outcome : TurnOutcome}
      {rest : List (Turn × TurnOutcome)} (ended : c.worker.ended = (turn, outcome) :: rest)
      (worked : Worked { c with worker := { c.worker with ended := rest } } c' s s'
        (.turnCount s.channelGeneration (s.turns + 1) outcome) fate reply
        (.settled (s.turns + 1) outcome) evs inputs) :
      Change c (.turnCount fate) c'
  | hungUp {connected receiving : Bool} {s : ManagedSession} {server : Server}
      (session : c.session = some s)
      (session' : Crew.session { c with server } = some (hangUp s connected receiving)) :
      Change c (.hangUp connected receiving) { c with server }
  | ended {outcome : TurnOutcome} {turn : Turn} {rest : List Turn}
      (queue : c.worker.queue = turn :: rest) :
      Change c (.turnEnds outcome) { c with
        worker := { queue := rest, ended := c.worker.ended ++ [(turn, outcome)] }
        finished := c.finished ++ [(turn, outcome)] }
  | crashed {kept : Nat} {server : Server} (revived : Revived c kept server.manager.session) :
      Change c (.crash kept) { c with
        server
        worker := .idle
        admitted := (server.manager.session.map fun s => s.pendingPrompts.map (·.payload)).getD []
        accepted := []
        earlier := c.earlier ++ c.accepted }

/-- What every reachable state has in common. -/
structure Sane (c : Crew) : Prop where
  /-- Without a session there is nothing to count. -/
  vacant : c.session = none → c.worker = .idle ∧ c.admitted = [] ∧ c.accepted = []
  desk : ∀ s ∈ c.session, s.desk.Sane
  line : ∀ s ∈ c.session, s.channel = none → c.worker = .idle

/-- The flags of the worker's end are no part of the desk. -/
theorem hangUp_desk (s : ManagedSession) (connected receiving : Bool) :
    (hangUp s connected receiving).desk = s.desk :=
  s.withChannel_desk _ fun _ => rfl

/-- What the crew hands over is what the desk says. -/
theorem handed_of_hands {before after : Option TransportHandle} {inputs : List WorkerInput}
    (h : Desk.Hands (before.map (·.inbox)) inputs (after.map (·.inbox))) :
    handed before after = inputs := by
  rcases h with ⟨hafter, rfl⟩ | ⟨box, hbefore, hafter⟩
  · rw [Option.map_eq_none_iff.1 hafter]
    rfl
  · obtain ⟨channel, rfl, rfl⟩ := Option.map_eq_some_iff.1 hbefore
    obtain ⟨channel', rfl, hbox⟩ := Option.map_eq_some_iff.1 hafter
    show channel'.inbox.drop channel.inbox.length = inputs
    rw [hbox, List.drop_left]

theorem handed_of_installed {after : Option TransportHandle} {inputs : List WorkerInput}
    (h : after.map (·.inbox) = some inputs) : handed none after = inputs := by
  obtain ⟨channel, rfl, rfl⟩ := Option.map_eq_some_iff.1 h
  rfl

/-- A command to a session. -/
theorem worked_apply {c : Crew} {s : ManagedSession} (hsession : c.session = some s)
    (hsane : s.desk.Sane) (command : Command) (fate : Fate) (hopen : command ≠ .close)
    (hfresh : ∀ handle generation isRespawn resumed,
      command = .publishChannel handle generation isRespawn resumed → handle.inbox = []) :
    ∃ s' reply deed evs inputs,
      c.Worked (c.apply s command fate) s s' command fate reply deed evs inputs := by
  let faced : ManagedSession := { s with walIo := fate.walIo }
  obtain ⟨s', hsession', deed, evs, inputs, hworks⟩ :=
    c.server.manager.applyTo_desk faced fate command hsane.shelf.1 hopen hfresh
  rcases hreply : c.server.manager.applyTo faced fate command with ⟨manager, reply⟩
  rw [hreply] at hsession' hworks
  have happly : c.server.apply command fate = ({ c.server with manager }, reply) := by
    rw [Server.apply_eq hsession, hreply]
  have hhands := hworks.step.hands
  have hhanded : handed (if reply.installs then none else s.channel) s'.channel = inputs := by
    rw [hworks.installs]
    cases hinstalls : deed.installs with
    | true =>
        rw [hinstalls, if_pos rfl] at hhands
        exact handed_of_installed hhands
    | false =>
        rw [hinstalls, if_neg Bool.false_ne_true] at hhands
        exact handed_of_hands hhands
  refine ⟨s', reply, deed, evs, inputs, ?_⟩
  have heq : c.apply s command fate = { c with
      server := { c.server with manager }
      worker := (if reply.installs || s'.channel.isNone then Worker.idle else c.worker).takeAll inputs
      admitted := c.admitted ++ (if reply.succeeds then command.payload?.toList else [])
      accepted := c.accepted ++ inputs } := by
    have hmanager : manager.session = some s' := hsession'
    unfold apply
    simp only [happly, hmanager, Option.bind_some, hhanded]
  rw [heq]
  exact
    { applied := heq.symm
      session := hsession
      session' := hsession'
      works := hworks
      worker := by rw [← hworks.installs]
      admitted := by rw [hworks.admits]
      accepted := rfl
      earlier := rfl
      finished := rfl }

/-- A session that is created owes nothing, whether or not its spawn
thread starts. -/
theorem new_of_create {server server' : Server} {cwd : PathBuf} {label : String}
    {provider : AgentProvider} {resumeSessionId : Option String} {fate : Fate}
    (h : server.step (.create cwd label provider resumeSessionId fate) = some server') :
    server.manager.session = none ∧
      ∃ s', server'.manager.session = some s' ∧ New s'.desk := by
  simp only [Server.step, Option.ite_none_right_eq_some] at h
  obtain ⟨hvacant, h⟩ := h
  cases h
  simp only [Server.vacant, Bool.and_eq_true, Option.isNone_iff_eq_none] at hvacant
  refine ⟨hvacant.1.1, _, rfl, ?_⟩
  let wal := server.manager.openSessionWal server.id label cwd provider fate
  let created := newManagedSession server.id label cwd provider
    server.manager.defaultPermissionMode (wal.map (·.1)) (wal.toList.map (·.2.record))
    server.manager.limits
  let fresh := { created with walIo := fate.walIo }.emit (.sessionCreated created.info)
  have hnew : New fresh.desk := by
    refine ⟨rfl, .inl rfl, rfl, rfl, rfl, rfl, rfl, rfl, fun h => h, ?_, rfl⟩
    show (wal.toList.map (·.2.record)).filterMap WalRecord.entry? = []
    cases wal <;> rfl
  show New (fresh.startJob _ fate.threadError "could not start agent spawn worker").1.desk
  rcases fresh.startJob_desk
    { cwd, provider, resumeId := resumeSessionId, resumeOnly := false, expectedGeneration := 0,
      isRespawn := false }
    fate.threadError "could not start agent spawn worker" rfl rfl with hsame | ⟨reason, hdown⟩
  · rw [hsame]
    exact hnew
  · have hstill := hdown.still
    have hqueue : fresh.desk.pending = [] := rfl
    obtain ⟨written, hlog, hsublist, -⟩ := hdown.log
    rw [hqueue] at hsublist
    have hwritten : written = [] := List.sublist_nil.1 hsublist
    constructor
    · exact hstill.archived.trans hnew.archived
    · exact .inr hstill.lifecycle
    · exact hstill.inbox
    · exact hstill.busy
    · exact hstill.pending
    · exact hstill.waiting
    · exact hstill.active
    · exact hstill.answers
    · rw [hstill.walPath, hstill.walOpen]
      exact hnew.walOpen
    · rw [hlog, hwritten, List.append_nil]
      exact hnew.log
    · exact hdown.numbers

/-- What a restart makes of the session. -/
theorem revived_of_restart {c : Crew} {kept : Nat} {server' : Server}
    (h : c.server.restart kept = some server') : Revived c kept server'.manager.session := by
  unfold Server.restart at h
  split at h
  · cases h
    exact .gone
  · rename_i s path hfile
    obtain ⟨session, hsession, hpath⟩ := Option.bind_eq_some_iff.1 hfile
    obtain ⟨walPath, hwalPath, heq⟩ := Option.map_eq_some_iff.1 hpath
    cases heq
    simp only at h
    split at h
    · cases h
    · rename_i found hrecover
      cases h
      cases found with
      | none => exact .gone
      | some rs => exact .back hsession hwalPath hrecover

theorem change_of_step {c c' : Crew} {a : CrewAct} (hsane : c.Sane) (h : machine.step c a = some c') :
    Change c a c' := by
  change step c a = some c' at h
  cases a with
  | create cwd label provider resumeSessionId fate =>
      obtain ⟨server, hserver, rfl⟩ := Option.map_eq_some_iff.1 h
      obtain ⟨hvacant, s', hsession, hnew⟩ := new_of_create hserver
      exact .created hvacant hsession hnew
  | command command fate =>
      simp only [step] at h
      split at h
      · cases h
      · rename_i s hsession
        split at h
        · rename_i harrives
          cases h
          have hopen : command ≠ .close := by
            rintro rfl
            exact harrives
          have hfresh : ∀ handle generation isRespawn resumed,
              command = .publishChannel handle generation isRespawn resumed →
                handle.inbox = [] := by
            rintro handle generation isRespawn resumed rfl
            exact harrives
          obtain ⟨s', reply, deed, evs, inputs, hworked⟩ :=
            worked_apply hsession (hsane.desk s hsession) command fate hopen hfresh
          exact .worked harrives hworked
        · cases h
  | hangUp connected receiving =>
      obtain ⟨s, hsession, rfl⟩ := Option.map_eq_some_iff.1 h
      exact .hungUp hsession rfl
  | turnEnds outcome =>
      simp only [step] at h
      split at h
      · cases h
      · rename_i turn rest hqueue
        cases h
        exact .ended hqueue
  | turnCount fate =>
      simp only [step] at h
      split at h
      · rename_i s turn outcome rest hsession hended
        cases h
        let reporting : Crew := { c with worker := { c.worker with ended := rest } }
        obtain ⟨s', reply, deed, evs, inputs, hworked⟩ := worked_apply (c := reporting) hsession
          (hsane.desk s hsession) (.turnCount s.channelGeneration (s.turns + 1) outcome) fate
          nofun nofun
        -- a count of the session's own generation settles
        have hdeed : deed = .settled (s.turns + 1) outcome := by
          have hby := hworked.works.by_
          cases deed with
          | settled turns outcome' =>
              obtain ⟨hcommand, -⟩ := hby
              cases hcommand
              rfl
          | quiet => exact absurd rfl (hby _ _)
          | lost | prompted => cases hby
          | failed =>
              rcases hby with ⟨_, _, h⟩ | ⟨_, h⟩ <;> cases h
          | delivered =>
              obtain ⟨_, _, h, -⟩ := hby
              cases h
          | cancelled => cases hby
          | restarted => cases hby
          | shelved => cases hby.1
          | reopened =>
              obtain ⟨_, h⟩ := hby
              cases h
          | published isRespawn =>
              obtain ⟨_, _, h⟩ := hby
              cases h
        rw [hdeed] at hworked
        exact .reported hended hworked
      · cases h
  | crash kept =>
      obtain ⟨server, hserver, rfl⟩ := Option.map_eq_some_iff.1 h
      exact .crashed (revived_of_restart hserver)

/-! ### Runs -/

theorem sane_start {c : Crew} (h : machine.start c) : c.Sane := by
  obtain ⟨id, mode, limits, walDir, rfl⟩ := h
  exact ⟨fun _ => ⟨rfl, rfl, rfl⟩, fun s hs => (Option.not_mem_none s hs).elim,
    fun s hs => (Option.not_mem_none s hs).elim⟩

/-- A worker without a channel has nothing to do. -/
theorem Worked.line {c c' : Crew} {s s' : ManagedSession} {command : Command} {fate : Fate}
    {reply : Reply} {deed : Desk.Deed} {evs : List PromptEvent} {inputs : List WorkerInput}
    (h : c.Worked c' s s' command fate reply deed evs inputs) (hchannel : s'.channel = none) :
    c'.worker = .idle := by
  have hinputs : inputs = [] := by
    have hinbox : s'.desk.inbox = none := by
      show s'.channel.map (·.inbox) = none
      rw [hchannel]
      rfl
    have hhands := h.works.step.hands
    rw [hinbox] at hhands
    split at hhands
    · cases hhands
    · rcases hhands with ⟨-, hnil⟩ | ⟨box, -, hbox⟩
      · exact hnil
      · cases hbox
  rw [h.worker, hchannel, hinputs, Option.isNone_none, Bool.or_true]
  rfl

theorem Worked.sane {c c' : Crew} {s s' : ManagedSession} {command : Command} {fate : Fate}
    {reply : Reply} {deed : Desk.Deed} {evs : List PromptEvent} {inputs : List WorkerInput}
    (h : c.Worked c' s s' command fate reply deed evs inputs) (hsane : s.desk.Sane) : c'.Sane := by
  have hfaced : ({ s with walIo := fate.walIo } : ManagedSession).desk.Sane :=
    ⟨hsane.shelf, hsane.line, hsane.queue, hsane.rest, hsane.file⟩
  constructor
  · intro hnone
    rw [h.session'] at hnone
    cases hnone
  · intro t ht
    rw [h.session'] at ht
    cases ht
    exact h.works.step.sane hfaced
  · intro t ht hchannel
    rw [h.session'] at ht
    cases ht
    exact h.line hchannel

/-- A recovered session owes its queue. -/
theorem sane_restoreSeed (rs : RecoveredSession) (disk : List WalRecord)
    (history : List Notification) (limits : EventLogLimits) :
    (restoreSeed rs disk history limits).desk.Sane := by
  have hlifecycle : (restoreSeed rs disk history limits).desk.lifecycle =
      if rs.archived then .archived else .spawning := rfl
  have harchived : (restoreSeed rs disk history limits).desk.archived = rs.archived := rfl
  cases hshelf : rs.archived with
  | true =>
      rw [hshelf] at hlifecycle harchived
      refine ⟨by rw [harchived, hlifecycle]; exact ⟨fun _ => rfl, fun _ => rfl⟩, ?_, fun _ => ?_,
        fun _ => ⟨rfl, rfl⟩, fun hopen => ?_⟩
      · rw [hlifecycle]
        exact ⟨nofun, nofun⟩
      · exact .inr (.inr hlifecycle)
      · rw [harchived] at hopen
        cases hopen
  | false =>
      rw [hshelf] at hlifecycle harchived
      refine ⟨by rw [harchived, hlifecycle]; exact ⟨nofun, nofun⟩, ?_, fun _ => ?_,
        fun _ => ⟨rfl, rfl⟩, fun _ _ => ?_⟩
      · rw [hlifecycle]
        exact ⟨nofun, nofun⟩
      · exact .inl hlifecycle
      · show (!rs.archived) = true
        rw [hshelf]
        rfl

theorem Change.sane {c c' : Crew} {a : CrewAct} (h : Change c a c') (hsane : c.Sane) : c'.Sane := by
  cases h with
  | created vacant session' new =>
      obtain ⟨hworker, -, -⟩ := hsane.vacant vacant
      constructor
      · intro hnone
        rw [session'] at hnone
        cases hnone
      · intro t ht
        rw [session'] at ht
        cases ht
        exact new.sane
      · exact fun _ _ _ => hworker
  | worked _ worked => exact worked.sane (hsane.desk _ worked.session)
  | reported _ worked => exact worked.sane (hsane.desk _ worked.session)
  | @hungUp connected receiving s server hsession session' =>
      constructor
      · intro hnone
        rw [session'] at hnone
        cases hnone
      · intro t ht
        rw [session'] at ht
        cases ht
        rw [hangUp_desk]
        exact hsane.desk s hsession
      · intro t ht hchannel
        rw [session'] at ht
        cases ht
        exact hsane.line s hsession (Option.map_eq_none_iff.1 hchannel)
  | ended queue =>
      refine ⟨fun hnone => ?_, hsane.desk, fun t ht hchannel => ?_⟩
      · rw [(hsane.vacant hnone).1] at queue
        cases queue
      · rw [hsane.line t ht hchannel] at queue
        cases queue
  | @crashed kept server revived =>
      refine ⟨fun hnone => ⟨rfl, ?_, rfl⟩, fun t ht => ?_, fun _ _ _ => rfl⟩
      · show (server.manager.session.map _).getD [] = []
        rw [show server.manager.session = none from hnone]
        rfl
      · change server.manager.session = some t at ht
        rw [ht] at revived
        cases revived
        exact sane_restoreSeed _ _ _ _

theorem sane_of_reaches {allowed : Crew → CrewAct → Prop} {c : Crew}
    (h : machine.Reaches allowed c) : c.Sane :=
  h.invariant (fun _ => sane_start) fun _ _ _ hsane _ hstep =>
    (change_of_step hsane hstep).sane hsane

/-- The induction over runs: what holds without a session and survives
every change holds in every state reached. -/
theorem reaches_change {allowed : Crew → CrewAct → Prop} {P : Crew → Prop}
    (hstart : ∀ c, machine.start c → P c)
    (hchange : ∀ c a c', c.Sane → P c → allowed c a → Change c a c' → P c')
    {c : Crew} (h : machine.Reaches allowed c) : P c :=
  h.relative (fun _ => sane_of_reaches) hstart fun c a c' hsane hP hallowed hstep =>
    hchange c a c' hsane hP hallowed (change_of_step hsane hstep)

end Crew

end Yaldabaoth
