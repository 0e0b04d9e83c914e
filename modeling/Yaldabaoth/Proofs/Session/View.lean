import Mathlib.Data.List.Perm.Basic
import Yaldabaoth.Model.Server
import Yaldabaoth.Proofs.Session.Commands

/-!
# `Yaldabaoth.Proofs.Session.View`: the server as seen from the ledger

A `View` is a session's ledger with the spawn threads and pumps that
may still act on it. `View.Step` lists the eleven things a step of the
server can do to it. `step_cases` proves that there are no others, and
`reaches_view` is the induction rule the claims about whole runs go
through: a property of the created session that survives every such
step and every recovery holds of every session a run reaches.
-/

set_option autoImplicit false

namespace Yaldabaoth

open Ledger (Writes Passive Speaks Settles)

structure View where
  ledger : Ledger
  jobs : List SpawnJob
  pumps : List PumpStamp

/-- What a step of the server amounts to. -/
inductive Happening where
  | quiet
  | prompted
  | heard
  | settled
  | opened
  | restarted
  | shelved
  | reopened
  | retried
  | walLost
deriving Repr, DecidableEq

/-- Pumps that sent something of no consequence: none is of a new
generation, and those of the current one are among the former. -/
structure PumpStamp.Fewer (generation : Nat) (pumps pumps' : List PumpStamp) : Prop where
  old : ∀ p ∈ pumps', ∃ q ∈ pumps, q.generation = p.generation
  current : (pumps'.filter (·.generation = generation)).Subperm
    (pumps.filter (·.generation = generation))

theorem PumpStamp.Fewer.refl (generation : Nat) (pumps : List PumpStamp) :
    Fewer generation pumps pumps :=
  ⟨fun p hp => ⟨p, hp, rfl⟩, List.Subperm.refl _⟩

/-- A pump that sends leaves the list or stays in it; if it is current,
it stays as it was. -/
theorem PumpStamp.Fewer.of_perm {generation : Nat} {pumps rest : List PumpStamp} {p : PumpStamp}
    {after : Option PumpStamp} (h : pumps.Perm (p :: rest))
    (hafter : ∀ q ∈ after, q.generation = p.generation ∧ (p.generation = generation → q = p)) :
    Fewer generation pumps (after.toList ++ rest) := by
  constructor
  · intro q hq
    rcases List.mem_append.1 hq with hq | hq
    · exact ⟨p, h.mem_iff.2 List.mem_cons_self, ((hafter q (Option.mem_toList.1 hq)).1).symm⟩
    · exact ⟨q, h.mem_iff.2 (List.mem_cons_of_mem p hq), rfl⟩
  · refine List.Subperm.trans ?_ (h.filter _).symm.subperm
    cases after with
    | none => exact ((List.sublist_cons_self p rest).filter _).subperm
    | some q =>
        obtain ⟨hgeneration, hsame⟩ := hafter q rfl
        by_cases hcurrent : p.generation = generation
        · rw [hsame hcurrent]
          exact List.Subperm.refl _
        · have hstale : ¬ q.generation = generation := hgeneration ▸ hcurrent
          simp [hstale, hcurrent, List.Subperm.refl]

namespace View

/-- The view as a command meets it, with the fates of its writes. -/
def facing (v : View) (walIo : List WalWrite) : View :=
  { v with ledger := { v.ledger with walIo } }

inductive Step : View → Happening → View → Prop
  /-- Nothing is said. -/
  | quiet {L L' : Ledger} {jobs jobs' : List SpawnJob} {pumps pumps' : List PumpStamp}
      (ledger : Passive L L') (jobs_le : jobs'.Sublist jobs)
      (pumps_le : PumpStamp.Fewer L.generation pumps pumps') :
      Step ⟨L, jobs, pumps⟩ .quiet ⟨L', jobs', pumps'⟩
  /-- A prompt is admitted. -/
  | prompted {L M L' : Ledger} {jobs : List SpawnJob} {pumps : List PumpStamp} {text : String}
      (open_ : L.archived = false) (notArchived : L.lifecycle ≠ .archived)
      (notDisconnected : L.lifecycle ≠ .disconnected) (before : Passive L M)
      (speaks : Speaks M (.userMessage text) L') :
      Step ⟨L, jobs, pumps⟩ .prompted ⟨L', jobs, pumps⟩
  /-- A current pump records a reply. -/
  | heard {L M L' : Ledger} {jobs : List SpawnJob} {pumps pumps' : List PumpStamp}
      {note : Notification} (current : ∃ p ∈ pumps, p.generation = L.generation)
      (speaks : M = L ∨ ∃ kind : AgentEventKind, kind.Ordinary ∧ Speaks L kind M)
      (plain : note.Plain) (writes : Writes M [note] L')
      (pumps_le : PumpStamp.Fewer L.generation pumps pumps') :
      Step ⟨L, jobs, pumps⟩ .heard ⟨L', jobs, pumps'⟩
  /-- A current pump reports a turn end. -/
  | settled {L L' : Ledger} {jobs : List SpawnJob} {pumps rest : List PumpStamp} {p : PumpStamp}
      {turns : Nat} {outcome : TurnOutcome} (from_ : pumps.Perm (p :: rest))
      (current : p.generation = L.generation) (later : p.reported < turns)
      (live : outcome ≠ .replayEnd) (settles : Settles L turns outcome L') :
      Step ⟨L, jobs, pumps⟩ .settled ⟨L', jobs, { p with reported := turns } :: rest⟩
  /-- A spawn thread publishes its channel. -/
  | opened {L M N L' : Ledger} {jobs jobs' : List SpawnJob} {pumps : List PumpStamp}
      {job : SpawnJob} (from_ : jobs.Perm (job :: jobs')) (current : job.For L.generation)
      (open_ : L.archived = false) (flushes : Writes L [] M)
      (speaks : Speaks M.live (channelOpenedKind job.resumed) N) (attaches : Passive N L') :
      Step ⟨L, jobs, pumps⟩ .opened
        ⟨L', jobs', { generation := L.generation, reported := L.turns } :: pumps⟩
  | restarted {L L' : Ledger} {jobs : List SpawnJob} {pumps : List PumpStamp}
      {job : Option SpawnJob} (open_ : L.archived = false) (ledger : Passive L.restarted L')
      (spawns : ∀ j ∈ job, j.For (L.generation + 1)) :
      Step ⟨L, jobs, pumps⟩ .restarted ⟨L', jobs ++ job.toList, pumps⟩
  | shelved {L M : Ledger} {jobs : List SpawnJob} {pumps : List PumpStamp} {eventLog : EventLog}
      (open_ : L.archived = false) (file : L.walOpen = true) (writes : Writes L [] M)
      (log : eventLog = M.eventLog ∨ eventLog.entries = []) :
      Step ⟨L, jobs, pumps⟩ .shelved ⟨M.shelved eventLog, jobs, pumps⟩
  | reopened {L M L' : Ledger} {jobs : List SpawnJob} {pumps : List PumpStamp}
      {job : Option SpawnJob} (shelf : L.archived = true) (file : L.walPath.isSome)
      (writes : Writes L [] M) (ledger : Passive M.reopened L')
      (spawns : ∀ j ∈ job, j.For L.generation) :
      Step ⟨L, jobs, pumps⟩ .reopened ⟨L', jobs ++ job.toList, pumps⟩
  | retried {L L' : Ledger} {jobs : List SpawnJob} {pumps : List PumpStamp}
      {job : Option SpawnJob} (open_ : L.archived = false)
      (disconnected : L.lifecycle = .disconnected) (ledger : Passive L.retried L')
      (spawns : ∀ j ∈ job, j.For L.generation) :
      Step ⟨L, jobs, pumps⟩ .retried ⟨L', jobs ++ job.toList, pumps⟩
  /-- A failed deletion leaves the file closed. -/
  | walLost {L : Ledger} {jobs : List SpawnJob} {pumps : List PumpStamp} :
      Step ⟨L, jobs, pumps⟩ .walLost ⟨{ L with walOpen := false }, jobs, pumps⟩

/-- What every view of a run satisfies, and the effects of the commands
rely on. -/
structure Sane (v : View) : Prop where
  shelf : v.ledger.archived = true → v.ledger.lifecycle = .archived
  jobs : ∀ job ∈ v.jobs, job.isRespawn = false

/-- A session that was just created. -/
structure Created (walIo : List WalWrite) (v : View) : Prop where
  ledger : ∃ L : Ledger, L.generation = 0 ∧ L.agentSeq = 0 ∧ L.turns = 0 ∧
    L.lifecycle = .spawning ∧ L.archived = false ∧ L.walOpen = L.walPath.isSome ∧
    L.walIo = walIo ∧ L.notes = [] ∧ L.history = [] ∧ L.eventLog = .new ∧ Passive L v.ledger
  jobs : ∃ job : Option SpawnJob, v.jobs = job.toList ∧ ∀ j ∈ job, j.For 0
  pumps : v.pumps = []

/-- A session recovered from the first records of the file. -/
structure Recovered (v v' : View) : Prop where
  ledger : ∃ path kept rs, v.ledger.walPath = some path ∧
    recoverRecords path (v.ledger.disk.take kept) = .ok (some rs) ∧
    ∃ limits, v'.ledger = (restoreSeed rs (v.ledger.disk.take kept)
      ((v.ledger.disk.take kept).filterMap WalRecord.note?) limits).ledger
  jobs : ∃ job : Option SpawnJob, v'.jobs = job.toList ∧
    (∀ j ∈ job, j.For v'.ledger.generation) ∧ (v'.ledger.archived = true → job = none)
  pumps : v'.pumps = []

end View

/-- Whether a command is one that prompts the agent. -/
def Command.prompts : Command → Bool
  | .prompt _ _ | .steer _ _ | .adminPrompt _ => true
  | _ => false

/-- What the operating system does during a step. -/
def ServerAct.fate : ServerAct → Fate
  | .create _ _ _ _ fate | .client _ fate | .spawned _ _ fate | .spawnFailed _ _ fate
  | .pump _ _ fate => fate
  | .crash _ => .good

namespace Server

variable (s : Server)

/-- The view of a session of the server. -/
def viewOf (session : ManagedSession) : View :=
  { ledger := session.ledger, jobs := s.manager.jobs, pumps := s.pumps }

def view : Option View := s.manager.session.map s.viewOf

/-- The server after its actor put a session back. -/
def put (session : ManagedSession) : Server := { s with manager := s.manager.put session }

end Server

/-- The acts that a happening comes from, as far as claims tell them
apart. -/
def Happening.By (s : Server) (v : View) (a : ServerAct) : Happening → Prop
  | .prompted => ∃ command fate, a = .client command fate ∧ command.prompts = true
  | .opened => ∃ index handle fate job, a = .spawned index handle fate ∧
      s.manager.jobs[index]? = some job ∧ job.expectedGeneration = v.ledger.generation
  | .retried => ∃ fate, a = .client (.setArchived false) fate
  | .walLost => a.fate.reopenError ≠ none
  | _ => True

theorem Manager.putJob_none (m : Manager) (s : ManagedSession) : m.putJob s none = m.put s := by
  rw [putJob, Option.toList_none, List.append_nil]
  rfl

namespace Server

/-- What becomes of a session's view in a step: one of the happenings,
or the session is gone. -/
def Becomes (s : Server) (v : View) (a : ServerAct) (s' : Server) : Prop :=
  (∃ h v', s'.view = some v' ∧ (v.facing a.fate.walIo).Step h v' ∧ h.By s v a) ∨ s'.view = none

variable {s : Server} {session : ManagedSession} {fate : Fate}

/-- A command to the session that exists. -/
theorem apply_eq (hsession : s.manager.session = some session) (command : Command) :
    s.apply command fate =
      ({ s with manager :=
          (s.manager.applyTo { session with walIo := fate.walIo } fate command).1 },
        (s.manager.applyTo { session with walIo := fate.walIo } fate command).2) := by
  rw [apply, Manager.apply, hsession]

/-- A client's command. -/
theorem client_cases {command : Command} (hsession : s.manager.session = some session)
    (hsane : (s.viewOf session).Sane) (hclient : command.fromClient = true) :
    Becomes s (s.viewOf session) (.client command fate) (s.apply command fate).1 := by
  have hshelf : session.archived = true → session.lifecycle = .archived := hsane.shelf
  rw [apply_eq hsession]
  -- the session as the command meets it
  generalize hS : ({ session with walIo := fate.walIo } : ManagedSession) = S
  have quiet (S' : ManagedSession) (hledger : Passive S.ledger S'.ledger) :
      Becomes s (s.viewOf session) (.client command fate) (s.put S') := by
    rw [← hS] at hledger
    exact .inl ⟨.quiet, _, rfl, .quiet hledger (List.Sublist.refl _) (.refl _ _), trivial⟩
  have prompted (S' : ManagedSession) (text : String) (hprompts : command.prompts = true)
      (heffect : Passive S.ledger S'.ledger ∨
        (S.archived = false ∧ S.lifecycle ≠ .archived ∧ S.lifecycle ≠ .disconnected ∧
          ∃ L, Passive S.ledger L ∧ Speaks L (.userMessage text) S'.ledger)) :
      Becomes s (s.viewOf session) (.client command fate) (s.put S') := by
    rcases heffect with hpassive | ⟨hopen, hunshelved, hconnected, M, hbefore, hspeaks⟩
    · exact quiet _ hpassive
    · rw [← hS] at hopen hunshelved hconnected hbefore
      exact .inl ⟨.prompted, _, rfl, .prompted hopen hunshelved hconnected hbefore hspeaks,
        command, fate, rfl, hprompts⟩
  have hshelf' : S.archived = true → S.lifecycle = .archived := by rw [← hS]; exact hshelf
  cases command with
  | attach cursor => exact quiet (S.doAttach cursor).1 (.refl _)
  | detach => exact quiet S.doDetach (.refl _)
  | prompt text images =>
      exact prompted (S.doPrompt text images).1 text rfl
        (S.admitPrompt_effect text images _ _ _ _ hshelf')
  | steer text images =>
      exact prompted (S.doSteer text images).1 text rfl
        (S.admitPrompt_effect text images _ _ _ _ hshelf')
  | adminPrompt text =>
      exact prompted (S.enqueuePrompt text []).1 text rfl
        (S.admitPrompt_effect text [] _ _ _ _ hshelf')
  | cogDelivery request reply =>
      simp only [Manager.applyTo]
      split
      · exact quiet (S.answer reply _) (.refl _)
      · refine quiet (S.doCogDelivery _) ?_
        rw [S.doCogDelivery_ledger]
        exact .refl _
  | cancel => exact quiet S.doCancel (S.passive_doCancel hshelf')
  | rename label => exact quiet (S.doRename label fate) (S.passive_doRename label fate)
  | setPermissionMode mode =>
      exact quiet (S.doSetPermissionMode mode fate).1 (S.passive_doSetPermissionMode mode fate)
  | setModel modelId =>
      exact quiet (S.doSetModel modelId fate).1 (S.passive_doSetModel modelId fate)
  | close =>
      have hledger : ({ s with manager := (s.manager.doClose S fate).1 } : Server).view = none ∨
          (s.manager.doClose S fate).1 = s.manager.put S ∨
          (s.manager.doClose S fate).1 =
            s.manager.put { S with walOpen := fate.reopenError.isNone } ∧ S.walOpen = true := by
        unfold Manager.doClose
        split
        · split
          · exact .inr (.inr ⟨rfl, ‹_›⟩)
          · split
            · exact .inr (.inl rfl)
            · exact .inl rfl
        · exact .inl rfl
      simp only [Manager.applyTo]
      rcases hledger with hgone | hkept | ⟨hclosed, hopen⟩
      · exact .inr hgone
      · rw [hkept]
        exact quiet S (.refl _)
      · rw [hclosed]
        cases hreopen : fate.reopenError with
        | none =>
            have hsame : ({ S with walOpen := true } : ManagedSession) = S := by
              rw [← hopen]
            rw [Option.isNone_none, hsame]
            exact quiet S (.refl _)
        | some error =>
            rw [← hS]
            refine .inl ⟨.walLost, _, rfl, .walLost, ?_⟩
            simp [Happening.By, ServerAct.fate, hreopen]
  | restart =>
      simp only [Manager.applyTo]
      rcases S.doRestart_effect fate with ⟨-, hsame, hnone⟩ | ⟨hopen, hledger, hspawns⟩
      · rw [hsame, hnone, Manager.putJob_none]
        exact quiet S (.refl _)
      · subst hS
        exact .inl ⟨.restarted, _, rfl, .restarted hopen hledger hspawns, trivial⟩
  | setArchived archived =>
      simp only [Manager.applyTo, ManagedSession.doSetArchived]
      split
      · rename_i hsame
        split
        · -- an unarchive repeated on a disconnected session
          rename_i hretry
          subst hS
          obtain ⟨hnot, hdisconnected⟩ := hretry
          have hopen : session.archived = false := by
            rw [show session.archived = archived from hsame]
            simpa using hnot
          refine .inl ⟨.retried, _, rfl, .retried hopen hdisconnected
            (ManagedSession.passive_startJob _ _ _ rfl) fun job hmem => ?_, fate, ?_⟩
          · rw [ManagedSession.startJob_job hmem]
            exact ⟨rfl, rfl⟩
          · rw [← hopen, show session.archived = archived from hsame]
        · rw [Manager.putJob_none]
          exact quiet S (.refl _)
      · rename_i hchange
        split
        · rename_i harchive
          subst harchive
          have hopen : S.archived = false := Bool.eq_false_iff.2 hchange
          rcases S.doArchive_effect with hledger | ⟨M, eventLog, hfile, hwrites, hlog, hshelved⟩
          · rw [Manager.putJob_none]
            exact quiet _ hledger
          · rw [Manager.putJob_none]
            subst hS
            have hview : (s.put (({ session with walIo := fate.walIo } : ManagedSession
                ).doArchive.1)).view = some ⟨M.shelved eventLog, s.manager.jobs, s.pumps⟩ := by
              rw [← hshelved]
              rfl
            exact .inl ⟨.shelved, _, hview, .shelved hopen hfile hwrites hlog, trivial⟩
        · rename_i hunarchive
          have hshelved : S.archived = true := by
            cases harchived : S.archived with
            | true => rfl
            | false =>
                cases archived with
                | true => exact absurd rfl hunarchive
                | false => exact absurd harchived hchange
          rcases S.doUnarchive_effect fate with ⟨hledger, hnone⟩ | ⟨hfile, M, hwrites, hledger, hspawns⟩
          · rw [hnone, Manager.putJob_none]
            exact quiet _ hledger
          · subst hS
            exact .inl ⟨.reopened, _, rfl, .reopened hshelved hfile hwrites hledger hspawns, trivial⟩
  | _ => cases hclient

theorem perm_of_getElem? {α : Type} {l : List α} {i : Nat} {a : α} (h : l[i]? = some a) :
    l.Perm (a :: l.eraseIdx i) := by
  obtain ⟨hlt, rfl⟩ := List.getElem?_eq_some_iff.1 h
  exact (List.getElem_cons_eraseIdx_perm hlt).symm

/-- A spawn thread reports its handshake. -/
theorem spawned_cases {index : Nat} {handle : TransportHandle} {s' : Server}
    (hsession : s.manager.session = some session) (hsane : (s.viewOf session).Sane)
    (hs : s.step (.spawned index handle fate) = some s') :
    Becomes s (s.viewOf session) (.spawned index handle fate) s' := by
  unfold step at hs
  cases hjob : s.manager.jobs[index]? with
  | none => simp [hjob] at hs
  | some job =>
      simp only [hjob] at hs
      cases hs
      have hfresh : job.isRespawn = false := hsane.jobs job (List.mem_of_getElem? hjob)
      let erased : Server :=
        { s with manager := { s.manager with jobs := s.manager.jobs.eraseIdx index } }
      have hsession' : erased.manager.session = some session := hsession
      rw [apply_eq hsession', hfresh]
      let S : ManagedSession := { session with walIo := fate.walIo }
      simp only [Manager.applyTo]
      rcases S.doPublishChannel_effect handle job.expectedGeneration job.resumed with
        ⟨hsame, hnone⟩ | ⟨hopen, hcurrent, M, N, hflush, hspeaks, hattach, hpublished⟩
      · rw [hsame, hnone]
        exact .inl ⟨.quiet, _, rfl, .quiet (.refl _) (List.eraseIdx_sublist _ _) (.refl _ _), trivial⟩
      · rw [hpublished]
        have hfor : job.For S.ledger.generation := ⟨hcurrent.symm, hfresh⟩
        exact .inl ⟨.opened, _, rfl,
          .opened (perm_of_getElem? hjob) hfor hopen hflush hspeaks hattach,
          index, handle, fate, job, rfl, hjob, hcurrent.symm⟩

/-- A spawn thread reports its failure. -/
theorem spawnFailed_cases {index : Nat} {reason : String} {s' : Server}
    (hsession : s.manager.session = some session)
    (hs : s.step (.spawnFailed index reason fate) = some s') :
    Becomes s (s.viewOf session) (.spawnFailed index reason fate) s' := by
  unfold step at hs
  cases hjob : s.manager.jobs[index]? with
  | none => simp [hjob] at hs
  | some job =>
      simp only [hjob] at hs
      cases hs
      let erased : Server :=
        { s with manager := { s.manager with jobs := s.manager.jobs.eraseIdx index } }
      have hsession' : erased.manager.session = some session := hsession
      rw [apply_eq hsession']
      let S : ManagedSession := { session with walIo := fate.walIo }
      exact .inl ⟨.quiet, _, rfl, .quiet (S.passive_handleSpawnFailed _ _)
        (List.eraseIdx_sublist _ _) (.refl _ _), trivial⟩

/-- A pump sends. -/
theorem pump_cases {index : Nat} {send : PumpSend} {s' : Server}
    (hsession : s.manager.session = some session)
    (hs : s.step (.pump index send fate) = some s') :
    Becomes s (s.viewOf session) (.pump index send fate) s' := by
  unfold step at hs
  cases hpump : s.pumps[index]? with
  | none => simp [hpump] at hs
  | some stamp =>
      simp only [hpump, Option.ite_none_right_eq_some] at hs
      obtain ⟨hsends, hs⟩ := hs
      cases hs
      let rest := s.pumps.eraseIdx index
      have hperm : s.pumps.Perm (stamp :: rest) := perm_of_getElem? hpump
      let sent : Server := { s with pumps := (stamp.after send).toList ++ rest }
      have hsession' : sent.manager.session = some session := hsession
      rw [apply_eq hsession']
      let S : ManagedSession := { session with walIo := fate.walIo }
      have hstays : ∀ q ∈ some stamp, q.generation = stamp.generation ∧
          (stamp.generation = S.ledger.generation → q = stamp) := by
        intro q hq
        cases hq
        exact ⟨rfl, fun _ => rfl⟩
      cases send with
      | record event =>
          simp only [PumpStamp.command, Manager.applyTo]
          split
          · exact .inl ⟨.quiet, _, rfl, .quiet (.refl _) (List.Sublist.refl _)
              (.of_perm hperm hstays), trivial⟩
          · rename_i hcurrent
            obtain ⟨M, hspeaks, hwrites⟩ := S.doRecord_effect event
            exact .inl ⟨.heard, _, rfl, .heard
              ⟨stamp, hperm.mem_iff.2 List.mem_cons_self, not_not.1 hcurrent⟩ hspeaks ⟨rfl, rfl⟩
              hwrites (.of_perm hperm hstays), trivial⟩
      | turnCount turns outcome =>
          simp only [PumpStamp.command, Manager.applyTo]
          split
          · rename_i hstale
            refine .inl ⟨.quiet, _, rfl, .quiet (.refl _) (List.Sublist.refl _)
              (.of_perm hperm fun q hq => ?_), trivial⟩
            cases hq
            exact ⟨rfl, fun hcurrent => absurd hcurrent hstale⟩
          · rename_i hcurrent
            obtain ⟨hlater, hlive⟩ := hsends
            exact .inl ⟨.settled, _, rfl, .settled hperm (not_not.1 hcurrent) hlater hlive
              (S.doTurnCount_effect turns outcome), trivial⟩
      | replayDone =>
          simp only [PumpStamp.command, Manager.applyTo]
          split
          all_goals
            exact .inl ⟨.quiet, _, rfl, .quiet (.refl _) (List.Sublist.refl _)
              (.of_perm hperm hstays), trivial⟩
      | agentDisconnected =>
          exact .inl ⟨.quiet, _, rfl, .quiet (S.passive_handleSpawnFailed _ _)
            (List.Sublist.refl _) (.of_perm hperm nofun), trivial⟩

/-- A client creates the session. -/
theorem create_cases {cwd : PathBuf} {label : String} {provider : AgentProvider}
    {resumeSessionId : Option String} {s' : Server}
    (hs : s.step (.create cwd label provider resumeSessionId fate) = some s') :
    ∃ v, s'.view = some v ∧ v.Created fate.walIo := by
  simp only [step, Option.ite_none_right_eq_some] at hs
  obtain ⟨hvacant, hs⟩ := hs
  simp only [vacant, Bool.and_eq_true, List.isEmpty_iff] at hvacant
  obtain ⟨⟨-, hjobs⟩, hpumps⟩ := hvacant
  cases hs
  let wal := s.manager.openSessionWal s.id label cwd provider fate
  let created : ManagedSession := { newManagedSession s.id label cwd provider
    s.manager.defaultPermissionMode (wal.map (·.1)) (wal.toList.map (·.2.record))
    s.manager.limits with walIo := fate.walIo }
  let S : ManagedSession := created.emit (.sessionCreated
    { created with walIo := [] }.info)
  let job : SpawnJob :=
    { cwd, provider, resumeId := resumeSessionId, resumeOnly := false, expectedGeneration := 0,
      isRespawn := false }
  let started := S.startJob job fate.threadError "could not start agent spawn worker"
  refine ⟨⟨started.1.ledger, s.manager.jobs ++ started.2.1.toList, s.pumps⟩, rfl, ?_, ?_, hpumps⟩
  · have hnotes : S.ledger.notes = [] := by
      show (wal.toList.map (·.2.record)).filterMap WalRecord.note? = []
      cases wal <;> rfl
    exact ⟨S.ledger, rfl, rfl, rfl, rfl, rfl, rfl, rfl, hnotes, rfl, rfl,
      ManagedSession.passive_startJob job fate.threadError _ rfl⟩
  · refine ⟨started.2.1, ?_, fun j hj => ?_⟩
    · show s.manager.jobs ++ started.2.1.toList = started.2.1.toList
      rw [hjobs, List.nil_append]
    · rw [ManagedSession.startJob_job hj]
      exact ⟨rfl, rfl⟩

/-- The process dies, and a new one recovers the session or does not
find it. -/
theorem crash_cases {kept : Nat} {s' : Server} (hsession : s.manager.session = some session)
    (hs : s.step (.crash kept) = some s') :
    (∃ v', s'.view = some v' ∧ (s.viewOf session).Recovered v') ∨ s'.view = none := by
  simp only [step, restart, hsession, Option.bind_some] at hs
  cases hpath : session.walPath with
  | none =>
      simp only [hpath, Option.map_none] at hs
      cases hs
      exact .inr rfl
  | some path =>
      simp only [hpath, Option.map_some] at hs
      cases hrecover : recoverRecords path (session.disk.take kept) with
      | error e => simp [hrecover] at hs
      | ok recovered =>
          simp only [hrecover] at hs
          cases hs
          cases recovered with
          | none => exact .inr rfl
          | some rs =>
              left
              refine ⟨_, rfl, ⟨path, kept, rs, hpath, hrecover, _, rfl⟩, ?_, rfl⟩
              cases harchived : rs.archived with
              | true =>
                  refine ⟨none, ?_, nofun, fun _ => rfl⟩
                  simp [viewOf, restoreSeed, harchived]
              | false =>
                  refine ⟨some (restoreSeed rs (session.disk.take kept)
                    ((session.disk.take kept).filterMap WalRecord.note?) s.manager.limits).resumeJob,
                    ?_, ?_, ?_⟩
                  · simp [viewOf, restoreSeed, harchived]
                  · intro j hj
                    cases hj
                    exact ⟨rfl, rfl⟩
                  · intro hshelved
                    have hopen : rs.archived = true := hshelved
                    rw [harchived] at hopen
                    cases hopen

/-- Every step of a server with a session is one of the happenings, or a
recovery, or leaves no session. -/
theorem step_cases {a : ServerAct} {s' : Server} (hsession : s.manager.session = some session)
    (hsane : (s.viewOf session).Sane) (hs : s.step a = some s') :
    Becomes s (s.viewOf session) a s' ∨
      ∃ v', s'.view = some v' ∧ (s.viewOf session).Recovered v' := by
  cases a with
  | create => simp [step, vacant, hsession] at hs
  | client command fate =>
      simp only [step, Option.ite_none_right_eq_some] at hs
      obtain ⟨hclient, hs⟩ := hs
      cases hs
      exact .inl (client_cases hsession hsane hclient)
  | spawned => exact .inl (spawned_cases hsession hsane hs)
  | spawnFailed => exact .inl (spawnFailed_cases hsession hs)
  | pump => exact .inl (pump_cases hsession hs)
  | crash kept =>
      rcases crash_cases hsession hs with hrecovered | hgone
      · exact .inr hrecovered
      · exact .inl (.inr hgone)

/-- A command finds no session. -/
theorem apply_missing (s : Server) (hsession : s.manager.session = none) (command : Command)
    (fate : Fate) : (s.apply command fate).1.manager.session = none := by
  have hmissing : (s.manager.applyMissing s.id command).1.session = none := by
    cases command <;> exact hsession
  simp only [apply, Manager.apply, hsession, hmissing]

theorem view_eq_none (hsession : s.manager.session = none) : s.view = none := by
  rw [view, hsession, Option.map_none]

theorem withPump_manager (s : Server) (reply : Reply) : (s.withPump reply).manager = s.manager := by
  unfold withPump
  split <;> rfl

/-- A server without a session gets one only by a `Create`. -/
theorem step_vacant {a : ServerAct} {s' : Server} (hsession : s.manager.session = none)
    (hs : s.step a = some s') :
    s'.view = none ∨ ∃ v, s'.view = some v ∧ v.Created a.fate.walIo := by
  cases a with
  | create => exact .inr (create_cases hs)
  | client command fate =>
      simp only [step, Option.ite_none_right_eq_some] at hs
      obtain ⟨-, hs⟩ := hs
      cases hs
      exact .inl (view_eq_none (s.apply_missing hsession command fate))
  | spawned index handle fate =>
      simp only [step] at hs
      split at hs
      · cases hs
      · rename_i job hjob
        cases hs
        refine .inl (view_eq_none ?_)
        rw [withPump_manager]
        apply apply_missing
        exact hsession
  | spawnFailed index reason fate =>
      simp only [step] at hs
      split at hs
      · cases hs
      · cases hs
        refine .inl (view_eq_none ?_)
        apply apply_missing
        exact hsession
  | pump index send fate =>
      simp only [step] at hs
      split at hs
      · cases hs
      · split at hs
        · cases hs
          refine .inl (view_eq_none ?_)
          apply apply_missing
          exact hsession
        · cases hs
  | crash kept =>
      simp only [step, restart, hsession, Option.bind_none] at hs
      cases hs
      exact .inl rfl

end Server

/-! ### Runs -/

namespace View

theorem Sane.facing {v : View} (hsane : v.Sane) (walIo : List WalWrite) : (v.facing walIo).Sane :=
  ⟨hsane.shelf, hsane.jobs⟩

/-- What goes out of service is not archived. -/
theorem shelf_of_passive {L L' : Ledger} (h : Passive L L')
    (hshelf : L.archived = true → L.lifecycle = .archived) :
    L'.archived = true → L'.lifecycle = .archived := by
  intro harchived
  rw [h.frame.2.2.2.2.1] at harchived
  rcases h.lifecycle with hsame | ⟨hopen, -⟩
  · rw [hsame]
    exact hshelf harchived
  · rw [hopen] at harchived
    cases harchived

theorem fresh_append {jobs : List SpawnJob} {job : Option SpawnJob} {generation : Nat}
    (hjobs : ∀ j ∈ jobs, j.isRespawn = false) (hjob : ∀ j ∈ job, j.For generation) :
    ∀ j ∈ jobs ++ job.toList, j.isRespawn = false := by
  intro j hj
  rcases List.mem_append.1 hj with hj | hj
  · exact hjobs j hj
  · exact (hjob j (Option.mem_toList.1 hj)).2

/-- Every happening keeps a view sane. -/
theorem Step.sane {v v' : View} {h : Happening} (hstep : v.Step h v') (hsane : v.Sane) :
    v'.Sane := by
  obtain ⟨hshelf, hjobs⟩ := hsane
  cases hstep with
  | quiet ledger jobs_le _ =>
      exact ⟨shelf_of_passive ledger hshelf, fun j hj => hjobs j (jobs_le.subset hj)⟩
  | prompted open_ _ _ before speaks =>
      refine ⟨fun harchived => ?_, hjobs⟩
      have hopen := speaks.frame.2.2.2.2.1.trans (before.frame.2.2.2.2.1.trans open_)
      rw [hopen] at harchived
      cases harchived
  | @heard L M L' _ _ _ note _ speaks plain writes _ =>
      have hspoken : M.archived = L.archived ∧ M.lifecycle = L.lifecycle := by
        rcases speaks with rfl | ⟨kind, -, hspeaks⟩
        · exact ⟨rfl, rfl⟩
        · exact ⟨hspeaks.frame.2.2.2.2.1, hspeaks.frame.2.2.2.2.2.2.2⟩
      obtain ⟨walIo, disk, history, eventLog, rfl⟩ := writes.shape
      refine ⟨fun harchived => ?_, hjobs⟩
      rw [← hspoken.2] at hshelf
      exact hshelf (hspoken.1.symm.trans harchived)
  | settled _ _ _ _ settles =>
      refine ⟨fun harchived => ?_, hjobs⟩
      rw [settles.frame.2.2.2.2.1] at harchived
      rw [settles.frame.2.2.2.2.2.2.2]
      exact hshelf harchived
  | @opened L M N L' _ _ _ _ from_ _ open_ flushes speaks attaches =>
      refine ⟨fun harchived => ?_, fun j hj => hjobs j (from_.mem_iff.2 (List.mem_cons_of_mem _ hj))⟩
      have hopen : L'.archived = false := attaches.frame.2.2.2.2.1.trans
        (speaks.frame.2.2.2.2.1.trans ((Passive.of_writes_nil flushes).frame.2.2.2.2.1.trans open_))
      rw [hopen] at harchived
      cases harchived
  | restarted open_ ledger spawns =>
      refine ⟨fun harchived => ?_, fresh_append hjobs spawns⟩
      have hopen := ledger.frame.2.2.2.2.1.trans open_
      rw [hopen] at harchived
      cases harchived
  | shelved _ _ _ _ => exact ⟨fun _ => rfl, hjobs⟩
  | reopened _ _ _ ledger spawns =>
      refine ⟨fun harchived => ?_, fresh_append hjobs spawns⟩
      have hopen : _ = false := ledger.frame.2.2.2.2.1
      rw [hopen] at harchived
      cases harchived
  | retried open_ _ ledger spawns =>
      refine ⟨fun harchived => ?_, fresh_append hjobs spawns⟩
      have hopen := ledger.frame.2.2.2.2.1.trans open_
      rw [hopen] at harchived
      cases harchived
  | walLost => exact ⟨hshelf, hjobs⟩

theorem Created.sane {v : View} {walIo : List WalWrite} (h : v.Created walIo) : v.Sane := by
  obtain ⟨⟨L, -, -, -, -, hopen, -, -, -, -, -, hpassive⟩, ⟨job, hjobs, hfor⟩, -⟩ := h
  refine ⟨shelf_of_passive hpassive fun harchived => ?_, fun j hj => ?_⟩
  · rw [hopen] at harchived
    cases harchived
  · rw [hjobs] at hj
    exact (hfor j (Option.mem_toList.1 hj)).2

theorem Recovered.sane {v v' : View} (h : v.Recovered v') : v'.Sane := by
  obtain ⟨⟨path, kept, rs, -, -, limits, hledger⟩, ⟨job, hjobs, hfor, -⟩, -⟩ := h
  refine ⟨fun harchived => ?_, fun j hj => ?_⟩
  · rw [hledger] at harchived ⊢
    have hshelved : rs.archived = true := harchived
    show (if rs.archived then SessionLifecycle.archived else .spawning) = .archived
    rw [if_pos hshelved]
  · rw [hjobs] at hj
    exact (hfor j (Option.mem_toList.1 hj)).2

end View

namespace Server

/-- The induction over runs: what the created session has, and what
every happening and every recovery keeps, every session reached has. -/
theorem reaches_view {allowed : Server → ServerAct → Prop} {P : View → Prop}
    (hcreate : ∀ s a v, allowed s a → v.Created a.fate.walIo → P v)
    (hstep : ∀ s a v h v', v.Sane → P v → s.view = some v → allowed s a →
      (v.facing a.fate.walIo).Step h v' → h.By s v a → P v')
    (hcrash : ∀ v v', v.Sane → P v → v.Recovered v' → P v') {s : Server}
    (hs : machine.Reaches allowed s) : ∀ v ∈ s.view, v.Sane ∧ P v := by
  refine Machine.Reaches.invariant (P := fun s => ∀ v ∈ s.view, v.Sane ∧ P v) ?_ ?_ hs
  · rintro _ ⟨id, mode, limits, walDir, rfl⟩ v hv
    cases hv
  · intro s a s' ih hallowed hs' v' hv'
    cases hsession : s.manager.session with
    | none =>
        rcases step_vacant hsession hs' with hnone | ⟨v, hv, hcreated⟩
        · rw [hnone] at hv'
          cases hv'
        · rw [hv] at hv'
          cases hv'
          exact ⟨hcreated.sane, hcreate s a _ hallowed hcreated⟩
    | some session =>
        have hview : s.view = some (s.viewOf session) := by rw [view, hsession, Option.map_some]
        obtain ⟨hsane, hP⟩ := ih _ hview
        rcases step_cases hsession hsane hs' with (⟨h, v, hv, hhappens, hby⟩ | hnone) | ⟨v, hv, hrecovered⟩
        · rw [hv] at hv'
          cases hv'
          exact ⟨hhappens.sane (hsane.facing _),
            hstep s a _ h _ hsane hP hview hallowed hhappens hby⟩
        · rw [hnone] at hv'
          cases hv'
        · rw [hv] at hv'
          cases hv'
          exact ⟨hrecovered.sane, hcrash _ _ hsane hP hrecovered⟩

end Server

end Yaldabaoth
