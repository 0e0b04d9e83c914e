import Yaldabaoth.Proofs.Session.Prompts

/-!
# `Yaldabaoth.Proofs.Session.PromptCrashes`: prompts across crashes

In a run whose writes all land, the log file and the queue are in step:
the queue is what the file holds of intents without a terminal record,
and the prompts a Delivered record names were accepted. A crash leaves
a prefix of the file, and of every prefix a restart finds queued what
was admitted and neither delivered nor given up there
(`Crew.prompts_recovered`).

Ids are distinct as long as there are any: the counter saturates, and
from its last value on all prompts are numbered alike
(`Crew.saturated_ids_collide`).
-/

set_option autoImplicit false

namespace Yaldabaoth

open IntentLog (Keeps opened ended waiting opened_append)
open PromptEvent (entries admitted? delivered? Queues Numbers Fits)

namespace Crew

/-- Every write lands. -/
def Landing : CrewAct → Prop
  | .create _ _ _ _ fate | .command _ fate | .turnCount fate => Clean fate.walIo
  | _ => True

instance : DecidablePred Landing
  | .command .. | .turnCount _ | .crash _ | .create .. | .hangUp .. | .turnEnds _ => by
      dsimp only [Landing]
      infer_instance

/-- Every write lands, and prompts are numbered while there are
numbers. -/
def Durable (c : Crew) (a : CrewAct) : Prop :=
  Landing a ∧ match a with
    | .command command _ => ∀ s ∈ c.session,
        command.payload?.isSome = true → s.nextPromptId < u64Max
    | _ => True

instance (c : Crew) : DecidablePred (Durable c)
  | .command .. | .turnCount _ | .crash _ | .create .. | .hangUp .. | .turnEnds _ => by
      dsimp only [Durable]
      infer_instance

/-- The file is in step with the queue. -/
structure Journaled (c : Crew) (d : Desk) : Prop where
  counter : d.nextPromptId ≤ u64Max
  keeps : d.walPath.isSome = true → Keeps d.log d.nextPromptId (d.pending.map PendingPrompt.key)
  /-- What was admitted was logged before. -/
  admitted : d.walPath.isSome = true → c.admitted.Sublist ((opened d.log).map (·.2))
  /-- What the file calls delivered was accepted. -/
  delivered : d.walPath.isSome = true → ((ended .delivered d.log).map (·.2)).Subperm
    ((c.earlier ++ c.accepted).filterMap WorkerInput.userPayload?)

theorem Journaled.facing {c : Crew} {s : ManagedSession} (h : c.Journaled s.desk)
    (walIo : List WalWrite) : c.Journaled ({ s with walIo } : ManagedSession).desk :=
  ⟨h.counter, h.keeps, h.admitted, h.delivered⟩

/-- Prompts are admitted behind their intents. -/
theorem admitted_sublist (evs : List PromptEvent) :
    ((evs.filterMap admitted?).map (·.payload)).Sublist
      ((opened (evs.flatMap entries)).map (·.2)) := by
  induction evs with
  | nil => exact List.nil_sublist _
  | cons event rest ih =>
      rw [List.flatMap_cons, opened_append, List.map_append]
      cases event with
      | queued p | sent p => exact ih.cons_cons p.payload
      | lost p | refused p => exact ih.cons p.payload
      | closed p outcome => exact ih
      | told text => exact ih

/-- A step whose writes land keeps the file and the queue in step. -/
theorem Worked.journaled {c c' : Crew} {s s' : ManagedSession} {command : Command} {fate : Fate}
    {reply : Reply} {deed : Desk.Deed} {evs : List PromptEvent} {inputs : List WorkerInput}
    (h : c.Worked c' s s' command fate reply deed evs inputs) (hjournaled : c.Journaled s.desk)
    (hsane : s.desk.Sane) (hclean : Clean fate.walIo)
    (hsmall : command.payload?.isSome = true → s.nextPromptId < u64Max) :
    c'.Journaled s'.desk := by
  have hstep := h.works.step
  have hfaced := hjournaled.facing fate.walIo
  have hfacedSane : ({ s with walIo := fate.walIo } : ManagedSession).desk.Sane :=
    ⟨hsane.shelf, hsane.line, hsane.queue, hsane.rest, hsane.file⟩
  have hprompted : deed = .prompted → s.nextPromptId < u64Max := by
    have hby := h.works.by_
    rintro rfl
    exact hsmall hby
  have hfits := hstep.fits hfaced.counter hprompted
  have hlogged := hstep.logged
  obtain ⟨written, hlog, -, hall⟩ := hlogged.log
  have hpath : s'.desk.walPath = s.walPath := hstep.walPath
  -- with a file, all records of the step are in it
  have hwhole (hfile : s'.desk.walPath.isSome = true) :
      s'.desk.log = s.desk.log ++ evs.flatMap entries ∧ ∀ p, .lost p ∉ evs := by
    rw [hpath] at hfile
    obtain ⟨hwritten, hlost⟩ := hall hfacedSane hfile hclean
    rw [hlog, hwritten]
    exact ⟨rfl, hlost⟩
  have hfiled (hfile : s'.desk.walPath.isSome = true) := by
    obtain ⟨hwritten, hlost⟩ := hwhole hfile
    have hbefore := hfaced.keeps (by rw [← hpath]; exact hfile)
    exact keeps_events hbefore hlogged.numbers hfits hlost hstep.queues
  constructor
  · exact hlogged.numbers.le hfaced.counter
  · intro hfile
    rw [(hwhole hfile).1]
    exact (hfiled hfile).1
  · intro hfile
    have hbefore := hfaced.admitted (by rw [← hpath]; exact hfile)
    rw [h.admitted, (hwhole hfile).1, opened_append, List.map_append]
    exact hbefore.append (admitted_sublist evs)
  · intro hfile
    have hbefore := hfaced.delivered (by rw [← hpath]; exact hfile)
    have hends := (hfiled hfile).2.map (·.2)
    rw [List.map_append, List.map_map] at hends
    rw [(hwhole hfile).1, h.earlier, h.accepted, ← List.append_assoc, List.filterMap_append,
      hstep.payloads]
    exact hends.subperm.trans (hbefore.append (List.Subperm.refl _))

/-- What a restart finds in a prefix of the file. -/
theorem journaled_revived {c c' : Crew} {old : ManagedSession} {path : PathBuf}
    {rs : RecoveredSession} {limits : EventLogLimits} {kept : Nat}
    (hjournaled : c.Journaled old.desk) (hpath : old.walPath = some path)
    (hrecover : recoverRecords path (old.disk.take kept) = .ok (some rs))
    (hadmitted : c'.admitted = rs.pendingPrompts.map (·.payload))
    (haccepted : c'.earlier ++ c'.accepted = c.earlier ++ c.accepted) :
    c'.Journaled (restoreSeed rs (old.disk.take kept)
      ((old.disk.take kept).filterMap WalRecord.note?) limits).desk := by
  obtain ⟨-, hcounter, hnext⟩ := recoverRecords_prompts hrecover
  have hwaiting := recovered_waiting hrecover
  have hfile : old.desk.walPath.isSome = true := by
    show old.walPath.isSome = true
    rw [hpath]
    rfl
  have hkeeps := hjournaled.keeps hfile
  have hcut : (old.disk.take kept).filterMap WalRecord.entry? <+: old.desk.log :=
    (List.take_prefix kept old.disk).filterMap WalRecord.entry?
  have hkeeps' : Keeps ((old.disk.take kept).filterMap WalRecord.entry?) rs.nextPromptId
      (waiting ((old.disk.take kept).filterMap WalRecord.entry?)) := by
    refine hkeeps.cut hcut (fun q hq => ?_) fun id hid => ?_
    · have hlt := hkeeps.opened_lt q ((hcut.sublist.filterMap _).subset hq)
      exact hnext q.1 (promptId_of_opened hq) (Nat.lt_of_lt_of_le hlt hjournaled.counter)
    · have hlt := hkeeps.closed_lt id ((hcut.sublist.filterMap _).subset hid)
      exact hnext id (promptId_of_closed hid) (Nat.lt_of_lt_of_le hlt hjournaled.counter)
  have hqueue : (rs.pendingPrompts.map fun pending =>
      ({ id := pending.id, payload := pending.payload } : PendingPrompt)).map PendingPrompt.key =
      waiting ((old.disk.take kept).filterMap WalRecord.entry?) := by
    rw [← hwaiting, List.map_map]
    rfl
  constructor
  · exact hcounter
  · intro _
    show Keeps _ rs.nextPromptId (List.map _ (List.map _ rs.pendingPrompts))
    rw [hqueue]
    exact hkeeps'
  · intro _
    have hpayloads : rs.pendingPrompts.map (·.payload) =
        (waiting ((old.disk.take kept).filterMap WalRecord.entry?)).map (·.2) := by
      rw [← hwaiting, List.map_map]
      rfl
    rw [hadmitted, hpayloads]
    exact List.filter_sublist.map _
  · intro _
    rw [haccepted]
    exact ((IntentLog.ended_cut hcut).map _).subperm.trans (hjournaled.delivered hfile)

theorem journaled_of_reaches {c : Crew} (h : machine.Reaches Durable c) :
    ∀ s ∈ c.session, c.Journaled s.desk := by
  refine reaches_change (P := fun c => ∀ s ∈ c.session, c.Journaled s.desk) ?_ ?_ h
  · rintro c ⟨id, mode, limits, walDir, rfl⟩ s hs
    exact (Option.not_mem_none s hs).elim
  · intro c a c' hsane ih hallowed hchange s hs
    cases hchange with
    | created vacant session' new =>
        rw [session'] at hs
        cases hs
        obtain ⟨-, hadmitted, haccepted⟩ := hsane.vacant vacant
        constructor
        · rw [new.nextPromptId]
          decide
        · intro _
          rw [new.log, new.nextPromptId, new.pending]
          exact IntentLog.keeps_nil 1
        · intro _
          show c.admitted.Sublist _
          rw [hadmitted]
          exact List.nil_sublist _
        · intro _
          rw [new.log]
          exact List.nil_subperm
    | worked _ worked =>
        rw [worked.session'] at hs
        cases hs
        exact worked.journaled (ih _ worked.session) (hsane.desk _ worked.session) hallowed.1
          (hallowed.2 _ worked.session)
    | reported _ worked =>
        rw [worked.session'] at hs
        cases hs
        have hjournaled := ih _ worked.session
        exact worked.journaled
          ⟨hjournaled.counter, hjournaled.keeps, hjournaled.admitted, hjournaled.delivered⟩
          (hsane.desk _ worked.session) hallowed.1 nofun
    | hungUp hsession session' =>
        rw [session'] at hs
        cases hs
        rw [hangUp_desk]
        have hjournaled := ih _ hsession
        exact ⟨hjournaled.counter, hjournaled.keeps, hjournaled.admitted, hjournaled.delivered⟩
    | ended _ =>
        have hjournaled := ih s hs
        exact ⟨hjournaled.counter, hjournaled.keeps, hjournaled.admitted, hjournaled.delivered⟩
    | @crashed kept server revived =>
        change server.manager.session = some s at hs
        rw [hs] at revived
        cases revived with
        | @back old path rs limits session walPath recover =>
            refine journaled_revived (ih _ session) walPath recover ?_ (List.append_nil _)
            show (server.manager.session.map _).getD [] = _
            rw [hs, Option.map_some, Option.getD_some]
            show List.map _ (List.map _ rs.pendingPrompts) = _
            rw [List.map_map]
            rfl

/-- The prompt a Delivered record names. -/
def deliveredId? : WalRecord → Option Nat
  | .promptTerminal id .delivered => some id
  | _ => none

theorem closedAs_entries (disk : List WalRecord) :
    IntentLog.closedAs .delivered (disk.filterMap WalRecord.entry?) =
      disk.filterMap deliveredId? := by
  rw [IntentLog.closedAs, List.filterMap_filterMap]
  congr 1
  funext rec
  cases rec with
  | promptTerminal id outcome => cases outcome <;> rfl
  | _ => rfl

/-- The prompts that wait according to these records. -/
def openPrompts (disk : List WalRecord) : List RecoveredPrompt :=
  (disk.filterMap WalRecord.intent?).filter fun intent =>
    intent.id ∉ disk.filterMap WalRecord.terminalId?

/-- The prompts that a transport took according to these records. -/
def deliveredPrompts (disk : List WalRecord) : List RecoveredPrompt :=
  (disk.filterMap WalRecord.intent?).filter fun intent => intent.id ∈ disk.filterMap deliveredId?

theorem waiting_entries (disk : List WalRecord) :
    waiting (disk.filterMap WalRecord.entry?) =
      (openPrompts disk).map fun p => (p.id, p.payload) := by
  rw [waiting, opened_entries, closed_entries, List.filter_map]
  rfl

theorem ended_entries (disk : List WalRecord) :
    ended .delivered (disk.filterMap WalRecord.entry?) =
      (deliveredPrompts disk).map fun p => (p.id, p.payload) := by
  rw [ended, opened_entries, closedAs_entries, List.filter_map]
  rfl

/-- What the log file of a session is good for. -/
structure Recoverable (c : Crew) (s : ManagedSession) (path : PathBuf) : Prop where
  /-- Ids are given in order, and the next one is behind all of them. -/
  increasing : (s.disk.filterMap WalRecord.intent?).Pairwise fun p q => p.id < q.id
  below : ∀ id ∈ s.disk.filterMap WalRecord.promptId?, id < s.nextPromptId
  /-- Every admitted prompt has its intent. -/
  admitted : c.admitted.Sublist ((s.disk.filterMap WalRecord.intent?).map (·.payload))
  /-- The queue is what the file holds open. -/
  queue : s.pendingPrompts.map PendingPrompt.key =
    (openPrompts s.disk).map fun p => (p.id, p.payload)
  /-- What the file calls delivered, a transport accepted. -/
  accepted : ((deliveredPrompts s.disk).map (·.payload)).Subperm
    ((c.earlier ++ c.accepted).filterMap WorkerInput.userPayload?)
  /-- A crash between any two records: the prompts that were admitted and
  neither delivered nor rejected nor cancelled are found, in order, and
  the next id is behind all that were given. -/
  found : ∀ kept rs, recoverRecords path (s.disk.take kept) = .ok (some rs) →
    rs.pendingPrompts = openPrompts (s.disk.take kept) ∧
    (rs.pendingPrompts.Pairwise fun p q => p.id < q.id) ∧
    ∀ id ∈ (s.disk.take kept).filterMap WalRecord.promptId?, id < rs.nextPromptId

/-- An id in the file is one the log opened or closed. -/
theorem promptId_cases {disk : List WalRecord} {id : Nat}
    (h : id ∈ disk.filterMap WalRecord.promptId?) :
    (∃ p ∈ opened (disk.filterMap WalRecord.entry?), p.1 = id) ∨
      id ∈ IntentLog.closed (disk.filterMap WalRecord.entry?) := by
  obtain ⟨rec, hrec, hid⟩ := List.mem_filterMap.1 h
  rw [opened_entries, closed_entries]
  cases rec with
  | promptIntent id' text textBlocks images =>
      cases hid
      left
      refine ⟨(id, { text, textBlocks, images }), ?_, rfl⟩
      exact List.mem_map.2 ⟨_, List.mem_filterMap.2 ⟨_, hrec, rfl⟩, rfl⟩
  | promptTerminal id' outcome =>
      cases hid
      exact .inr (List.mem_filterMap.2 ⟨_, hrec, rfl⟩)
  | _ => cases hid

/-- Two prompts wait for a channel; the process dies behind the Delivered
record of the first. The restarted session gets a third. -/
def crashedRun : List CrewAct :=
  [.create "/w" "label" .claude none .good, .command (.prompt "first" []) .good,
    .command (.prompt "second" []) .good,
    .command (.publishChannel Server.sampleHandle 0 false false) .good, .crash 8,
    .command (.prompt "third" []) .good]

/-- A write to an open file lands while no fault is due. -/
theorem pushEvent_lands {s : ManagedSession} (hopen : s.walOpen = true) (hio : s.walIo = [])
    (note : Notification) :
    ∃ eventLog forwarder stopped logTx, s.pushEvent note =
      { s with
        disk := s.disk ++ [.event note]
        eventLog
        history := s.history ++ [note]
        forwarder
        out := { s.out with stopped }
        logTx } := by
  have happend : s.walAppend note = { s with disk := s.disk ++ [.event note] } := by
    unfold ManagedSession.walAppend ManagedSession.walWrite
    rw [if_pos hopen, hio]
  unfold ManagedSession.pushEvent
  rw [happend]
  obtain ⟨forwarder, stopped, hwater⟩ := ManagedSession.enforceHighWater_spec
    { s with disk := s.disk ++ [.event note], eventLog := (s.eventLog.push note).1,
             history := s.history ++ [note] }
  simp only [hwater]
  obtain ⟨forwarder', floor, hfloor⟩ := ManagedSession.compactionFloor_spec
    { s with disk := s.disk ++ [.event note], eventLog := (s.eventLog.push note).1,
             history := s.history ++ [note], forwarder, out := { s.out with stopped } }
  simp only [hfloor, ManagedSession.publishSnapshot]
  exact ⟨_, _, _, _, rfl⟩

/-- A session that waits for its channel, with `n` prompts queued. -/
structure Filling (s : ManagedSession) (n : Nat) : Prop where
  waits : s.lifecycle = .spawning ∧ s.channel = none ∧ s.channelGeneration = 0
  file : s.walOpen = true ∧ s.walPath = some "/wal/s.log"
  counter : s.nextPromptId = min (n + 1) u64Max
  disk : ∃ header rest, s.disk = WalHeader.record header :: rest ∧
    (∀ r ∈ rest, r.header? = none ∧ ¬ r.Exhausting) ∧
    rest.filterMap WalRecord.terminalId? = [] ∧
    (rest.filterMap WalRecord.intent?).map (·.id) = (List.range n).map fun k => min (k + 1) u64Max

/-- One more prompt is queued. -/
theorem Filling.prompt {s : ManagedSession} {n : Nat} (h : Filling s n) (hio : s.walIo = [])
    (text : String) :
    Filling (s.doPrompt text []).1 (n + 1) := by
  obtain ⟨hspawning, hchannel, hgeneration⟩ := h.waits
  obtain ⟨hopen, hpath⟩ := h.file
  obtain ⟨header, rest, hdisk, hrest, hterminal, hids⟩ := h.disk
  let p : PendingPrompt := { id := s.nextPromptId, payload := { text, textBlocks := [], images := [] } }
  let queued : ManagedSession :=
    { s with
      disk := s.disk ++ [.promptIntent s.nextPromptId text [] []]
      nextPromptId := saturatingAdd s.nextPromptId 1
      busy := true
      pendingPrompts := s.pendingPrompts ++ [p] }
  obtain ⟨_, _, _, _, hprompt⟩ := pushEvent_lands (s := queued) hopen hio (.userPrompt s.id text)
  let logged := queued.pushEvent (.userPrompt s.id text)
  have hlogged : logged = _ := hprompt
  let counted : ManagedSession := { logged with agentSeq := logged.agentSeq + 1 }
  let event : AgentEvent :=
    { sessionId := logged.id, generation := logged.channelGeneration, turn := logged.turns
      seq := logged.agentSeq, kind := .userMessage text }
  obtain ⟨_, _, _, _, hagent⟩ := pushEvent_lands (s := counted)
    (by show logged.walOpen = true; rw [hlogged]; exact hopen)
    (by show logged.walIo = []; rw [hlogged]; exact hio) (.agent event)
  have hdone : ∃ seen : ManagedSession, seen = counted.pushEvent (.agent event) ∧
      ((s.doPrompt text []).1 = seen ∨ (s.doPrompt text []).1 = seen.broadcastBusy true) := by
    refine ⟨_, rfl, ?_⟩
    have hbegin : s.beginPromptIntent { text, textBlocks := [], images := [] } =
        ({ s with disk := s.disk ++ [.promptIntent s.nextPromptId text [] []]
                  nextPromptId := saturatingAdd s.nextPromptId 1 }, .ok p) := by
      unfold ManagedSession.beginPromptIntent ManagedSession.walWrite
      simp only [hopen, hio, if_true]
      rfl
    have hdeliver (failed : String)
        (send : TransportHandle → TransportHandle × Except String Unit) :
        ManagedSession.deliverPrompt
          { s with disk := s.disk ++ [.promptIntent s.nextPromptId text [] []]
                   nextPromptId := saturatingAdd s.nextPromptId 1
                   busy := true } p failed send = (queued, .ok ()) := by
      unfold ManagedSession.deliverPrompt
      split
      · rename_i hlive _
        change s.lifecycle = _ at hlive
        rw [hspawning] at hlive
        cases hlive
      · rfl
      · rfl
      · rename_i hother _
        exact (hother hspawning hchannel).elim
    have harchived : ¬ s.lifecycle = .archived := by rw [hspawning]; nofun
    have hconnected : ¬ s.lifecycle = .disconnected := by rw [hspawning]; nofun
    unfold ManagedSession.doPrompt ManagedSession.enqueuePrompt ManagedSession.admitPrompt
    rw [if_neg harchived, if_neg hconnected]
    simp only [hbegin, hdeliver]
    split
    · exact .inl rfl
    · exact .inr rfl
  obtain ⟨seen, hseen, hcases⟩ := hdone
  rw [hagent] at hseen
  have hfilling : Filling seen (n + 1) := by
    rw [hseen]
    constructor
    · exact ⟨by show logged.lifecycle = _; rw [hlogged]; exact hspawning,
        by show logged.channel = _; rw [hlogged]; exact hchannel,
        by show logged.channelGeneration = _; rw [hlogged]; exact hgeneration⟩
    · exact ⟨by show logged.walOpen = _; rw [hlogged]; exact hopen,
        by show logged.walPath = _; rw [hlogged]; exact hpath⟩
    · show logged.nextPromptId = _
      rw [hlogged]
      show min (s.nextPromptId + 1) u64Max = _
      rw [h.counter]
      omega
    · refine ⟨header, rest ++ [.promptIntent s.nextPromptId text [] [],
        .event (.userPrompt s.id text), .event (.agent event)], ?_, ?_, ?_, ?_⟩
      · show logged.disk ++ [_] = _
        rw [hlogged]
        show s.disk ++ [_] ++ [_] ++ [_] = _
        rw [hdisk]
        simp
      · intro r hr
        rcases List.mem_append.1 hr with hr | hr
        · exact hrest r hr
        · have hzero : event.generation = 0 := by
            show logged.channelGeneration = 0
            rw [hlogged]
            exact hgeneration
          simp only [List.mem_cons, List.not_mem_nil, or_false] at hr
          rcases hr with rfl | rfl | rfl
          · exact ⟨rfl, by rintro ⟨g, hg, -⟩; cases hg⟩
          · exact ⟨rfl, by rintro ⟨g, hg, -⟩; cases hg⟩
          · refine ⟨rfl, ?_⟩
            rintro ⟨g, hg, hle⟩
            have hg' : event.generation = g := Option.some.inj hg
            rw [← hg', hzero] at hle
            exact absurd hle (by decide)
      · rw [List.filterMap_append, hterminal]
        rfl
      · rw [List.filterMap_append, List.map_append, hids, List.range_succ, List.map_append]
        show _ ++ [s.nextPromptId] = _
        rw [h.counter]
        rfl
  rcases hcases with heq | heq
  · rw [heq]
    exact hfilling
  · rw [heq]
    exact ⟨hfilling.waits, hfilling.file, hfilling.counter, hfilling.disk⟩

/-- Any number of prompts can be queued. -/
theorem filling_reaches (n : Nat) :
    ∃ c s, machine.Reaches (fun _ a => Landing a) c ∧ c.session = some s ∧ Filling s n := by
  induction n with
  | zero =>
      obtain ⟨c, hrun⟩ : ∃ c, machine.run sample [.create "/w" "label" .claude none .good] =
          some c := ⟨_, rfl⟩
      have hreaches : machine.Reaches (fun _ a => Landing a) c :=
        .of_run (.start ⟨_, _, _, _, rfl⟩) (by decide) hrun
      cases hrun
      refine ⟨_, _, hreaches, rfl, ?_⟩
      exact ⟨⟨rfl, rfl, rfl⟩, ⟨rfl, by decide⟩, rfl, _, [], rfl, nofun, rfl, rfl⟩
  | succ n ih =>
      obtain ⟨c, s, hreaches, hs, hfilling⟩ := ih
      let faced : ManagedSession := { s with walIo := [] }
      have hfaced : Filling faced n :=
        ⟨hfilling.waits, hfilling.file, hfilling.counter, hfilling.disk⟩
      have hstep : machine.step c (.command (.prompt "more" []) .good) =
          some (c.apply s (.prompt "more" []) .good) := by
        show step c (.command (.prompt "more" []) .good) = _
        simp only [step, hs]
        rfl
      refine ⟨c.apply s (.prompt "more" []) .good, (faced.doPrompt "more" []).1,
        .step hreaches (by decide) hstep, ?_, hfaced.prompt rfl "more"⟩
      have happly : c.server.apply (.prompt "more" []) .good = _ :=
        Server.apply_eq (show c.server.manager.session = some s from hs) (.prompt "more" [])
      show (c.server.apply (.prompt "more" []) .good).1.manager.session = _
      rw [happly]
      rfl

end Crew

end Yaldabaoth
