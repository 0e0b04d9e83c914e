import Yaldabaoth.Lib.IntentLog
import Yaldabaoth.Model.Crew
import Yaldabaoth.Proofs.Session.Ledger

/-!
# `Yaldabaoth.Proofs.Session.Desk`: what a command does to the work

The session's prompts, deliveries, channel and busy flag are its
*desk*. With them stands what the log file says about prompts, and the
rejections the session has told. This file states once, for every
command, what it does to the desk.

`Files` is the effect of writing: prompt events reach the log as far as
their records land, numbers are given out, and rejections are told. All
else on the desk stays as it was. A command is then one change of the
other fields, and `Files` behind it.
-/

set_option autoImplicit false

namespace Yaldabaoth

open IntentLog (Entry)

/-- The entry of a prompt record. -/
def WalRecord.entry? : WalRecord → Option (Entry PromptPayload PromptOutcome)
  | .promptIntent id text textBlocks images => some (.intent id { text, textBlocks, images })
  | .promptTerminal id outcome => some (.terminal id outcome)
  | _ => none

/-- The text of a prompt that is reported as rejected. -/
def Notification.rejected? : Notification → Option String
  | .promptRejected _ _ text => some text
  | _ => none

/-- Every write succeeds and is synced. -/
def Clean (walIo : List WalWrite) : Prop := ∀ io ∈ walIo, io = .done

instance : DecidablePred Clean := fun walIo =>
  inferInstanceAs (Decidable (∀ io ∈ walIo, io = .done))

/-- What happens to a prompt. `sent` and `refused` are prompts that meet
a channel as they are admitted. `closed` is the first of the queue. -/
inductive PromptEvent where
  /-- The intent could not be persisted. -/
  | lost (p : PendingPrompt)
  | queued (p : PendingPrompt)
  | sent (p : PendingPrompt)
  | refused (p : PendingPrompt)
  | closed (p : PendingPrompt) (outcome : PromptOutcome)
  /-- The rejection of a prompt with this text is reported. -/
  | told (text : String)

namespace PromptEvent

/-- The records of an event. -/
def entries : PromptEvent → List (Entry PromptPayload PromptOutcome)
  | .lost p | .queued p => [.intent p.id p.payload]
  | .sent p => [.intent p.id p.payload, .terminal p.id .delivered]
  | .refused p => [.intent p.id p.payload, .terminal p.id .rejected]
  | .closed p outcome => [.terminal p.id outcome]
  | .told _ => []

/-- The prompt whose intent is written. -/
def opens? : PromptEvent → Option PendingPrompt
  | .lost p | .queued p | .sent p | .refused p => some p
  | _ => none

/-- The prompt that takes the next number. -/
def numbered? : PromptEvent → Option PendingPrompt
  | .queued p | .sent p | .refused p => some p
  | _ => none

def told? : PromptEvent → Option String
  | .told text => some text
  | _ => none

/-- The prompt that is admitted: it was sent, or it waits. -/
def admitted? : PromptEvent → Option PendingPrompt
  | .queued p | .sent p => some p
  | _ => none

/-- The prompt a transport accepts. -/
def delivered? : PromptEvent → Option PendingPrompt
  | .sent p | .closed p .delivered => some p
  | _ => none

/-- The queued prompt that is given up. -/
def dropped? : PromptEvent → Option PendingPrompt
  | .closed _ .delivered => none
  | .closed p _ => some p
  | _ => none

/-- Give up a queued prompt, and say so. -/
def rejection (outcome : PromptOutcome) (p : PendingPrompt) : List PromptEvent :=
  [.closed p outcome, .told p.payload.text]

/-- From `next` on, the numbers given out are consecutive, and `next'`
is the one behind them. A prompt that is lost is written under the next
number and does not take it. -/
def Numbers : Nat → List PromptEvent → Nat → Prop
  | next, [], next' => next' = next
  | next, event :: rest, next' =>
      (∀ p ∈ event.opens?, p.id = next) ∧
        Numbers (if event.numbered?.isSome then saturatingAdd next 1 else next) rest next'

theorem Numbers.append {evs evs' : List PromptEvent} {next next' next'' : Nat} :
    Numbers next evs next' → Numbers next' evs' next'' → Numbers next (evs ++ evs') next'' := by
  intro h h'
  induction evs generalizing next with
  | nil =>
      cases h
      exact h'
  | cons event rest ih => exact ⟨h.1, ih h.2⟩

/-- Nothing is numbered without a prompt that is admitted. -/
theorem numbers_of_none {evs : List PromptEvent} (h : ∀ event ∈ evs, event.opens? = none)
    (next : Nat) : Numbers next evs next := by
  induction evs with
  | nil => rfl
  | cons event rest ih =>
      have hevent := h event List.mem_cons_self
      have hnumbered : event.numbered? = none := by
        cases event <;> first | rfl | cases hevent
      rw [Numbers, hevent, hnumbered]
      exact ⟨nofun, ih fun e he => h e (List.mem_cons_of_mem event he)⟩

/-- The queue before and after. -/
def Queues : List PendingPrompt → List PromptEvent → List PendingPrompt → Prop
  | queue, [], queue' => queue' = queue
  | queue, .queued p :: rest, queue' => Queues (queue ++ [p]) rest queue'
  | queue, .closed p _ :: rest, queue' => ∃ others, queue = p :: others ∧ Queues others rest queue'
  | queue, _ :: rest, queue' => Queues queue rest queue'

/-- The events close the queue, in order. -/
def Closes (evs : List PromptEvent) (queue : List PendingPrompt) : Prop :=
  List.Forall₂ (fun event p => ∃ outcome, event = .closed p outcome) evs queue

theorem Closes.queues {evs : List PromptEvent} {queue : List PendingPrompt} (h : Closes evs queue)
    (texts : List String) : Queues queue (evs ++ texts.map .told) [] := by
  induction h with
  | nil =>
      induction texts with
      | nil => rfl
      | cons text rest ih => exact ih
  | cons hevent _ ih =>
      obtain ⟨outcome, rfl⟩ := hevent
      exact ⟨_, rfl, ih⟩

theorem queues_rejections (outcome : PromptOutcome) (queue : List PendingPrompt) :
    Queues queue (queue.flatMap (rejection outcome)) [] := by
  induction queue with
  | nil => rfl
  | cons p rest ih => exact ⟨rest, rfl, ih⟩

end PromptEvent

structure Desk where
  lifecycle : SessionLifecycle
  archived : Bool
  /-- What the channel was handed; its flags and settings are left out. -/
  inbox : Option (List WorkerInput)
  busy : Bool
  pending : List PendingPrompt
  waiting : List PendingProviderDelivery
  active : Option ActiveProviderDelivery
  generation : Nat
  turns : Nat
  answers : List (Nat × ProviderDeliveryResult)
  walOpen : Bool
  walPath : Option PathBuf
  walIo : List WalWrite
  log : List (Entry PromptPayload PromptOutcome)
  nextPromptId : Nat
  rejections : List String

def ManagedSession.desk (s : ManagedSession) : Desk :=
  { lifecycle := s.lifecycle
    archived := s.archived
    inbox := s.channel.map (·.inbox)
    busy := s.busy
    pending := s.pendingPrompts
    waiting := s.pendingProviderDeliveries
    active := s.activeProviderDelivery
    generation := s.channelGeneration
    turns := s.turns
    answers := s.out.answers
    walOpen := s.walOpen
    walPath := s.walPath
    walIo := s.walIo
    log := s.disk.filterMap WalRecord.entry?
    nextPromptId := s.nextPromptId
    rejections := (s.history ++ s.out.events).filterMap Notification.rejected? }

namespace Desk

/-- The replies owed to deliveries, the active one first. -/
def owed (d : Desk) : List Nat := d.active.toList.map (·.reply) ++ d.waiting.map (·.reply)

/-- Every delivery is answered with the failure. -/
def failDeliveries (d : Desk) (failure : ProviderDeliveryFailure) : Desk :=
  { d with
    active := none
    waiting := []
    answers := d.answers ++ d.owed.map fun reply => (reply, .failed failure) }

/-- The channel is gone, and all that was owed is given up. -/
def down (d : Desk) (reason : String) : Desk :=
  { d.failDeliveries { failureClass := .providerUnavailable, retryable := true, message := reason }
    with lifecycle := .disconnected, inbox := none, busy := false, pending := [] }

/-- The effect of writing. -/
structure Files (d : Desk) (evs : List PromptEvent) (d' : Desk) : Prop where
  shape : ∃ walIo log nextPromptId rejections,
    d' = { d with walIo, log, nextPromptId, rejections }
  log : ∃ written, d'.log = d.log ++ written ∧
    written.Sublist (evs.flatMap PromptEvent.entries) ∧
    (d.walOpen = true → Clean d.walIo → written = evs.flatMap PromptEvent.entries)
  clean : Clean d.walIo → Clean d'.walIo ∧ ∀ p, .lost p ∉ evs
  numbers : PromptEvent.Numbers d.nextPromptId evs d'.nextPromptId
  rejections : d'.rejections.Perm (d.rejections ++ evs.filterMap PromptEvent.told?)

theorem Files.refl (d : Desk) : d.Files [] d where
  shape := ⟨_, _, _, _, rfl⟩
  log := ⟨[], (List.append_nil _).symm, List.Sublist.refl _, fun _ _ => rfl⟩
  clean h := ⟨h, fun _ => List.not_mem_nil⟩
  numbers := rfl
  rejections := .of_eq (List.append_nil _).symm

theorem Files.trans {d d' d'' : Desk} {evs evs' : List PromptEvent} (h : d.Files evs d')
    (h' : d'.Files evs' d'') : d.Files (evs ++ evs') d'' := by
  obtain ⟨walIo, log, nextPromptId, rejections, hshape⟩ := h.shape
  obtain ⟨walIo', log', nextPromptId', rejections', hshape'⟩ := h'.shape
  have hopen : d'.walOpen = d.walOpen := by rw [hshape]
  constructor
  · exact ⟨walIo', log', nextPromptId', rejections', by rw [hshape', hshape]⟩
  · obtain ⟨written, hlog, hsublist, hall⟩ := h.log
    obtain ⟨written', hlog', hsublist', hall'⟩ := h'.log
    refine ⟨written ++ written', ?_, ?_, fun hwal hclean => ?_⟩
    · rw [hlog', hlog, List.append_assoc]
    · rw [List.flatMap_append]
      exact hsublist.append hsublist'
    · rw [List.flatMap_append, hall hwal hclean, hall' (hopen.trans hwal) (h.clean hclean).1]
  · intro hclean
    have hfirst := h.clean hclean
    have hsecond := h'.clean hfirst.1
    refine ⟨hsecond.1, fun p hp => ?_⟩
    exact (List.mem_append.1 hp).elim (hfirst.2 p) (hsecond.2 p)
  · exact h.numbers.append h'.numbers
  · rw [List.filterMap_append, ← List.append_assoc]
    exact h'.rejections.trans (h.rejections.append_right _)

/-- An intent and its terminal record, of a prompt that never waits. -/
theorem Files.at_once {d d' : Desk} {p : PendingPrompt} {outcome : PromptOutcome}
    (h : d.Files [.queued p, .closed p outcome] d') {event : PromptEvent}
    (hentries : event.entries = [.intent p.id p.payload, .terminal p.id outcome])
    (hopens : event.opens? = some p) (hnumbered : event.numbered? = some p) (htold : event.told? = none) : d.Files [event] d' where
  shape := h.shape
  log := by
    rw [List.flatMap_singleton, hentries]
    exact h.log
  clean hclean := ⟨(h.clean hclean).1, fun q hq => by
    rw [← List.mem_singleton.1 hq] at hnumbered
    cases hnumbered⟩
  numbers := by
    obtain ⟨hid, -, hrest⟩ := h.numbers
    rw [PromptEvent.Numbers, hopens, hnumbered]
    exact ⟨hid, hrest⟩
  rejections := by
    have hnone : [event].filterMap PromptEvent.told? = [] := List.filterMap_cons_none htold
    rw [hnone]
    exact h.rejections

/-- Changes of the desk that neither read nor touch what is written. -/
structure Blind (change : Desk → Desk) : Prop where
  commutes : ∀ (d : Desk) walIo log nextPromptId rejections,
    change { d with walIo, log, nextPromptId, rejections } =
      { change d with walIo, log, nextPromptId, rejections }
  walOpen : ∀ d, (change d).walOpen = d.walOpen
  walIo : ∀ d, (change d).walIo = d.walIo
  log : ∀ d, (change d).log = d.log
  nextPromptId : ∀ d, (change d).nextPromptId = d.nextPromptId
  rejections : ∀ d, (change d).rejections = d.rejections

/-- Writing and such a change commute. -/
theorem Files.under {d d' : Desk} {evs : List PromptEvent} (h : d.Files evs d')
    {change : Desk → Desk} (hblind : Blind change) : (change d).Files evs (change d') := by
  constructor
  · obtain ⟨walIo, log, nextPromptId, rejections, rfl⟩ := h.shape
    exact ⟨walIo, log, nextPromptId, rejections, hblind.commutes d walIo log nextPromptId rejections⟩
  · rw [hblind.log, hblind.log, hblind.walOpen, hblind.walIo]
    exact h.log
  · rw [hblind.walIo, hblind.walIo]
    exact h.clean
  · rw [hblind.nextPromptId, hblind.nextPromptId]
    exact h.numbers
  · rw [hblind.rejections, hblind.rejections]
    exact h.rejections

theorem blind_busy (busy : Bool) : Blind fun d => { d with busy } :=
  ⟨fun _ _ _ _ _ => rfl, fun _ => rfl, fun _ => rfl, fun _ => rfl, fun _ => rfl, fun _ => rfl⟩

theorem blind_sent (inbox : Option (List WorkerInput)) (busy : Bool) :
    Blind fun d => { d with inbox, busy } :=
  ⟨fun _ _ _ _ _ => rfl, fun _ => rfl, fun _ => rfl, fun _ => rfl, fun _ => rfl, fun _ => rfl⟩

theorem blind_queued (p : PendingPrompt) (busy : Bool) :
    Blind fun d => { d with pending := d.pending ++ [p], busy } :=
  ⟨fun _ _ _ _ _ => rfl, fun _ => rfl, fun _ => rfl, fun _ => rfl, fun _ => rfl, fun _ => rfl⟩

theorem blind_down (reason : String) : Blind fun d => d.down reason :=
  ⟨fun _ _ _ _ _ => rfl, fun _ => rfl, fun _ => rfl, fun _ => rfl, fun _ => rfl, fun _ => rfl⟩

/-- Writing that is about no prompt is blind to the file as well. -/
theorem Files.reopen {d d' : Desk} (h : d.Files [] d') (walOpen archived : Bool)
    (lifecycle : SessionLifecycle) :
    Files { d with walOpen, archived, lifecycle } [] { d' with walOpen, archived, lifecycle } := by
  obtain ⟨written, hlog, hsublist, -⟩ := h.log
  have hwritten : written = [] := List.sublist_nil.1 hsublist
  constructor
  · obtain ⟨walIo, log, nextPromptId, rejections, rfl⟩ := h.shape
    exact ⟨walIo, log, nextPromptId, rejections, rfl⟩
  · exact ⟨written, hlog, hsublist, fun _ _ => hwritten⟩
  · exact h.clean
  · exact h.numbers
  · exact h.rejections

/-- The effect of one write that is attempted while the file is open. -/
structure Writes (d : Desk) (entries : List (Entry PromptPayload PromptOutcome))
    (result : Except String Unit) (d' : Desk) : Prop where
  shape : ∃ walIo log, d' = { d with walIo, log }
  log : ∃ written, d'.log = d.log ++ written ∧ written.Sublist entries ∧
    (d.walOpen = true → Clean d.walIo → written = entries)
  clean : Clean d.walIo → Clean d'.walIo ∧ result = .ok ()

/-- A write is a step of filing, under any events whose records are
those written. -/
theorem Writes.files {d d' : Desk} {entries : List (Entry PromptPayload PromptOutcome)}
    {result : Except String Unit} (h : d.Writes entries result d') (evs : List PromptEvent)
    (hentries : evs.flatMap PromptEvent.entries = entries)
    (hlost : result = .ok () → ∀ p, .lost p ∉ evs) {next : Nat}
    (hnumbers : PromptEvent.Numbers d.nextPromptId evs next)
    (htold : evs.filterMap PromptEvent.told? = []) :
    d.Files evs { d' with nextPromptId := next } := by
  obtain ⟨walIo, log, rfl⟩ := h.shape
  constructor
  · exact ⟨walIo, log, next, d.rejections, rfl⟩
  · rw [hentries]
    exact h.log
  · exact fun hclean => ⟨(h.clean hclean).1, hlost (h.clean hclean).2⟩
  · exact hnumbers
  · rw [htold]
    exact .of_eq (List.append_nil _).symm

end Desk

namespace TransportHandle

variable {handle handle' : TransportHandle}

/-- An input is accepted, or the inbox stays as it was. -/
theorem enqueue_inbox {input : WorkerInput} {closed : String} {result : Except String Unit}
    (h : handle.enqueue input closed = (handle', result)) :
    handle'.sessionId = handle.sessionId ∧
      (result = .ok () ∧ handle'.inbox = handle.inbox ++ [input] ∨
        ∃ error, result = .error error ∧ handle'.inbox = handle.inbox) := by
  unfold enqueue at h
  split at h
  · cases h
    exact ⟨rfl, .inr ⟨_, rfl, rfl⟩⟩
  · split at h
    · cases h
      exact ⟨rfl, .inr ⟨_, rfl, rfl⟩⟩
    · cases h
      exact ⟨rfl, .inl ⟨rfl, rfl⟩⟩

/-- What is accepted went to a worker that lives. -/
theorem enqueue_ok {input : WorkerInput} {closed : String}
    (h : handle.enqueue input closed = (handle', .ok ())) :
    (handle.connected && handle.receiving) = true := by
  unfold enqueue at h
  split at h
  · cases h
  · rename_i hconnected
    split at h
    · cases h
    · rename_i hreceiving
      rw [Bool.not_eq_true', Bool.not_eq_false] at hconnected hreceiving
      rw [hconnected, hreceiving]
      rfl

/-- A worker that refused is gone, and stays so. -/
theorem enqueue_error {input : WorkerInput} {closed error : String}
    (h : handle.enqueue input closed = (handle', .error error)) :
    (handle.connected && handle.receiving) = false ∧
      (handle'.connected && handle'.receiving) = false := by
  unfold enqueue at h
  split at h
  · rename_i hconnected
    rw [Bool.not_eq_true'] at hconnected
    cases h
    rw [hconnected]
    exact ⟨rfl, rfl⟩
  · split at h
    · rename_i hreceiving
      rw [Bool.not_eq_true'] at hreceiving
      cases h
      rw [hreceiving]
      exact ⟨Bool.and_false _, rfl⟩
    · cases h

theorem steerPayload_ok {payload : PromptPayload} {sentFor : Option Nat}
    (h : handle.steerPayload payload sentFor = (handle', .ok ())) :
    (handle.connected && handle.receiving) = true := by
  unfold steerPayload at h
  split at h
  · cases h
  · exact enqueue_ok h

theorem sendPayload_ok {payload : PromptPayload} {sentFor : Option Nat}
    (h : handle.sendPayload payload sentFor = (handle', .ok ())) :
    handle'.inbox = handle.inbox ++ [.prompt payload sentFor] := by
  rcases (enqueue_inbox h).2 with ⟨-, hinbox⟩ | ⟨error, herror, -⟩
  · exact hinbox
  · cases herror

theorem sendPayload_error {payload : PromptPayload} {sentFor : Option Nat} {error : String}
    (h : handle.sendPayload payload sentFor = (handle', .error error)) :
    handle'.inbox = handle.inbox := by
  rcases (enqueue_inbox h).2 with ⟨hok, -⟩ | ⟨-, -, hinbox⟩
  · cases hok
  · exact hinbox

/-- A payload is sent as a prompt or steered, and accepted or not. -/
theorem deliver_inbox {steer : Bool} {payload : PromptPayload} {sentFor : Option Nat}
    {result : Except String Unit}
    (h : (if steer then handle.steerPayload payload sentFor
      else handle.sendPayload payload sentFor) = (handle', result)) :
    result = .ok () ∧ handle'.inbox = handle.inbox ++
        [if steer then .steer payload sentFor else .prompt payload sentFor] ∨
      ∃ error, result = .error error ∧ handle'.inbox = handle.inbox := by
  cases steer with
  | false => exact (enqueue_inbox h).2
  | true =>
      simp only [if_true, steerPayload] at h
      split at h
      · cases h
        exact .inr ⟨_, rfl, rfl⟩
      · exact (enqueue_inbox h).2

end TransportHandle

namespace ManagedSession

open Desk (Files Writes blind_busy)

variable (s : ManagedSession)

/-! ### Writes -/

/-- In a clean run every write lands. -/
theorem walWrite_clean (hclean : Clean s.walIo) (rec : WalRecord) (fsync : Bool) :
    s.walWrite rec fsync = ({ s with disk := s.disk ++ [rec], walIo := s.walIo.tail }, .ok ()) := by
  unfold walWrite
  cases hio : s.walIo with
  | nil => rfl
  | cons io rest =>
      have hdone : io = .done := hclean io (hio ▸ List.mem_cons_self)
      rw [hdone, List.tail_cons]

theorem writes_walWrite_desk (rec : WalRecord) (fsync : Bool) :
    Writes s.desk rec.entry?.toList (s.walWrite rec fsync).2 (s.walWrite rec fsync).1.desk := by
  have hsingle : [rec].filterMap WalRecord.entry? = rec.entry?.toList := by
    cases hentry : rec.entry? <;> simp [hentry]
  obtain ⟨walIo, landed, result, hwrite, hsublist, -⟩ := s.walWrite_spec rec fsync
  rw [hwrite]
  constructor
  · exact ⟨walIo, (s.disk ++ landed).filterMap WalRecord.entry?, rfl⟩
  · refine ⟨landed.filterMap WalRecord.entry?, List.filterMap_append, ?_, fun _ hclean => ?_⟩
    · rw [← hsingle]
      exact hsublist.filterMap _
    · rw [s.walWrite_clean hclean] at hwrite
      have hdisk : s.disk ++ [rec] = s.disk ++ landed := congrArg (·.1.disk) hwrite
      rw [← List.append_cancel_left hdisk, hsingle]
  · intro hclean
    rw [s.walWrite_clean hclean] at hwrite
    have hio : s.walIo.tail = walIo := congrArg (·.1.walIo) hwrite
    have hresult : .ok () = result := congrArg Prod.snd hwrite
    refine ⟨fun io hmem => hclean io ?_, hresult.symm⟩
    rw [show ({ s with walIo, disk := s.disk ++ landed } : ManagedSession).desk.walIo = walIo from rfl,
      ← hio] at hmem
    exact List.mem_of_mem_tail hmem

/-- The same of a write that is left out while the file is closed. -/
theorem writes_if_open (rec : WalRecord) :
    Writes s.desk rec.entry?.toList (if s.walOpen then s.walWrite rec true else (s, .ok ())).2
      (if s.walOpen then s.walWrite rec true else (s, .ok ())).1.desk := by
  by_cases hopen : s.walOpen = true
  · rw [if_pos hopen]
    exact s.writes_walWrite_desk rec true
  · rw [if_neg hopen]
    constructor
    · exact ⟨_, _, rfl⟩
    · exact ⟨[], (List.append_nil _).symm, List.nil_sublist _, fun hwal => absurd hwal hopen⟩
    · exact fun hclean => ⟨hclean, rfl⟩

/-- A record that is about no prompt. -/
theorem files_walWrite {rec : WalRecord} (hentry : rec.entry? = none) (fsync : Bool) :
    Files s.desk [] (s.walWrite rec fsync).1.desk := by
  have hwrites := s.writes_walWrite_desk rec fsync
  rw [hentry] at hwrites
  obtain ⟨walIo, log, hshape⟩ := hwrites.shape
  have hfiles := hwrites.files [] rfl (fun _ _ => List.not_mem_nil) rfl rfl
  rw [hshape] at hfiles ⊢
  exact hfiles

theorem files_finishPromptIntent (p : PendingPrompt) (outcome : PromptOutcome) :
    Files s.desk [.closed p outcome] (s.finishPromptIntent p.id outcome).desk := by
  have hwrites := s.writes_if_open (.promptTerminal p.id outcome)
  have hfinish : s.finishPromptIntent p.id outcome =
      (if s.walOpen then s.walWrite (.promptTerminal p.id outcome) true else (s, .ok ())).1 := by
    unfold finishPromptIntent
    split <;> rfl
  obtain ⟨walIo, log, hshape⟩ := hwrites.shape
  have hfiles := hwrites.files [.closed p outcome] rfl
    (fun _ q hq => by cases List.mem_singleton.1 hq) ⟨nofun, rfl⟩ rfl
  rw [hfinish]
  rw [hshape] at hfiles ⊢
  exact hfiles

/-- An intent is persisted and numbered, or the prompt is turned away
for the log's sake. -/
theorem beginPromptIntent_cases (payload : PromptPayload) :
    (∃ begun error p, s.beginPromptIntent payload = (begun, .error error) ∧
        Files s.desk [.lost p] begun.desk) ∨
      ∃ begun p, s.beginPromptIntent payload = (begun, .ok p) ∧ p.payload = payload ∧
        Files s.desk [.queued p] begun.desk := by
  let p : PendingPrompt := { id := s.nextPromptId, payload }
  have hwrites := s.writes_if_open
    (.promptIntent s.nextPromptId payload.text payload.textBlocks payload.images)
  rcases hwritten : (if s.walOpen then
      s.walWrite (.promptIntent s.nextPromptId payload.text payload.textBlocks payload.images) true
      else (s, .ok ())) with ⟨written, result⟩
  rw [hwritten] at hwrites
  obtain ⟨walIo, log, hshape⟩ := hwrites.shape
  have hnext : written.nextPromptId = s.nextPromptId := congrArg Desk.nextPromptId hshape
  cases result with
  | error error =>
      left
      have hfiles := hwrites.files [.lost p] rfl nofun ⟨fun q hq => by cases hq; rfl, rfl⟩ rfl
      refine ⟨written, s!"could not persist prompt before delivery: {error}", p, ?_, ?_⟩
      · unfold beginPromptIntent
        simp only [hwritten]
      · rw [hshape] at hfiles ⊢
        exact hfiles
  | ok done =>
      right
      have hfiles := hwrites.files [.queued p] rfl
        (fun _ q hq => by cases List.mem_singleton.1 hq)
        ⟨fun q hq => by cases hq; rfl, rfl⟩ rfl
      refine ⟨{ written with nextPromptId := saturatingAdd written.nextPromptId 1 }, p, ?_, rfl, ?_⟩
      · unfold beginPromptIntent
        simp only [hwritten, hnext]
        rfl
      · rw [hnext]
        exact hfiles

/-- The chokepoint writes no prompt record. A rejection among the notes
is told by it. -/
theorem files_pushEvent (note : Notification) :
    Files s.desk (note.rejected?.toList.map .told) (s.pushEvent note).desk := by
  have happend : Files s.desk [] (s.walAppend note).desk := by
    unfold walAppend
    split
    · exact s.files_walWrite rfl _
    · exact .refl _
  generalize hwritten : s.walAppend note = written at happend
  obtain ⟨forwarder, stopped, hwater⟩ := enforceHighWater_spec
    { written with eventLog := (written.eventLog.push note).1, history := written.history ++ [note] }
  obtain ⟨forwarder', floor, hfloor⟩ := compactionFloor_spec
    { written with eventLog := (written.eventLog.push note).1, history := written.history ++ [note],
                   forwarder, out := { written.out with stopped } }
  have hpush : Files written.desk (note.rejected?.toList.map .told) (s.pushEvent note).desk := by
    simp only [pushEvent, hwritten, hwater, hfloor, publishSnapshot]
    constructor
    · exact ⟨_, _, _, _, rfl⟩
    · refine ⟨[], (List.append_nil _).symm, List.nil_sublist _, fun _ _ => ?_⟩
      cases note.rejected? <;> rfl
    · refine fun hclean => ⟨hclean, fun q hq => ?_⟩
      cases hrejected : note.rejected? with
      | none => simp [hrejected] at hq
      | some text => simp [hrejected] at hq
    · refine PromptEvent.numbers_of_none (fun event hevent => ?_) _
      obtain ⟨text, -, rfl⟩ := List.mem_map.1 hevent
      rfl
    · have htold : (note.rejected?.toList.map PromptEvent.told).filterMap PromptEvent.told? =
          [note].filterMap Notification.rejected? := by
        cases hrejected : note.rejected? <;> simp [hrejected, PromptEvent.told?]
      show ((written.history ++ [note] ++ written.out.events).filterMap _).Perm
        ((written.history ++ written.out.events).filterMap _ ++ _)
      rw [htold, ← List.filterMap_append, List.append_assoc, List.append_assoc]
      exact (List.perm_append_comm.append_left _).filterMap _
  exact happend.trans hpush

theorem files_recordAgent (kind : AgentEventKind) : Files s.desk [] (s.recordAgent kind).desk :=
  files_pushEvent { s with agentSeq := s.agentSeq + 1 } (.agent _)

theorem files_appendMetadata {rec : WalRecord} (hentry : rec.entry? = none)
    (reopenError : Option String) : Files s.desk [] (s.appendMetadata rec reopenError).1.desk := by
  unfold appendMetadata
  split
  · exact s.files_walWrite hentry true
  · split
    · split
      · exact .refl _
      · exact s.files_walWrite hentry true
    · exact .refl _

/-! ### Broadcasts -/

theorem emit_desk {note : Notification} (h : note.rejected? = none) :
    (s.emit note).desk = s.desk := by
  have hevents : [note].filterMap Notification.rejected? = [] := List.filterMap_cons_none h
  show { s.desk with
      rejections := (s.history ++ (s.out.events ++ [note])).filterMap Notification.rejected? } =
    s.desk
  rw [← List.append_assoc, List.filterMap_append, hevents, List.append_nil]
  rfl

@[simp] theorem broadcastBusy_desk (busy : Bool) : (s.broadcastBusy busy).desk = s.desk :=
  s.emit_desk rfl

@[simp] theorem broadcastConnected_desk (connected : Bool) :
    (s.broadcastConnected connected).desk = s.desk := s.emit_desk rfl

theorem setBusy_desk (busy : Bool) : (s.setBusy busy).desk = { s.desk with busy } := by
  unfold setBusy
  split
  · rename_i hbusy
    rw [← hbusy]
    rfl
  · exact broadcastBusy_desk { s with busy } busy

/-- The rejections that follow a publish are broadcast. -/
theorem files_tellUndelivered (undelivered : List (String × String)) :
    Files s.desk (undelivered.map fun told => .told told.1)
      (undelivered.foldl
        (fun (s : ManagedSession) (text, reason) => s.emit (.promptRejected s.id reason text))
        s).desk := by
  induction undelivered generalizing s with
  | nil => exact .refl _
  | cons first rest ih =>
      have htell : Files s.desk [.told first.1]
          (s.emit (.promptRejected s.id first.2 first.1)).desk := by
        constructor
        · exact ⟨_, _, _, _, rfl⟩
        · exact ⟨[], (List.append_nil _).symm, List.Sublist.refl _, fun _ _ => rfl⟩
        · exact fun hclean => ⟨hclean, fun q hq => by cases List.mem_singleton.1 hq⟩
        · exact ⟨nofun, rfl⟩
        · refine .of_eq ?_
          show (s.history ++ (s.out.events ++ [_])).filterMap Notification.rejected? = _
          rw [← List.append_assoc, List.filterMap_append]
          rfl
      exact htell.trans (ih _)

/-! ### The queue -/

theorem files_rejectPending (outcome : PromptOutcome) (reason : String)
    (pending : List PendingPrompt) :
    Files s.desk (pending.flatMap (PromptEvent.rejection outcome))
      (rejectPending outcome reason s pending).desk := by
  induction pending generalizing s with
  | nil => exact .refl _
  | cons first rest ih =>
      let closed := s.finishPromptIntent first.id outcome
      have hclose : Files s.desk [.closed first outcome] closed.desk :=
        s.files_finishPromptIntent first outcome
      have htell := closed.files_pushEvent (.promptRejected closed.id reason first.payload.text)
      exact (hclose.trans htell).trans (ih _)

theorem files_cancelPending (pending : List PendingPrompt) :
    Files s.desk (pending.map fun p => .closed p .cancelled) (cancelPending s pending).desk := by
  induction pending generalizing s with
  | nil => exact .refl _
  | cons first rest ih => exact (s.files_finishPromptIntent first .cancelled).trans (ih _)

/-- A flush closes the whole queue: the channel has what it accepted,
and the rest comes back. -/
theorem flushPending_desk (handle : TransportHandle) (pending : List PendingPrompt) :
    ∃ evs, PromptEvent.Closes evs pending ∧
      Files { s.desk with busy := s.busy || !(evs.filterMap PromptEvent.delivered?).isEmpty } evs
        (flushPending s handle pending).1.desk ∧
      (flushPending s handle pending).2.1.inbox = handle.inbox ++
        (evs.filterMap PromptEvent.delivered?).map (fun p => .prompt p.payload none) ∧
      (flushPending s handle pending).2.2.map (·.1) =
        (evs.filterMap PromptEvent.dropped?).map (·.payload.text) := by
  induction pending generalizing s handle with
  | nil =>
      refine ⟨[], .nil, ?_, (List.append_nil _).symm, rfl⟩
      show Files { s.desk with busy := s.busy || false } [] s.desk
      rw [Bool.or_false]
      exact .refl _
  | cons first rest ih =>
      unfold flushPending
      rcases hsend : handle.sendPayload first.payload none with ⟨handle', error | done⟩
      · let closed := s.finishPromptIntent first.id .rejected
        obtain ⟨evs, hcloses, hfiles, hinbox, hback⟩ := ih closed handle'
        have hclose : Files s.desk [.closed first .rejected] closed.desk :=
          s.files_finishPromptIntent first .rejected
        have hbusy : closed.busy = s.busy := by
          obtain ⟨_, _, _, _, hshape⟩ := hclose.shape
          exact congrArg Desk.busy hshape
        refine ⟨.closed first .rejected :: evs, .cons ⟨_, rfl⟩ hcloses, ?_, ?_, ?_⟩
        · rw [hbusy] at hfiles
          exact (hclose.under (blind_busy _)).trans hfiles
        · rw [TransportHandle.sendPayload_error hsend] at hinbox
          exact hinbox
        · exact congrArg (first.payload.text :: ·) hback
      · let closed := s.finishPromptIntent first.id .delivered
        obtain ⟨evs, hcloses, hfiles, hinbox, hback⟩ := ih { closed with busy := true } handle'
        have hclose : Files s.desk [.closed first .delivered] closed.desk :=
          s.files_finishPromptIntent first .delivered
        refine ⟨.closed first .delivered :: evs, .cons ⟨_, rfl⟩ hcloses, ?_, ?_, hback⟩
        · have hall := (hclose.under (blind_busy true)).trans hfiles
          show Files { s.desk with busy := s.busy || true } _ _
          rw [Bool.or_true]
          exact hall
        · rw [TransportHandle.sendPayload_ok hsend, List.append_assoc] at hinbox
          exact hinbox

end ManagedSession

end Yaldabaoth
