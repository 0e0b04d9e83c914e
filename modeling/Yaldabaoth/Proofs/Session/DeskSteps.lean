import Yaldabaoth.Proofs.Session.Desk

/-!
# `Yaldabaoth.Proofs.Session.DeskSteps`: the commands at the desk

The effect of each command on the session's prompts, deliveries,
channel and busy flag. `Desk.Step` collects them: what a command can do
to the desk, with the prompt events it files and the inputs its channel
is handed. Nothing behind this file unfolds a command for its effect on
the desk again.
-/

set_option autoImplicit false

namespace Yaldabaoth

open Desk (Files)

namespace Desk

variable (d : Desk)

/-- The active delivery is answered as cancelled. -/
def cancelActive : Desk :=
  { d with
    active := none
    answers := d.answers ++ d.active.toList.map fun delivery => (delivery.reply, .failed
      { failureClass := .cancelled, retryable := false, message := "provider turn was cancelled" }) }

/-- A restart, before its thread is started. -/
def restarted : Desk :=
  { d.failDeliveries { failureClass := .providerUnavailable, retryable := true,
                       message := "provider session is restarting" }
    with generation := d.generation + 1, busy := false, lifecycle := .restarting, inbox := none }

/-- An archive, before its queued prompts are closed. -/
def shelved : Desk :=
  { d.failDeliveries { failureClass := .cancelled, retryable := false,
                       message := "provider session was archived" }
    with archived := true, lifecycle := .archived, busy := false, pending := []
         generation := d.generation + 1, inbox := none }

/-- A channel is installed that was handed the prompts `delivered`. -/
def published (delivered : List PendingPrompt) (isRespawn : Bool) : Desk :=
  { d with
    busy := !delivered.isEmpty
    pending := []
    lifecycle := .live
    inbox := some (delivered.map fun p => .prompt p.payload none)
    generation := if isRespawn then d.generation + 1 else d.generation }

/-- A delivery is answered with a failure. -/
def answered (reply : Nat) (failure : ProviderDeliveryFailure) : Desk :=
  { d with answers := d.answers ++ [(reply, .failed failure)] }

theorem blind_installed (box : List WorkerInput) (generation : Nat) :
    Blind fun d => { d with lifecycle := .live, inbox := some box, generation } :=
  ⟨fun _ _ _ _ _ => rfl, fun _ => rfl, fun _ => rfl, fun _ => rfl, fun _ => rfl, fun _ => rfl⟩

theorem blind_fenced (generation : Nat) : Blind fun d => { d with generation, inbox := none } :=
  ⟨fun _ _ _ _ _ => rfl, fun _ => rfl, fun _ => rfl, fun _ => rfl, fun _ => rfl, fun _ => rfl⟩

theorem blind_shelved : Blind shelved :=
  ⟨fun _ _ _ _ _ => rfl, fun _ => rfl, fun _ => rfl, fun _ => rfl, fun _ => rfl, fun _ => rfl⟩

/-- The transport accepted the payload of a delivery. -/
def started (delivery : ActiveProviderDelivery) (box : List WorkerInput) (input : WorkerInput) :
    Desk :=
  { d with inbox := some (box ++ [input]), busy := true, active := some delivery }

/-- The delivery that a turn count of the session's own generation
settles. -/
def terminal (turns : Nat) : Option ActiveProviderDelivery :=
  d.active.filter fun delivery =>
    decide (delivery.generation = d.generation ∧ delivery.targetTurnCount ≤ turns)

/-- A turn count, before the next delivery is started. -/
def settled (turns : Nat) (outcome : TurnOutcome) : Desk :=
  { d with
    turns
    active := if (d.terminal turns).isSome then none else d.active
    busy := false
    answers := d.answers ++ (d.terminal turns).toList.map fun delivery =>
      (delivery.reply, ManagedSession.settledResult delivery (turns - 1) outcome) }

theorem blind_settled (turns : Nat) (outcome : TurnOutcome) :
    Blind fun d => { d.settled turns outcome with turns } :=
  ⟨fun _ _ _ _ _ => rfl, fun _ => rfl, fun _ => rfl, fun _ => rfl, fun _ => rfl, fun _ => rfl⟩

/-- The delivery that is correlated with the next turn of the channel. -/
structure Correlates (pending : PendingProviderDelivery) (delivery : ActiveProviderDelivery) :
    Prop where
  generation : delivery.generation = d.generation
  target : delivery.targetTurnCount = d.turns + 1
  reply : delivery.reply = pending.reply

/-- Waiting deliveries are tried in turn. Those that fail are answered,
and the first one that is accepted ends the search. -/
inductive Next : Desk → List WorkerInput → Desk → Prop
  | done {d : Desk} (h : d.waiting = [] ∨ d.active.isSome ∨ d.busy = true) : Next d [] d
  | failed {d d' : Desk} {pending : PendingProviderDelivery}
      {rest : List PendingProviderDelivery} {failure : ProviderDeliveryFailure}
      {inputs : List WorkerInput} (idle : d.active = none ∧ d.busy = false)
      (waiting : d.waiting = pending :: rest)
      (next : Next ({ d with waiting := rest }.answered pending.reply failure) inputs d') :
      Next d inputs d'
  | started {d : Desk} {pending : PendingProviderDelivery} {rest : List PendingProviderDelivery}
      {delivery : ActiveProviderDelivery} {box : List WorkerInput}
      (idle : d.active = none ∧ d.busy = false) (waiting : d.waiting = pending :: rest)
      (inbox : d.inbox = some box) (correlates : d.Correlates pending delivery) :
      Next d [.prompt pending.payload (some pending.reply)]
        ({ d with waiting := rest }.started delivery box
          (.prompt pending.payload (some pending.reply)))

/-- A channel is handed a signal to cancel, if there is one that takes
it. -/
inductive Signals : Option (List WorkerInput) → List WorkerInput → Option (List WorkerInput) → Prop
  | absent : Signals none [] none
  | ignored {box : List WorkerInput} : Signals (some box) [] (some box)
  | taken {box : List WorkerInput} : Signals (some box) [.cancel] (some (box ++ [.cancel]))

/-- The queue is given up and each prompt of it reported. -/
def rejectAll (outcome : PromptOutcome) (queue : List PendingPrompt) : List PromptEvent :=
  queue.flatMap (PromptEvent.rejection outcome)

/-- No prompt is admitted by it. -/
theorem filterMap_rejectAll (outcome : PromptOutcome) (queue : List PendingPrompt) :
    (rejectAll outcome queue).filterMap PromptEvent.admitted? = [] := by
  refine List.filterMap_eq_nil_iff.2 fun event hevent => ?_
  obtain ⟨p, -, hmem⟩ := List.mem_flatMap.1 hevent
  simp only [PromptEvent.rejection, List.mem_cons, List.not_mem_nil, or_false] at hmem
  rcases hmem with rfl | rfl <;> rfl

/-- Kinds of steps, as far as the claims about runs tell them apart. -/
inductive Deed where
  | quiet
  | lost
  | prompted
  | failed
  | delivered
  | cancelled
  | restarted
  | shelved
  | reopened
  | published (isRespawn : Bool)
  | settled (turns : Nat) (outcome : TurnOutcome)

/-- What a command does to the desk, with the events it files and the
inputs the channel is handed. -/
inductive Step : Desk → Deed → List PromptEvent → List WorkerInput → Desk → Prop
  | quiet {d d' : Desk} (files : d.Files [] d') : Step d .quiet [] [] d'
  /-- The intent of a prompt is not persisted. -/
  | lost {d d' : Desk} {p : PendingPrompt} (files : d.Files [.lost p] d') :
      Step d .lost [.lost p] [] d'
  /-- A prompt goes to the channel. -/
  | sent {d d' : Desk} {p : PendingPrompt} {box inputs : List WorkerInput}
      (live : d.lifecycle = .live) (inbox : d.inbox = some box)
      (payload : inputs.filterMap WorkerInput.userPayload? = [p.payload])
      (noDelivery : inputs.filterMap WorkerInput.delivery? = [])
      (files : Files { d with inbox := some (box ++ inputs), busy := true } [.sent p] d') :
      Step d .prompted [.sent p] inputs d'
  /-- A prompt waits for the channel. -/
  | queued {d d' : Desk} {p : PendingPrompt}
      (spawning : d.lifecycle = .spawning ∨ d.lifecycle = .restarting) (inbox : d.inbox = none)
      (files : Files { d with pending := d.pending ++ [p], busy := true } [.queued p] d') :
      Step d .prompted [.queued p] [] d'
  /-- The channel refuses a prompt, which takes the session down. -/
  | refused {d d' : Desk} {p : PendingPrompt} {reason : String} (open_ : d.archived = false)
      (files : (d.down reason).Files (.refused p :: rejectAll .rejected d.pending) d') :
      Step d .prompted (.refused p :: rejectAll .rejected d.pending) [] d'
  | failed {d d' : Desk} {reason : String} (open_ : d.archived = false)
      (files : (d.down reason).Files (rejectAll .rejected d.pending) d') :
      Step d .failed (rejectAll .rejected d.pending) [] d'
  /-- A delivery is answered at once. -/
  | answered {d : Desk} {reply : Nat} {failure : ProviderDeliveryFailure} :
      Step d .delivered [] [] (d.answered reply failure)
  /-- A delivery waits for the session. -/
  | held {d : Desk} {pending : PendingProviderDelivery} (live : d.lifecycle = .live) :
      Step d .delivered [] [] { d with waiting := d.waiting ++ [pending] }
  /-- A delivery goes to the channel: as a prompt when the session is
  idle, and into the running turn when it is busy. -/
  | started {d : Desk} {pending : PendingProviderDelivery} {delivery : ActiveProviderDelivery}
      {box : List WorkerInput} {input : WorkerInput} (live : d.lifecycle = .live)
      (idle : d.active = none) (inbox : d.inbox = some box)
      (input_eq : d.busy = false ∧ input = .prompt pending.payload (some pending.reply) ∨
        d.busy = true ∧ input = .steer pending.payload (some pending.reply))
      (correlates : d.Correlates pending delivery) :
      Step d .delivered [] [input] (d.started delivery box input)
  /-- The turn is cancelled. -/
  | cancelled {d : Desk} {inputs : List WorkerInput} {inbox : Option (List WorkerInput)}
      (serving : d.lifecycle = .live ∨ d.lifecycle = .archived)
      (signals : Signals d.inbox inputs inbox) :
      Step d .cancelled [] inputs { d.cancelActive with inbox }
  /-- A session without a channel gives up its queue. -/
  | unqueued {d d' : Desk} {inputs : List WorkerInput} {inbox : Option (List WorkerInput)}
      (down : d.lifecycle ≠ .live ∧ d.lifecycle ≠ .archived)
      (signals : Signals d.inbox inputs inbox)
      (files : Files { d.cancelActive with inbox, busy := false, pending := [] }
        (rejectAll .cancelled d.pending) d') :
      Step d .cancelled (rejectAll .cancelled d.pending) inputs d'
  | restarted {d : Desk} (open_ : d.archived = false) : Step d .restarted [] [] d.restarted
  /-- The thread of a restart does not start. -/
  | notRestarted {d d' : Desk} {reason : String} (open_ : d.archived = false)
      (files : (d.restarted.down reason).Files (rejectAll .rejected d.pending) d') :
      Step d .restarted (rejectAll .rejected d.pending) [] d'
  | shelved {d e d' : Desk} (open_ : d.archived = false) (file : d.walOpen = true)
      (files : d.shelved.Files (d.pending.map fun p => .closed p .cancelled) e)
      (eq : d' = { e with walOpen := false }) :
      Step d .shelved (d.pending.map fun p => .closed p .cancelled) [] d'
  /-- An unarchive, or the retry of one. -/
  | reopened {d e d' : Desk} {walOpen : Bool}
      (closed : d.archived = true ∧ d.walPath.isSome ∧ walOpen = true ∨
        d.archived = false ∧ d.lifecycle = .disconnected ∧ walOpen = d.walOpen)
      (eq : e = { d with walOpen, archived := false, lifecycle := .spawning })
      (files : e.Files [] d') : Step d .reopened [] [] d'
  | notReopened {d e d' : Desk} {walOpen : Bool} {reason : String}
      (closed : d.archived = true ∧ d.walPath.isSome ∧ walOpen = true ∨
        d.archived = false ∧ d.lifecycle = .disconnected ∧ walOpen = d.walOpen)
      (eq : e = { d with walOpen, archived := false, lifecycle := .spawning })
      (files : (e.down reason).Files (rejectAll .rejected d.pending) d') :
      Step d .reopened (rejectAll .rejected d.pending) [] d'
  /-- A channel is published, and told what it refused. -/
  | published {d d' : Desk} {evs : List PromptEvent} {inputs : List WorkerInput}
      {isRespawn : Bool} (open_ : d.archived = false)
      (closes : PromptEvent.Closes evs d.pending)
      (handed : inputs = (evs.filterMap PromptEvent.delivered?).map fun p => .prompt p.payload none)
      (files : (d.published (evs.filterMap PromptEvent.delivered?) isRespawn).Files
        (evs ++ ((evs.filterMap PromptEvent.dropped?).map (·.payload.text)).map .told) d') :
      Step d (.published isRespawn) (evs ++ ((evs.filterMap PromptEvent.dropped?).map (·.payload.text)).map .told)
        inputs d'
  /-- A turn count settles the active delivery, and starts the next. -/
  | settled {d e d' : Desk} {turns : Nat} {outcome : TurnOutcome} {inputs : List WorkerInput}
      (files : (d.settled turns outcome).Files [] e) (next : Next e inputs d') :
      Step d (.settled turns outcome) [] inputs d'

end Desk

namespace ManagedSession

open Desk (Signals Next Step rejectAll filterMap_rejectAll blind_sent blind_queued
  blind_settled blind_installed blind_fenced blind_shelved blind_down)

variable (s : ManagedSession)

/-! ### Going out of service -/

/-- A failed handshake or a dead pump changes nothing, or the session
gives up all it owes. -/
theorem handleSpawnFailed_desk (expectedGeneration : Nat) (reason : String) :
    (s.archived = true ∨ s.channelGeneration ≠ expectedGeneration) ∧
        s.handleSpawnFailed expectedGeneration reason = s ∨
      (s.archived = false ∧ s.channelGeneration = expectedGeneration ∧
        Files (s.desk.down reason) (s.pendingPrompts.flatMap (PromptEvent.rejection .rejected))
          (s.handleSpawnFailed expectedGeneration reason).desk) := by
  unfold handleSpawnFailed
  split
  · rename_i hpast
    exact .inl ⟨hpast, rfl⟩
  · rename_i hcurrent
    have harchived : s.archived = false := Bool.eq_false_iff.2 fun h => hcurrent (.inl h)
    have hgeneration : s.channelGeneration = expectedGeneration :=
      Classical.byContradiction fun h => hcurrent (.inr h)
    refine .inr ⟨harchived, hgeneration, ?_⟩
    let failed : ManagedSession :=
      ({ s with lifecycle := .disconnected, channel := none, busy := false, replayFence := 0 }
        ).failProviderDeliveries
        { failureClass := .providerUnavailable, retryable := true, message := reason }
    let rejected := rejectPending .rejected reason { failed with pendingPrompts := [] }
      failed.pendingPrompts
    have hreject : Files (s.desk.down reason)
        (s.pendingPrompts.flatMap (PromptEvent.rejection .rejected)) rejected.desk :=
      files_rejectPending { failed with pendingPrompts := [] } .rejected reason
        failed.pendingPrompts
    have hdetach := hreject.trans
      (rejected.files_pushEvent (.sessionDetached rejected.id reason))
    rw [show ((Notification.sessionDetached rejected.id reason).rejected?.toList.map
      PromptEvent.told) = [] from rfl, List.append_nil] at hdetach
    simp only
    split
    · rw [broadcastConnected_desk, broadcastBusy_desk]
      exact hdetach
    · rw [broadcastConnected_desk]
      exact hdetach

/-! ### Prompts -/

/-- What the ways of sending a user's prompt have in common. -/
def Sends (send : TransportHandle → PromptPayload → TransportHandle × Except String Unit) : Prop :=
  ∀ handle payload handle', send handle payload = (handle', .ok ()) →
    ∃ inputs, handle'.inbox = handle.inbox ++ inputs ∧
      inputs.filterMap WorkerInput.userPayload? = [payload] ∧
      inputs.filterMap WorkerInput.delivery? = []

theorem sends_sendPayload : Sends fun handle payload => handle.sendPayload payload none := by
  intro handle payload handle' hsend
  exact ⟨_, TransportHandle.sendPayload_ok hsend, rfl, rfl⟩

theorem sends_steerOrReplacePayload :
    Sends fun handle payload => handle.steerOrReplacePayload payload none := by
  intro handle payload handle' hsend
  simp only [TransportHandle.steerOrReplacePayload, TransportHandle.steerPayload] at hsend
  split at hsend
  · rename_i hsupported
    rw [hsupported, Bool.not_true, if_neg Bool.false_ne_true] at hsend
    rcases (TransportHandle.enqueue_inbox hsend).2 with ⟨-, hinbox⟩ | ⟨error, herror, -⟩
    · exact ⟨_, hinbox, rfl, rfl⟩
    · cases herror
  · have hinbox := TransportHandle.sendPayload_ok hsend
    unfold TransportHandle.cancel at hinbox
    split at hinbox
    · exact ⟨[.cancel, .prompt payload none], by rw [hinbox, List.append_assoc]; rfl, rfl, rfl⟩
    · exact ⟨_, hinbox, rfl, rfl⟩

/-- An admitted prompt meets the channel, or waits for one, or is
refused. -/
theorem deliverPrompt_desk (pending : PendingPrompt) (failed : String)
    {send : TransportHandle → PromptPayload → TransportHandle × Except String Unit}
    (hsend : Sends send) :
    (∃ box inputs delivered, s.lifecycle = .live ∧ s.desk.inbox = some box ∧
        inputs.filterMap WorkerInput.userPayload? = [pending.payload] ∧
        inputs.filterMap WorkerInput.delivery? = [] ∧
        s.deliverPrompt pending failed (fun channel => send channel pending.payload) =
          (delivered, .ok ()) ∧
        Files { s.desk with inbox := some (box ++ inputs) } [.closed pending .delivered]
          delivered.desk) ∨
      ((s.lifecycle = .spawning ∨ s.lifecycle = .restarting) ∧ s.desk.inbox = none ∧
        s.deliverPrompt pending failed (fun channel => send channel pending.payload) =
          ({ s with pendingPrompts := s.pendingPrompts ++ [pending] }, .ok ())) ∨
      ∃ refused error inbox,
        s.deliverPrompt pending failed (fun channel => send channel pending.payload) =
          (refused, .error error) ∧
        Files { s.desk with inbox } [.closed pending .rejected] refused.desk := by
  unfold deliverPrompt
  split
  · rename_i channel hlive hchannel
    have hinbox : s.desk.inbox = some channel.inbox := by
      show s.channel.map (·.inbox) = _
      rw [hchannel]
      rfl
    rcases hsent : send channel pending.payload with ⟨channel', error | done⟩
    · simp only [hsent]
      exact .inr (.inr ⟨_, _, _, rfl,
        files_finishPromptIntent { s with channel := some channel' } pending .rejected⟩)
    · obtain ⟨inputs, hbox, hpayload, hnone⟩ := hsend channel pending.payload channel' hsent
      have hfinish := files_finishPromptIntent { s with channel := some channel' } pending .delivered
      rw [show ({ s with channel := some channel' } : ManagedSession).desk =
        { s.desk with inbox := some (channel.inbox ++ inputs) } by rw [← hbox]; rfl] at hfinish
      simp only [hsent]
      exact .inl ⟨_, inputs, _, hlive, hinbox, hpayload, hnone, rfl, hfinish⟩
  · rename_i hspawning hchannel
    refine .inr (.inl ⟨.inl hspawning, ?_, rfl⟩)
    show s.channel.map (·.inbox) = none
    rw [hchannel]
    rfl
  · rename_i hrestarting hchannel
    refine .inr (.inl ⟨.inr hrestarting, ?_, rfl⟩)
    show s.channel.map (·.inbox) = none
    rw [hchannel]
    rfl
  · exact .inr (.inr ⟨_, _, s.desk.inbox, rfl, s.files_finishPromptIntent pending .rejected⟩)

/-- An admitted prompt goes into the transcript. -/
theorem files_logPrompt (text : String) :
    Files s.desk [] ((s.logOnly (.userPrompt s.id text)).recordAgent (.userMessage text)).desk :=
  (s.files_pushEvent (.userPrompt s.id text)).trans
    ((s.logOnly (.userPrompt s.id text)).files_recordAgent (.userMessage text))

/-- A prompt that could not be persisted, or was admitted, or took the
session down with it. -/
theorem admitPrompt_desk (text : String) (images : List ImageAttachment)
    (archivedTo disconnectedTo failed : String)
    {send : TransportHandle → PromptPayload → TransportHandle × Except String Unit}
    (hsend : Sends send) (hshelf : s.archived = true → s.lifecycle = .archived) :
    ∃ admitted result deed evs inputs,
      s.admitPrompt text images archivedTo disconnectedTo failed send = (admitted, result) ∧
      Step s.desk deed evs inputs admitted.desk ∧ (deed = .quiet ∨ deed = .lost ∨ deed = .prompted) ∧
      (evs.filterMap PromptEvent.admitted?).map (·.payload) =
        if result.isOk then [{ text, textBlocks := [], images }] else [] := by
  unfold admitPrompt
  split
  · exact ⟨_, _, _, _, _, rfl, .quiet (.refl _), .inl rfl, rfl⟩
  · rename_i hunshelved
    have hopen : s.archived = false := Bool.eq_false_iff.2 fun h => hunshelved (hshelf h)
    split
    · exact ⟨_, _, _, _, _, rfl, .quiet (.refl _), .inl rfl, rfl⟩
    · rcases s.beginPromptIntent_cases { text, textBlocks := [], images } with
        ⟨begun, error, p, hbegin, hfiles⟩ | ⟨begun, p, hbegin, hpayload, hfiles⟩
      · rw [hbegin]
        exact ⟨_, _, _, _, _, rfl, .lost hfiles, .inr (.inl rfl), rfl⟩
      · obtain ⟨_, _, _, _, hshape⟩ := hfiles.shape
        have hlifecycle : begun.lifecycle = s.lifecycle := congrArg Desk.lifecycle hshape
        have hinbox : begun.desk.inbox = s.desk.inbox := by rw [hshape]
        have hpending : begun.pendingPrompts = s.pendingPrompts := congrArg Desk.pending hshape
        have harchived : begun.archived = false := (congrArg Desk.archived hshape).trans hopen
        rw [hbegin]
        simp only
        rcases deliverPrompt_desk { begun with busy := true } p failed hsend with
          ⟨box, inputs, delivered, hlive, hbox, hone, hnone, hdeliver, hclose⟩ |
          ⟨hspawning, hnobox, hdeliver⟩ | ⟨refused, error, inbox, hdeliver, hclose⟩
        · rw [hdeliver]
          have hsent : Files { s.desk with inbox := some (box ++ inputs), busy := true } [.sent p]
              delivered.desk :=
            ((hfiles.under (blind_sent (some (box ++ inputs)) true)).trans hclose).at_once rfl rfl rfl rfl
          have hlogged := hsent.trans (delivered.files_logPrompt text)
          refine ⟨_, _, .prompted, [.sent p], inputs, rfl, .sent (hlifecycle.symm.trans hlive)
            (hinbox.symm.trans hbox) hone hnone ?_, .inr (.inr rfl), ?_⟩
          · split
            · exact hlogged
            · rw [broadcastBusy_desk]
              exact hlogged
          · exact congrArg (fun payload => [payload]) hpayload
        · rw [hdeliver]
          let waiting : ManagedSession :=
            { begun with busy := true, pendingPrompts := begun.pendingPrompts ++ [p] }
          have hqueued : Files { s.desk with pending := s.desk.pending ++ [p], busy := true }
              [.queued p] waiting.desk := hfiles.under (blind_queued p true)
          have hlogged := hqueued.trans (waiting.files_logPrompt text)
          refine ⟨_, _, .prompted, [.queued p], [], rfl, .queued ?_ (hinbox.symm.trans hnobox) ?_,
            .inr (.inr rfl), ?_⟩
          · exact hspawning.imp hlifecycle.symm.trans hlifecycle.symm.trans
          · split
            · exact hlogged
            · rw [broadcastBusy_desk]
              exact hlogged
          · exact congrArg (fun payload => [payload]) hpayload
        · rw [hdeliver]
          obtain ⟨_, _, _, _, hrefused⟩ := hclose.shape
          have hstill : refused.archived = false :=
            (congrArg Desk.archived hrefused).trans harchived
          have hqueue : refused.pendingPrompts = s.pendingPrompts :=
            (congrArg Desk.pending hrefused).trans hpending
          have hrefuse : (s.desk.down error).Files [.refused p] (refused.desk.down error) :=
            ((hfiles.under (blind_down error)).trans (hclose.under (blind_down error))).at_once
              rfl rfl rfl rfl
          rcases refused.handleSpawnFailed_desk refused.channelGeneration error with
            ⟨hpast, -⟩ | ⟨-, -, hdown⟩
          · rw [hstill] at hpast
            exact absurd rfl (hpast.resolve_left Bool.false_ne_true)
          · rw [hqueue] at hdown
            exact ⟨_, _, .prompted, _, [], rfl, .refused hopen (hrefuse.trans hdown),
              .inr (.inr rfl),
              congrArg (List.map (·.payload)) (filterMap_rejectAll _ _)⟩

/-! ### Deliveries -/

/-- A delivery is answered with a failure, or handed to the channel. -/
theorem startProviderDelivery_desk (pending : PendingProviderDelivery) (steer : Bool) :
    ((s.startProviderDelivery pending steer).2 = false ∧ ∃ failure,
        (s.startProviderDelivery pending steer).1.desk =
          s.desk.answered pending.reply failure) ∨
      ((s.startProviderDelivery pending steer).2 = true ∧ ∃ delivery box,
        s.desk.inbox = some box ∧ s.desk.Correlates pending delivery ∧
        (s.startProviderDelivery pending steer).1.desk = s.desk.started delivery box
          (if steer then .steer pending.payload (some pending.reply)
            else .prompt pending.payload (some pending.reply))) := by
  unfold startProviderDelivery
  simp only
  split
  · exact .inl ⟨rfl, _, rfl⟩
  · rename_i channel hchannel
    split
    · exact .inl ⟨rfl, _, rfl⟩
    · split
      · exact .inl ⟨rfl, _, rfl⟩
      · rename_i providerSessionId _
        have hinbox : s.desk.inbox = some channel.inbox := by
          show s.channel.map (·.inbox) = _
          rw [hchannel]
          rfl
        split
        · rename_i channel' error hsent
          have hsame : channel'.inbox = channel.inbox := by
            rcases TransportHandle.deliver_inbox hsent with ⟨hok, -⟩ | ⟨-, -, hsame⟩
            · cases hok
            · exact hsame
          left
          refine ⟨rfl, ?_, ?_⟩
          · exact
              { failureClass := .providerUnavailable
                retryable := true
                message := s!"provider input was rejected before dispatch: {error}" }
          · have hkeep : ({ s with channel := some channel' } : ManagedSession).desk = s.desk := by
              show { s.desk with inbox := some channel'.inbox } = s.desk
              rw [hsame, ← hinbox]
            show Desk.answered ({ s with channel := some channel' } : ManagedSession).desk
              pending.reply _ = s.desk.answered pending.reply _
            rw [hkeep]
        · rename_i channel' hsent
          have hbox : channel'.inbox = channel.inbox ++
              [if steer then .steer pending.payload (some pending.reply)
                else .prompt pending.payload (some pending.reply)] := by
            rcases TransportHandle.deliver_inbox hsent with ⟨-, hbox⟩ | ⟨error, herror, -⟩
            · exact hbox
            · cases herror
          right
          refine ⟨rfl, { attemptId := pending.request.envelope.attemptId
                         provider := pending.request.provider
                         providerSessionId
                         generation := s.channelGeneration
                         targetTurnCount := s.turns + 1
                         reply := pending.reply }, channel.inbox, hinbox, ⟨rfl, rfl, rfl⟩, ?_⟩
          rw [Desk.started, ← hbox]
          split
          · exact broadcastBusy_desk _ true
          · rfl

/-- Whether the channel takes the payload of a delivery that is sent as a
prompt: its worker lives, and the provider's session has a name. -/
def accepts : Bool :=
  s.channel.any fun channel =>
    channel.connected && channel.receiving &&
      (channel.sessionId <|> s.acpSessionId).any fun raw => (OpaqueId.new raw).isOk

/-- A delivery is sent as a prompt exactly if the channel takes it. A
channel that did not take one takes no other. -/
theorem startProviderDelivery_accepts (pending : PendingProviderDelivery) :
    (s.startProviderDelivery pending false).2 = s.accepts ∧
      (s.accepts = false → (s.startProviderDelivery pending false).1.accepts = false) := by
  unfold startProviderDelivery
  simp only
  split
  · rename_i hchannel
    have hrefuses : s.accepts = false := by rw [accepts, hchannel]; rfl
    exact ⟨hrefuses.symm, fun _ => hrefuses⟩
  · rename_i channel hchannel
    split
    · rename_i hnone
      have hrefuses : s.accepts = false := by
        rw [accepts, hchannel, Option.any_some, hnone]
        exact Bool.and_false _
      exact ⟨hrefuses.symm, fun _ => hrefuses⟩
    · rename_i raw hraw
      split
      · rename_i error herror
        have hrefuses : s.accepts = false := by
          rw [accepts, hchannel, Option.any_some, hraw, Option.any_some, herror]
          exact Bool.and_false _
        exact ⟨hrefuses.symm, fun _ => hrefuses⟩
      · rename_i valid hvalid
        have hline : s.accepts = (channel.connected && channel.receiving) := by
          rw [accepts, hchannel, Option.any_some, hraw, Option.any_some, hvalid]
          exact Bool.and_true _
        split
        · rename_i channel' error hsent
          obtain ⟨hshut, hstill⟩ := TransportHandle.enqueue_error hsent
          refine ⟨(hline.trans hshut).symm, fun _ => ?_⟩
          show ((channel'.connected && channel'.receiving) && _) = false
          rw [hstill]
          rfl
        · rename_i channel' hsent
          have haccepts : s.accepts = true := hline.trans (TransportHandle.enqueue_ok hsent)
          refine ⟨?_, fun hrefuses => ?_⟩
          · exact haccepts.symm
          · rw [haccepts] at hrefuses
            cases hrefuses

/-- The same of a delivery that is steered, as far as a start goes. -/
theorem accepts_of_start {pending : PendingProviderDelivery} {steer : Bool}
    (h : (s.startProviderDelivery pending steer).2 = true) : s.accepts = true := by
  unfold startProviderDelivery at h
  simp only at h
  split at h
  · cases h
  · rename_i channel hchannel
    split at h
    · cases h
    · rename_i raw hraw
      split at h
      · cases h
      · rename_i valid hvalid
        split at h
        · cases h
        · rename_i channel' hsent
          have hopen : (channel.connected && channel.receiving) = true := by
            cases steer with
            | false => exact TransportHandle.enqueue_ok hsent
            | true => exact TransportHandle.steerPayload_ok hsent
          rw [accepts, hchannel, Option.any_some, hraw, Option.any_some, hvalid, hopen]
          rfl

/-- The search for the next delivery. It starts one exactly if one waits,
nothing else runs and the channel takes it. -/
theorem startNext_desk (pending : List PendingProviderDelivery) :
    s.pendingProviderDeliveries = pending →
      ∃ inputs, Next s.desk inputs (startNext s pending).desk ∧
        (inputs ≠ [] ↔ pending ≠ [] ∧ (s.activeProviderDelivery = none ∧ s.busy = false) ∧
          s.accepts = true) := by
  induction pending generalizing s with
  | nil => exact fun hwaiting => ⟨[], .done (.inl hwaiting), by simp⟩
  | cons first rest ih =>
      intro hwaiting
      unfold startNext
      split
      · rename_i hidle
        have hactive : s.activeProviderDelivery = none ∧ s.busy = false := by
          refine ⟨Option.isNone_iff_eq_none.1 hidle.1, ?_⟩
          exact Bool.not_eq_true' _ |>.mp hidle.2
        let searching : ManagedSession := { s with pendingProviderDeliveries := rest }
        obtain ⟨hstarts, hrefuses⟩ := searching.startProviderDelivery_accepts first
        rcases searching.startProviderDelivery_desk first false
          with ⟨hfalse, failure, hdesk⟩ | ⟨htrue, delivery, box, hinbox, hcorrelates, hdesk⟩
        · have hshut : s.accepts = false := hstarts.symm.trans hfalse
          have hstill := hrefuses hshut
          rcases hstart : searching.startProviderDelivery first false with ⟨failed, started⟩
          rw [hstart] at hfalse hdesk hstill
          cases hfalse
          have hrest : failed.pendingProviderDeliveries = rest := congrArg Desk.waiting hdesk
          obtain ⟨inputs, hnext, hinputs⟩ := ih failed hrest
          rw [hdesk] at hnext
          refine ⟨inputs, .failed hactive hwaiting hnext, ?_⟩
          rw [hinputs, hstill, hshut]
          simp
        · have hopen : s.accepts = true := hstarts.symm.trans htrue
          rcases hstart : searching.startProviderDelivery first false with ⟨begun, started⟩
          rw [hstart] at htrue hdesk
          cases htrue
          refine ⟨[.prompt first.payload (some first.reply)], ?_, ?_⟩
          · rw [hdesk]
            exact .started hactive hwaiting hinbox ⟨hcorrelates.1, hcorrelates.2, hcorrelates.3⟩
          · simp [hactive, hopen]
      · rename_i hbusy
        have hnot : ¬(s.activeProviderDelivery = none ∧ s.busy = false) := by
          rintro ⟨hactive, hidle⟩
          exact hbusy ⟨by rw [hactive]; rfl, by rw [hidle]; rfl⟩
        refine ⟨[], .done (.inr ?_), by simp [hnot]⟩
        show s.activeProviderDelivery.isSome ∨ s.busy = true
        cases hactive : s.activeProviderDelivery with
        | some delivery => exact .inl rfl
        | none =>
            right
            cases hflag : s.busy with
            | true => rfl
            | false => exact absurd ⟨hactive, hflag⟩ hnot

/-- Whether a delivery is handed to the channel as it arrives: as a
prompt when the session is idle, and into the running turn when it is
busy. -/
def Takes (request : ProviderDeliveryRequest) : Prop :=
  s.providerMatches request = true ∧ s.archived = false ∧ s.lifecycle = .live ∧
    s.activeProviderDelivery = none ∧
    (s.busy = true → request.provider = .codex ∧
      s.channel.any TransportHandle.supportsSteering = true) ∧
    s.accepts = true

instance (request : ProviderDeliveryRequest) : Decidable (s.Takes request) := by
  unfold Takes
  infer_instance

/-- A delivery the session is asked for. -/
theorem doCogDelivery_desk (pending : PendingProviderDelivery) :
    ∃ inputs, Step s.desk .delivered [] inputs (s.doCogDelivery pending).desk ∧
      (inputs ≠ [] → s.Takes pending.request) := by
  unfold doCogDelivery
  split
  · exact ⟨[], .answered, absurd rfl⟩
  · rename_i hprovider
    rw [Bool.not_eq_true', Bool.not_eq_false] at hprovider
    split
    · exact ⟨[], .answered, absurd rfl⟩
    · rename_i hserving
      have hopen : s.archived = false := Bool.eq_false_iff.2 fun h => hserving (.inl h)
      have hlive : s.lifecycle = .live := Classical.byContradiction fun h => hserving (.inr h)
      simp only
      split
      · exact ⟨[], .held hlive, absurd rfl⟩
      · rename_i hfree
        have hactive : s.activeProviderDelivery = none := by
          cases h : s.activeProviderDelivery with
          | none => rfl
          | some delivery => exact absurd (.inl (by rw [h]; rfl)) hfree
        generalize hsteer : (decide (s.busy = true ∧ pending.request.provider = .codex ∧
          s.channel.any TransportHandle.supportsSteering = true)) = steer
        have hbusy : steer = s.busy := by
          cases steer with
          | true => exact (of_decide_eq_true hsteer).1.symm
          | false =>
              cases hflag : s.busy with
              | false => rfl
              | true => exact absurd (.inr ⟨hflag, of_decide_eq_false hsteer⟩) hfree
        have haccepts : (s.startProviderDelivery pending steer).2 = true → s.accepts = true :=
          s.accepts_of_start
        rcases s.startProviderDelivery_desk pending steer with
          ⟨-, failure, hdesk⟩ | ⟨hstart, delivery, box, hinbox, hcorrelates, hdesk⟩
        · rw [hdesk]
          exact ⟨[], .answered, absurd rfl⟩
        · rw [hdesk]
          refine ⟨_, .started hlive hactive hinbox ?_ hcorrelates, fun _ => ?_⟩
          · cases steer with
            | true => exact .inr ⟨hbusy.symm, rfl⟩
            | false => exact .inl ⟨hbusy.symm, rfl⟩
          · refine ⟨hprovider, hopen, hlive, hactive, fun hflag => ?_, haccepts hstart⟩
            rw [hbusy, hflag] at hsteer
            exact (of_decide_eq_true hsteer).2

/-- What `doTurnCount` does behind its two records, up to the next
delivery. -/
def settleActive (generation turns : Nat) (outcome : TurnOutcome) : ManagedSession :=
  let terminal := s.activeProviderDelivery.filter fun delivery =>
    decide (delivery.generation = generation ∧ delivery.targetTurnCount ≤ turns)
  let s := if terminal.isSome then { s with activeProviderDelivery := none } else s
  let s := s.setBusy false
  match terminal with
  | some delivery => s.answer delivery.reply (settledResult delivery (turns - 1) outcome)
  | none => s

theorem settleActive_desk (turns : Nat) (outcome : TurnOutcome) :
    (s.settleActive s.channelGeneration turns outcome).desk =
      { s.desk.settled turns outcome with turns := s.turns } := by
  have hterminal : s.desk.terminal turns = s.activeProviderDelivery.filter (fun delivery =>
      decide (delivery.generation = s.channelGeneration ∧ delivery.targetTurnCount ≤ turns)) := rfl
  unfold settleActive Desk.settled
  rw [hterminal]
  cases s.activeProviderDelivery.filter (fun delivery =>
      decide (delivery.generation = s.channelGeneration ∧ delivery.targetTurnCount ≤ turns)) with
  | none =>
      show (s.setBusy false).desk = { s.desk with busy := false, answers := s.desk.answers ++ [] }
      rw [setBusy_desk, List.append_nil]
  | some delivery =>
      let free : ManagedSession := { s with activeProviderDelivery := none }
      have hfree : (free.setBusy false).desk = { s.desk with active := none, busy := false } :=
        free.setBusy_desk false
      show ({ (free.setBusy false).desk with
          answers := (free.setBusy false).desk.answers ++
            [(delivery.reply, settledResult delivery (turns - 1) outcome)] } : Desk) = _
      rw [hfree]
      rfl

/-- What takes a delivery's payload is untouched by it. -/
theorem settleActive_accepts (generation turns : Nat) (outcome : TurnOutcome) :
    (s.settleActive generation turns outcome).accepts = s.accepts := by
  have hidle (s : ManagedSession) : (s.setBusy false).accepts = s.accepts := by
    unfold setBusy
    split <;> rfl
  unfold settleActive
  cases s.activeProviderDelivery.filter (fun delivery =>
      decide (delivery.generation = generation ∧ delivery.targetTurnCount ≤ turns)) with
  | none => exact hidle s
  | some delivery => exact hidle { s with activeProviderDelivery := none }

theorem record_accepts (note : Notification) : (s.record note).accepts = s.accepts := by
  obtain ⟨_, _, _, _, _, _, hpush, -⟩ := s.pushEvent_spec note
  rw [record, hpush]
  rfl

/-- Whether a turn count of this many turns starts a waiting delivery. -/
def StartsNext (turns : Nat) : Prop :=
  s.pendingProviderDeliveries ≠ [] ∧
    (s.activeProviderDelivery = none ∨ (s.desk.terminal turns).isSome = true) ∧ s.accepts = true

instance (turns : Nat) : Decidable (s.StartsNext turns) := by
  unfold StartsNext
  infer_instance

/-- A turn count settles the active delivery and starts the next. -/
theorem doTurnCount_desk (turns : Nat) (outcome : TurnOutcome) :
    ∃ inputs, Step s.desk (.settled turns outcome) [] inputs
        (s.doTurnCount turns outcome).desk ∧
      (inputs ≠ [] ↔ s.StartsNext turns) := by
  let ended : ManagedSession := { s with turns, agentSeq := s.agentSeq + 1 }
  let told := ended.record (.agent
    { sessionId := s.id, generation := s.channelGeneration, turn := turns - 1, seq := s.agentSeq,
      kind := turnEndedKind outcome })
  let settled := told.record (.turnEnded told.id turns s.channelGeneration)
  have hwrite : Files ended.desk [] settled.desk :=
    (ended.files_pushEvent (.agent _)).trans (told.files_pushEvent (.turnEnded told.id turns _))
  obtain ⟨_, _, _, _, hshape⟩ := hwrite.shape
  have hgeneration : settled.channelGeneration = s.channelGeneration :=
    congrArg Desk.generation hshape
  have hturns : settled.turns = turns := congrArg Desk.turns hshape
  let done := settled.settleActive s.channelGeneration turns outcome
  have hcount : s.doTurnCount turns outcome = startNext done done.pendingProviderDeliveries := rfl
  have hsettled : (s.desk.settled turns outcome).Files [] done.desk := by
    have hdesk := settled.settleActive_desk turns outcome
    rw [hgeneration, hturns] at hdesk
    rw [hdesk]
    exact hwrite.under (blind_settled turns outcome)
  have haccepts : done.accepts = s.accepts :=
    (settled.settleActive_accepts _ turns outcome).trans
      ((told.record_accepts _).trans (ended.record_accepts _))
  obtain ⟨_, _, _, _, hdone⟩ := hsettled.shape
  have hwaiting : done.pendingProviderDeliveries = s.pendingProviderDeliveries :=
    congrArg Desk.waiting hdone
  have hidle : done.busy = false := congrArg Desk.busy hdone
  have hactive : done.activeProviderDelivery = none ↔
      s.activeProviderDelivery = none ∨ (s.desk.terminal turns).isSome = true := by
    rw [show done.activeProviderDelivery = _ from congrArg Desk.active hdone]
    show (if (s.desk.terminal turns).isSome = true then none else s.activeProviderDelivery) = none ↔ _
    split
    · rename_i hterminal
      exact ⟨fun _ => .inr hterminal, fun _ => rfl⟩
    · rename_i hterminal
      exact ⟨.inl, fun h => h.resolve_right hterminal⟩
  obtain ⟨inputs, hnext, hinputs⟩ := done.startNext_desk _ rfl
  rw [hcount]
  refine ⟨inputs, .settled hsettled hnext, ?_⟩
  rw [hinputs, hactive, haccepts, hwaiting, hidle, StartsNext]
  simp

/-! ### Lifecycle -/

theorem cancelActive_desk :
    ∃ inputs inbox, Signals s.desk.inbox inputs inbox ∧
      s.cancelActive.desk = { s.desk.cancelActive with inbox } := by
  have hsignals : ∃ inputs, Signals s.desk.inbox inputs
      ((s.channel.map TransportHandle.cancel).map (·.inbox)) := by
    show ∃ inputs, Signals (s.channel.map (·.inbox)) inputs _
    cases s.channel with
    | none => exact ⟨[], .absent⟩
    | some channel =>
        simp only [Option.map_some, TransportHandle.cancel]
        split
        · exact ⟨_, .taken⟩
        · exact ⟨_, .ignored⟩
  obtain ⟨inputs, hsignals⟩ := hsignals
  refine ⟨inputs, _, hsignals, ?_⟩
  cases hactive : s.activeProviderDelivery with
  | none => simp [desk, cancelActive, Desk.cancelActive, hactive]
  | some delivery => simp [desk, cancelActive, Desk.cancelActive, answer, hactive]

theorem doCancel_desk :
    ∃ evs inputs, Step s.desk .cancelled evs inputs s.doCancel.desk := by
  obtain ⟨inputs, inbox, hsignals, hdesk⟩ := s.cancelActive_desk
  let cancelled := s.cancelActive
  have hlifecycle : cancelled.lifecycle = s.lifecycle := congrArg Desk.lifecycle hdesk
  have hpending : cancelled.pendingPrompts = s.pendingPrompts := congrArg Desk.pending hdesk
  let emptied : ManagedSession := { cancelled with pendingPrompts := [], busy := false }
  have hemptied : emptied.desk = { s.desk.cancelActive with inbox, busy := false, pending := [] } := by
    show { cancelled.desk with busy := false, pending := [] } = _
    rw [hdesk]
  have hreject : Files emptied.desk (rejectAll .cancelled s.desk.pending)
      (rejectPending .cancelled "cancelled before agent delivery" emptied
        cancelled.pendingPrompts).desk := by
    rw [hpending]
    exact emptied.files_rejectPending .cancelled "cancelled before agent delivery" s.pendingPrompts
  rw [hemptied] at hreject
  have hunqueued (hdown : s.desk.lifecycle ≠ .live ∧ s.desk.lifecycle ≠ .archived) (cancelled' : ManagedSession)
      (heq : cancelled'.desk = (rejectPending .cancelled "cancelled before agent delivery" emptied
        cancelled.pendingPrompts).desk) :
      ∃ evs inputs, Step s.desk .cancelled evs inputs cancelled'.desk := by
    rw [heq]
    exact ⟨_, _, .unqueued hdown hsignals hreject⟩
  unfold doCancel
  simp only
  split
  case h_4 hspawning hrestarting hdisconnected =>
    rw [hdesk]
    refine ⟨_, _, .cancelled ?_ hsignals⟩
    cases hphase : s.lifecycle with
    | live => exact .inl hphase
    | archived => exact .inr hphase
    | spawning => exact absurd (hlifecycle.trans hphase) hspawning
    | restarting => exact absurd (hlifecycle.trans hphase) hrestarting
    | disconnected => exact absurd (hlifecycle.trans hphase) hdisconnected
  all_goals
    rename_i hphase
    refine hunqueued ?_ _ ?_
    · rw [show s.desk.lifecycle = cancelled.lifecycle from hlifecycle.symm, hphase]
      decide
    · split
      · exact broadcastBusy_desk _ _
      · rfl

/-- A spawn thread that starts leaves the desk as it is. -/
theorem startJob_desk (job : SpawnJob) (threadError : Option String) (could : String)
    (harchived : s.archived = false) (hgeneration : job.expectedGeneration = s.channelGeneration) :
    (s.startJob job threadError could).1.desk = s.desk ∨ ∃ reason,
      (s.desk.down reason).Files (rejectAll .rejected s.desk.pending)
        (s.startJob job threadError could).1.desk := by
  unfold startJob
  cases threadError with
  | none => exact .inl rfl
  | some error =>
      right
      simp only
      rcases s.handleSpawnFailed_desk job.expectedGeneration s!"{could}: {error}" with
        ⟨hpast, -⟩ | ⟨-, -, hdown⟩
      · rcases hpast with harchived' | hother
        · rw [harchived] at harchived'
          cases harchived'
        · exact absurd hgeneration.symm hother
      · exact ⟨_, hdown⟩

theorem doRestart_desk (fate : Fate) :
    ∃ deed evs, Step s.desk deed evs [] (s.doRestart fate).1.desk ∧
      (deed = .quiet ∨ deed = .restarted) := by
  unfold doRestart
  split
  · exact ⟨_, _, .quiet (.refl _), .inl rfl⟩
  · rename_i hopen
    have harchived : s.archived = false := Bool.eq_false_iff.2 hopen
    let fenced : ManagedSession :=
      { s.failProviderDeliveries
          { failureClass := .providerUnavailable, retryable := true,
            message := "provider session is restarting" }
        with channelGeneration := s.channelGeneration + 1, agentSeq := 0, replayFence := 0
             busy := false, lifecycle := .restarting, genWatch := s.channelGeneration + 1
             channel := none }
    let told := (if s.busy then fenced.broadcastBusy false else fenced).broadcastConnected false
    have htold : told.desk = s.desk.restarted := by
      rw [broadcastConnected_desk]
      split
      · exact broadcastBusy_desk fenced false
      · rfl
    have hopen' : told.archived = false := (congrArg Desk.archived htold).trans harchived
    rcases told.startJob_desk
      { cwd := told.cwd, provider := told.provider
        resumeId := s.channel.bind (·.sessionId) <|> s.acpSessionId
        resumeOnly := (s.channel.bind (·.sessionId) <|> s.acpSessionId).isSome
        expectedGeneration := told.channelGeneration, isRespawn := false }
      fate.threadError "could not start restart worker" hopen' rfl with hsame | ⟨reason, hdown⟩
    · have hstep : Step s.desk .restarted [] [] s.desk.restarted := .restarted harchived
      rw [← htold, ← hsame] at hstep
      exact ⟨.restarted, [], hstep, .inr rfl⟩
    · rw [htold] at hdown
      exact ⟨_, _, .notRestarted harchived hdown, .inr rfl⟩

/-! ### Settings -/

/-- The settings of a channel are no part of the desk. -/
theorem withChannel_desk (change : TransportHandle → TransportHandle)
    (hchange : ∀ handle, (change handle).inbox = handle.inbox) :
    ({ s with channel := s.channel.map change } : ManagedSession).desk = s.desk := by
  have hinbox : (s.channel.map change).map (·.inbox) = s.channel.map (·.inbox) := by
    cases s.channel with
    | none => rfl
    | some channel => exact congrArg some (hchange channel)
  show { s.desk with inbox := (s.channel.map change).map (·.inbox) } = s.desk
  rw [hinbox]
  rfl

theorem files_doRename (label : String) (fate : Fate) :
    Files s.desk [] (s.doRename label fate).desk := by
  let renamed := ({ s with label }.appendMetadata (.rename label) fate.reopenError).1
  have happend : Files s.desk [] renamed.desk :=
    files_appendMetadata { s with label } rfl fate.reopenError
  have htold : (s.doRename label fate).desk = renamed.desk := renamed.emit_desk rfl
  rw [htold]
  exact happend

theorem files_doSetPermissionMode (mode : PermissionMode) (fate : Fate) :
    Files s.desk [] (s.doSetPermissionMode mode fate).1.desk := by
  have happend : Files s.desk [] (s.appendMetadata (.permission mode) fate.reopenError).1.desk :=
    s.files_appendMetadata rfl fate.reopenError
  unfold doSetPermissionMode
  split
  · rename_i hwritten
    rw [hwritten] at happend
    exact happend
  · rename_i written hwritten
    rw [hwritten] at happend
    have hset := withChannel_desk { written with permissionMode := mode }
      (fun handle => handle.setPermissionMode mode) fun _ => rfl
    exact hset ▸ happend

theorem files_doSetModel (modelId : String) (fate : Fate) :
    Files s.desk [] (s.doSetModel modelId fate).1.desk := by
  have happend : Files s.desk [] (s.appendMetadata (.model modelId) fate.reopenError).1.desk :=
    s.files_appendMetadata rfl fate.reopenError
  unfold doSetModel
  split
  · exact .refl _
  · split
    · rename_i hwritten
      rw [hwritten] at happend
      exact happend
    · rename_i written hwritten
      rw [hwritten] at happend
      have hset := withChannel_desk { written with modelId := some modelId }
        (fun handle => handle.setModel modelId) fun _ => rfl
      exact hset ▸ happend

theorem files_doRecord (event : ReplyEvent) : Files s.desk [] (s.doRecord event).desk := by
  unfold doRecord
  have hpush (s : ManagedSession) : Files s.desk [] (s.record (.replyEvent s.id event)).desk :=
    s.files_pushEvent (.replyEvent s.id event)
  cases hkind : agentKindFromReply event with
  | some kind => exact (s.files_recordAgent kind).trans (hpush _)
  | none =>
      cases event with
      | replayComplete => exact (s.files_recordAgent replayEndKind).trans (hpush _)
      | _ => exact hpush _

/-! ### Publishing, archiving -/

/-- The half of a publish behind the flush. -/
theorem installChannel_desk (handle : TransportHandle) (isRespawn resumed : Bool) :
    Files { s.desk with
        lifecycle := .live
        inbox := some handle.inbox
        generation := if isRespawn then s.channelGeneration + 1 else s.channelGeneration } []
      (s.installChannel handle isRespawn resumed).desk := by
  obtain ⟨installed, heq, hdesk⟩ : ∃ installed : ManagedSession,
      s.installChannel handle isRespawn resumed =
        (installed.recordAgent (channelOpenedKind resumed)).record
          (.sessionAttached (installed.recordAgent (channelOpenedKind resumed)).id
            handle.sessionId) ∧
      installed.desk = { s.desk with
        lifecycle := .live
        inbox := some handle.inbox
        generation := if isRespawn then s.channelGeneration + 1 else s.channelGeneration } := by
    unfold installChannel
    cases isRespawn
    all_goals
      simp only [Bool.false_eq_true, if_false, if_true]
      by_cases hacp : handle.sessionId.isSome = true
      · rw [if_pos hacp]
        exact ⟨_, rfl, rfl⟩
      · rw [if_neg hacp]
        exact ⟨_, rfl, rfl⟩
  rw [heq, ← hdesk]
  exact (installed.files_recordAgent _).trans
    (files_pushEvent (installed.recordAgent (channelOpenedKind resumed)) (.sessionAttached _ _))

theorem doPublishChannel_desk (handle : TransportHandle) (expectedGeneration : Nat)
    (isRespawn resumed : Bool) (hfresh : handle.inbox = []) :
    ∃ deed evs inputs,
      Step s.desk deed evs inputs
        (s.doPublishChannel handle expectedGeneration isRespawn resumed).1.desk ∧
      (deed = .quiet ∧
          (s.doPublishChannel handle expectedGeneration isRespawn resumed).2 = none ∨
        deed = .published isRespawn ∧ s.channelGeneration = expectedGeneration ∧
          (s.doPublishChannel handle expectedGeneration isRespawn resumed).2.isSome) := by
  unfold doPublishChannel
  split
  · exact ⟨_, _, _, .quiet (.refl _), .inl ⟨rfl, rfl⟩⟩
  · rename_i hcurrent
    have harchived : s.archived = false := Bool.eq_false_iff.2 fun h => hcurrent (.inl h)
    have hexpected : s.channelGeneration = expectedGeneration :=
      Classical.byContradiction fun h => hcurrent (.inr h)
    obtain ⟨evs, hcloses, hflush, hinbox, hback⟩ := flushPending_desk
      { s with busy := false, pendingPrompts := [] } (s.configured handle) s.pendingPrompts
    rcases hflushed : flushPending { s with busy := false, pendingPrompts := [] }
      (s.configured handle) s.pendingPrompts with ⟨flushed, handle', undelivered⟩
    rw [hflushed] at hflush hinbox hback
    have happly : s.applyChannelState handle isRespawn resumed =
        (flushed.installChannel handle' isRespawn resumed, undelivered) := by
      unfold applyChannelState
      rw [hflushed]
    have hconfigured : (s.configured handle).inbox = [] := by
      unfold configured
      split <;> exact hfresh
    have hbox : handle'.inbox =
        (evs.filterMap PromptEvent.delivered?).map fun p => .prompt p.payload none := by
      rw [show handle'.inbox = _ from hinbox, hconfigured]
      rfl
    obtain ⟨_, _, _, _, hshape⟩ := hflush.shape
    have hgeneration : flushed.channelGeneration = s.channelGeneration :=
      congrArg Desk.generation hshape
    have hinstall := flushed.installChannel_desk handle' isRespawn resumed
    rw [hgeneration] at hinstall
    have hpublished : (s.desk.published (evs.filterMap PromptEvent.delivered?) isRespawn).Files
        (evs ++ []) (flushed.installChannel handle' isRespawn resumed).desk := by
      have hboth := (hflush.under (blind_installed handle'.inbox
        (if isRespawn then s.channelGeneration + 1 else s.channelGeneration))).trans hinstall
      rw [hbox] at hboth
      exact hboth
    let told := ((flushed.installChannel handle' isRespawn resumed).broadcastBusy
      (flushed.installChannel handle' isRespawn resumed).busy).broadcastConnected true
    have htold : told.desk = (flushed.installChannel handle' isRespawn resumed).desk := by
      rw [broadcastConnected_desk, broadcastBusy_desk]
    have htell := told.files_tellUndelivered undelivered
    rw [htold, show (undelivered.map fun told => PromptEvent.told told.1) =
      (undelivered.map (·.1)).map .told by rw [List.map_map]; rfl, hback] at htell
    rw [List.append_nil] at hpublished
    simp only [happly]
    exact ⟨_, _, _, .published harchived hcloses rfl (hpublished.trans htell),
      .inr ⟨rfl, hexpected, rfl⟩⟩

theorem endWork_desk :
    Files { s.desk.shelved with generation := s.channelGeneration, inbox := s.endWork.desk.inbox }
      (s.desk.pending.map fun p => .closed p .cancelled) s.endWork.desk := by
  let ended : ManagedSession :=
    { ({ s with channel := s.channel.map TransportHandle.cancel } : ManagedSession
        ).failProviderDeliveries
        { failureClass := .cancelled, retryable := false
          message := "provider session was archived" }
      with archived := true, lifecycle := .archived, busy := false, pendingPrompts := [] }
  have hcancel : Files ended.desk (s.desk.pending.map fun p => .closed p .cancelled)
      s.endWork.desk := ended.files_cancelPending s.pendingPrompts
  obtain ⟨_, _, _, _, hshape⟩ := hcancel.shape
  have hinbox : s.endWork.desk.inbox = ended.desk.inbox := by rw [hshape]
  rw [hinbox]
  exact hcancel

theorem shelve_desk :
    s.shelve.desk = { s.desk with generation := s.channelGeneration + 1, inbox := none
                                  walOpen := false } := by
  unfold shelve
  simp only
  split <;> rfl

/-- A synced write that succeeds meets no fault. -/
theorem walWrite_ok {rec : WalRecord} (h : (s.walWrite rec true).2 = .ok ()) :
    ∀ io ∈ s.walIo.head?, io = .done := by
  intro io hio
  unfold walWrite at h
  cases hlist : s.walIo with
  | nil =>
      rw [hlist] at hio
      cases hio
  | cons first rest =>
      rw [hlist] at hio
      cases hio
      rw [hlist] at h
      cases io with
      | done => rfl
      | lost error => cases h
      | unsynced error => cases h

/-- An archive fails at the file, or shelves the session. -/
theorem doArchive_desk (harchived : s.archived = false) :
    ∃ deed evs, Step s.desk deed evs [] s.doArchive.1.desk ∧
      (deed = .quiet ∨ deed = .shelved ∧ ∀ io ∈ s.walIo.head?, io = .done) := by
  unfold doArchive
  split
  · exact ⟨_, _, .quiet (.refl _), .inl rfl⟩
  · rename_i hclosed
    have hopen : s.walOpen = true := by
      rw [Bool.not_eq_true', Bool.not_eq_false] at hclosed
      exact hclosed
    have hwrite : Files s.desk [] (s.walWrite (.archive true) true).1.desk := s.files_walWrite rfl true
    split
    · rename_i hfailed
      rw [hfailed] at hwrite
      exact ⟨_, _, .quiet hwrite, .inl rfl⟩
    · rename_i written hwritten
      rw [hwritten] at hwrite
      obtain ⟨_, _, _, _, hshape⟩ := hwrite.shape
      have hpending : written.desk.pending = s.desk.pending := by rw [hshape]
      have hgeneration : written.endWork.channelGeneration = written.channelGeneration := by
        obtain ⟨_, _, _, _, hended⟩ := written.endWork_desk.shape
        exact congrArg Desk.generation hended
      have hended := written.endWork_desk.under (blind_fenced (written.channelGeneration + 1))
      rw [hpending] at hended
      have hshelved : s.desk.shelved.Files (s.desk.pending.map fun p => .closed p .cancelled)
          { written.endWork.desk with generation := written.channelGeneration + 1, inbox := none } :=
        (hwrite.under blind_shelved).trans hended
      have hfirst : ∀ io ∈ s.walIo.head?, io = .done := s.walWrite_ok (congrArg Prod.snd hwritten)
      have hstep := Step.shelved harchived hopen hshelved rfl
      have hdesk := written.endWork.shelve_desk
      rw [hgeneration] at hdesk
      rw [← hdesk] at hstep
      simp only
      rw [emit_desk _ rfl, broadcastConnected_desk]
      split
      · rw [broadcastBusy_desk]
        exact ⟨_, _, hstep, .inr ⟨rfl, hfirst⟩⟩
      · exact ⟨_, _, hstep, .inr ⟨rfl, hfirst⟩⟩

theorem doUnarchive_desk (fate : Fate) (harchived : s.archived = true) :
    ∃ deed evs, Step s.desk deed evs [] (s.doUnarchive fate).1.desk ∧
      (deed = .quiet ∨ deed = .reopened) := by
  unfold doUnarchive
  split
  · exact ⟨_, _, .quiet (.refl _), .inl rfl⟩
  · exact ⟨_, _, .quiet (.refl _), .inl rfl⟩
  · rename_i path hpath _
    have hwrite : Files s.desk [] (s.walWrite (.archive false) true).1.desk :=
      s.files_walWrite rfl true
    split
    · rename_i hfailed
      rw [hfailed] at hwrite
      exact ⟨_, _, .quiet hwrite, .inl rfl⟩
    · rename_i written hwritten
      rw [hwritten] at hwrite
      let reopened : ManagedSession :=
        { written with walOpen := true, archived := false, lifecycle := .spawning }
      have hreopened : Files { s.desk with walOpen := true, archived := false, lifecycle := .spawning }
          [] reopened.desk := hwrite.reopen true false .spawning
      have htold : (reopened.emit (.sessionArchived reopened.id false)).desk = reopened.desk :=
        reopened.emit_desk rfl
      have hclosed : s.desk.archived = true ∧ s.desk.walPath.isSome ∧ true = true ∨
          s.desk.archived = false ∧ s.desk.lifecycle = .disconnected ∧ true = s.desk.walOpen := by
        refine .inl ⟨harchived, ?_, rfl⟩
        rw [show s.desk.walPath = some path from hpath]
        rfl
      simp only
      rcases (reopened.emit (.sessionArchived reopened.id false)).startJob_desk
        (reopened.emit (.sessionArchived reopened.id false)).resumeJob fate.threadError
        "could not start lifecycle worker" rfl rfl with hsame | ⟨reason, hdown⟩
      · rw [hsame, htold]
        exact ⟨_, _, .reopened hclosed rfl hreopened, .inr rfl⟩
      · obtain ⟨_, _, _, _, hshape⟩ := hreopened.shape
        have hpending : reopened.desk.pending = s.desk.pending := by rw [hshape]
        rw [htold, hpending] at hdown
        exact ⟨_, _, .notReopened hclosed rfl ((hreopened.under (blind_down reason)).trans hdown),
          .inr rfl⟩

theorem doSetArchived_desk (archived : Bool) (fate : Fate) :
    ∃ deed evs, Step s.desk deed evs [] (s.doSetArchived archived fate).1.desk ∧
      (deed = .quiet ∨
        deed = .shelved ∧ archived = true ∧ (∀ io ∈ s.walIo.head?, io = .done) ∨
        deed = .reopened) := by
  unfold doSetArchived
  split
  · rename_i hsame
    split
    · rename_i hretry
      have hopen : archived = false := by
        rw [Bool.not_eq_true'] at hretry
        exact hretry.1
      have harchived : s.archived = false := hsame.trans hopen
      let retried : ManagedSession := { s with lifecycle := .spawning }
      have hretried : retried.desk =
          { s.desk with walOpen := s.desk.walOpen, archived := false, lifecycle := .spawning } := by
        rw [← harchived]
        rfl
      have hclosed : s.desk.archived = true ∧ s.desk.walPath.isSome ∧ s.desk.walOpen = true ∨
          s.desk.archived = false ∧ s.desk.lifecycle = .disconnected ∧
            s.desk.walOpen = s.desk.walOpen := .inr ⟨harchived, hretry.2, rfl⟩
      simp only
      rcases retried.startJob_desk retried.resumeJob fate.threadError
        "could not start lifecycle worker" harchived rfl with hstart | ⟨reason, hdown⟩
      · rw [hstart, hretried]
        exact ⟨_, _, .reopened hclosed rfl (.refl _), .inr (.inr rfl)⟩
      · rw [hretried] at hdown
        exact ⟨_, _, .notReopened hclosed rfl hdown, .inr (.inr rfl)⟩
    · exact ⟨_, _, .quiet (.refl _), .inl rfl⟩
  · rename_i hother
    split
    · rename_i harchive
      have harchived : s.archived = false := by
        rw [harchive, Bool.not_eq_true] at hother
        exact hother
      obtain ⟨deed, evs, hstep, hdeed⟩ := s.doArchive_desk harchived
      exact ⟨deed, evs, hstep, hdeed.imp_right fun hshelved =>
        .inl ⟨hshelved.1, harchive, hshelved.2⟩⟩
    · rename_i hunarchive
      have harchived : s.archived = true := by
        rw [Bool.not_eq_true] at hunarchive
        rw [hunarchive, Bool.not_eq_false] at hother
        exact hother
      obtain ⟨deed, evs, hstep, hdeed⟩ := s.doUnarchive_desk fate harchived
      exact ⟨deed, evs, hstep, hdeed.imp_right .inr⟩

end ManagedSession

/-! ### The actor -/

/-- The commands a step comes from, and what they say about the inputs
that are handed over. -/
def Desk.Deed.By (s : ManagedSession) (command : Command) (inputs : List WorkerInput) :
    Deed → Prop
  | .quiet => ∀ turns outcome, command ≠ .turnCount s.channelGeneration turns outcome
  | .lost => command.payload?.isSome
  | .prompted => command.payload?.isSome
  | .failed => (∃ generation reason, command = .spawnFailed generation reason) ∨
      ∃ generation, command = .agentDisconnected generation
  | .delivered => ∃ request reply, command = .cogDelivery request reply ∧
      (inputs ≠ [] → request.envelope.providerBlocks.isOk = true ∧ s.Takes request)
  | .cancelled => command = .cancel
  | .restarted => command = .restart
  | .shelved => command = .setArchived true ∧ ∀ io ∈ s.walIo.head?, io = .done
  | .reopened => ∃ archived, command = .setArchived archived
  | .published isRespawn => ∃ handle resumed,
      command = .publishChannel handle s.channelGeneration isRespawn resumed
  | .settled turns outcome => command = .turnCount s.channelGeneration turns outcome ∧
      (inputs ≠ [] ↔ s.StartsNext turns)

/-- A channel is installed. -/
def Desk.Deed.installs : Deed → Bool
  | .published _ => true
  | _ => false

open Desk (Step)

/-- What a command does to the desk of its session, and what it answers. -/
structure ManagedSession.Works (s : ManagedSession) (command : Command)
    (s' : ManagedSession) (reply : Reply) (deed : Desk.Deed) (evs : List PromptEvent)
    (inputs : List WorkerInput) : Prop where
  step : Step s.desk deed evs inputs s'.desk
  by_ : deed.By s command inputs
  /-- Success is answered exactly to the prompts that are admitted. -/
  admits : (evs.filterMap PromptEvent.admitted?).map (·.payload) =
    if reply.succeeds then command.payload?.toList else []
  installs : reply.installs = deed.installs

theorem PromptEvent.Closes.admitted {evs : List PromptEvent} {queue : List PendingPrompt}
    (h : PromptEvent.Closes evs queue) : evs.filterMap PromptEvent.admitted? = [] := by
  induction h with
  | nil => rfl
  | cons hevent _ ih =>
      obtain ⟨outcome, rfl⟩ := hevent
      exact ih

/-- Only a prompt's own command admits it. -/
theorem Desk.Step.admitted {d d' : Desk} {deed : Desk.Deed} {evs : List PromptEvent}
    {inputs : List WorkerInput} (h : Step d deed evs inputs d') (hdeed : deed ≠ .prompted) :
    evs.filterMap PromptEvent.admitted? = [] := by
  cases h with
  | sent | queued | refused => exact absurd rfl hdeed
  | failed | unqueued | notRestarted | notReopened => exact Desk.filterMap_rejectAll _ _
  | shelved =>
      refine List.filterMap_eq_nil_iff.2 fun event hevent => ?_
      obtain ⟨p, -, rfl⟩ := List.mem_map.1 hevent
      rfl
  | published _ hcloses =>
      rw [List.filterMap_append, hcloses.admitted]
      refine List.filterMap_eq_nil_iff.2 fun event hevent => ?_
      obtain ⟨text, -, rfl⟩ := List.mem_map.1 hevent
      rfl
  | _ => rfl

namespace ManagedSession

variable {s s' : ManagedSession} {command : Command} {reply : Reply}

/-- Any step of a command that submits no prompt. -/
theorem works_of_step {deed : Desk.Deed} {evs : List PromptEvent} {inputs : List WorkerInput}
    (hstep : Step s.desk deed evs inputs s'.desk) (hby : deed.By s command inputs)
    (hpayload : command.payload? = none) (hinstalls : reply.installs = deed.installs) :
    ∃ deed evs inputs, s.Works command s' reply deed evs inputs := by
  refine ⟨deed, evs, inputs, hstep, hby, ?_, hinstalls⟩
  have hdeed : deed ≠ .prompted := by
    rintro rfl
    rw [Desk.Deed.By, hpayload] at hby
    cases hby
  rw [hstep.admitted hdeed, hpayload]
  split <;> rfl

/-- A command that leaves the work alone. -/
theorem works_of_files (hfiles : Desk.Files s.desk [] s'.desk) (hpayload : command.payload? = none)
    (hinstalls : reply.installs = false)
    (hcount : ∀ turns outcome, command ≠ .turnCount s.channelGeneration turns outcome) :
    ∃ deed evs inputs, s.Works command s' reply deed evs inputs :=
  works_of_step (.quiet hfiles) hcount hpayload hinstalls

end ManagedSession

open ManagedSession (works_of_step works_of_files)

/-- A command to its session. -/
theorem Manager.applyTo_desk (m : Manager) (s : ManagedSession) (fate : Fate) (command : Command)
    (hshelf : s.archived = true → s.lifecycle = .archived)
    (hopen : command ≠ .close)
    (hfresh : ∀ handle generation isRespawn resumed,
      command = .publishChannel handle generation isRespawn resumed → handle.inbox = []) :
    ∃ s', (m.applyTo s fate command).1.session = some s' ∧
      ∃ deed evs inputs, s.Works command s' (m.applyTo s fate command).2 deed evs inputs := by
  have hprompt (text : String) (images : List ImageAttachment)
      (archivedTo disconnectedTo failed : String)
      {send : TransportHandle → PromptPayload → TransportHandle × Except String Unit}
      (hsend : ManagedSession.Sends send)
      (hpayload : command.payload? = some { text, textBlocks := [], images }) :
      ∃ deed evs inputs, s.Works command
        (s.admitPrompt text images archivedTo disconnectedTo failed send).1
        (.done (s.admitPrompt text images archivedTo disconnectedTo failed send).2)
        deed evs inputs := by
    obtain ⟨admitted, result, deed, evs, inputs, hresult, hstep, hdeed, hadmits⟩ :=
      s.admitPrompt_desk text images archivedTo disconnectedTo failed hsend hshelf
    rw [hresult]
    refine ⟨deed, evs, inputs, hstep, ?_, ?_, ?_⟩
    · rcases hdeed with rfl | rfl | rfl
      · rintro turns outcome rfl
        cases hpayload
      · rw [Desk.Deed.By, hpayload]
        rfl
      · rw [Desk.Deed.By, hpayload]
        rfl
    · rw [hadmits, hpayload]
      cases result <;> rfl
    · rcases hdeed with rfl | rfl | rfl <;> rfl
  have hfailed (generation : Nat) (reason : String)
      (hcommand : (∃ generation reason, command = .spawnFailed generation reason) ∨
        ∃ generation, command = .agentDisconnected generation) :
      ∃ deed evs inputs, s.Works command (s.handleSpawnFailed generation reason) .none
        deed evs inputs := by
    have hpayload : command.payload? = none := by
      rcases hcommand with ⟨_, _, rfl⟩ | ⟨_, rfl⟩ <;> rfl
    have hcount : ∀ turns outcome, command ≠ .turnCount s.channelGeneration turns outcome := by
      rcases hcommand with ⟨_, _, rfl⟩ | ⟨_, rfl⟩ <;> exact nofun
    rcases s.handleSpawnFailed_desk generation reason with ⟨-, hsame⟩ | ⟨hopen, -, hdown⟩
    · rw [hsame]
      exact works_of_files (.refl _) hpayload rfl hcount
    · exact works_of_step (.failed hopen hdown) hcommand hpayload rfl
  cases command with
  | attach cursor => exact ⟨_, rfl, works_of_files (.refl _) rfl rfl nofun⟩
  | detach => exact ⟨_, rfl, works_of_files (.refl _) rfl rfl nofun⟩
  | prompt text images =>
      exact ⟨_, rfl, hprompt text images _ _ _ ManagedSession.sends_sendPayload rfl⟩
  | adminPrompt text =>
      exact ⟨_, rfl, hprompt text [] _ _ _ ManagedSession.sends_sendPayload rfl⟩
  | steer text images =>
      exact ⟨_, rfl, hprompt text images _ _ _ ManagedSession.sends_steerOrReplacePayload rfl⟩
  | cogDelivery request reply =>
      simp only [Manager.applyTo]
      split
      · exact ⟨_, rfl, works_of_step .answered ⟨_, _, rfl, absurd rfl⟩ rfl rfl⟩
      · rename_i blocks hblocks
        obtain ⟨inputs, hstep, htakes⟩ := s.doCogDelivery_desk
          { request, payload := .orderedTextBlocks blocks, reply }
        have hok : request.envelope.providerBlocks.isOk = true := by rw [hblocks]; rfl
        exact ⟨_, rfl, works_of_step hstep ⟨_, _, rfl, fun h => ⟨hok, htakes h⟩⟩ rfl rfl⟩
  | cancel =>
      obtain ⟨evs, inputs, hstep⟩ := s.doCancel_desk
      exact ⟨_, rfl, works_of_step hstep rfl rfl rfl⟩
  | close => exact absurd rfl hopen
  | restart =>
      obtain ⟨deed, evs, hstep, hdeed⟩ := s.doRestart_desk fate
      refine ⟨_, rfl, works_of_step hstep ?_ rfl ?_⟩
      · rcases hdeed with rfl | rfl
        · exact nofun
        · rfl
      · rcases hdeed with rfl | rfl <;> rfl
  | rename label => exact ⟨_, rfl, works_of_files (s.files_doRename label fate) rfl rfl nofun⟩
  | setArchived archived =>
      obtain ⟨deed, evs, hstep, hdeed⟩ := s.doSetArchived_desk archived fate
      refine ⟨_, rfl, works_of_step hstep ?_ rfl ?_⟩
      · rcases hdeed with rfl | ⟨rfl, rfl, hfirst⟩ | rfl
        · exact nofun
        · exact ⟨rfl, hfirst⟩
        · exact ⟨archived, rfl⟩
      · rcases hdeed with rfl | ⟨rfl, -⟩ | rfl <;> rfl
  | setPermissionMode mode =>
      exact ⟨_, rfl, works_of_files (s.files_doSetPermissionMode mode fate) rfl rfl nofun⟩
  | setModel modelId => exact ⟨_, rfl, works_of_files (s.files_doSetModel modelId fate) rfl rfl nofun⟩
  | publishChannel handle generation isRespawn resumed =>
      obtain ⟨deed, evs, inputs, hstep, hdeed⟩ := s.doPublishChannel_desk handle generation
        isRespawn resumed (hfresh handle generation isRespawn resumed rfl)
      refine ⟨_, rfl, works_of_step hstep ?_ rfl ?_⟩
      · rcases hdeed with ⟨rfl, -⟩ | ⟨rfl, hcurrent, -⟩
        · exact nofun
        · exact ⟨handle, resumed, by rw [hcurrent]⟩
      · show (Reply.published (s.doPublishChannel handle generation isRespawn resumed).2).installs
          = _
        rcases hdeed with ⟨rfl, hnone⟩ | ⟨rfl, -, hsome⟩
        · rw [hnone]
          rfl
        · obtain ⟨published, hpublished⟩ := Option.isSome_iff_exists.1 hsome
          rw [hpublished]
          rfl
  | spawnFailed generation reason =>
      exact ⟨_, rfl, hfailed generation reason (.inl ⟨_, _, rfl⟩)⟩
  | agentDisconnected generation =>
      exact ⟨_, rfl, hfailed generation "agent disconnected" (.inr ⟨_, rfl⟩)⟩
  | record generation event =>
      refine ⟨_, rfl, works_of_files ?_ rfl rfl nofun⟩
      split
      · exact .refl _
      · exact s.files_doRecord event
  | turnCount generation turns outcome =>
      by_cases hcurrent : generation ≠ s.channelGeneration
      · refine ⟨_, rfl, works_of_files ?_ rfl rfl ?_⟩
        · rw [if_pos hcurrent]
          exact .refl _
        · rintro _ _ ⟨⟩
          exact hcurrent rfl
      · obtain ⟨inputs, hstep, hstarts⟩ := s.doTurnCount_desk turns outcome
        refine ⟨_, rfl, ?_⟩
        rw [if_neg hcurrent]
        rw [Classical.not_not] at hcurrent
        exact works_of_step hstep ⟨by rw [hcurrent], hstarts⟩ rfl rfl
  | replayDone generation =>
      refine ⟨_, rfl, works_of_files ?_ rfl rfl nofun⟩
      split <;> exact .refl _

end Yaldabaoth
