import Mathlib.Data.List.Perm.Subperm
import Yaldabaoth.Proofs.Session.Crew
import Yaldabaoth.Proofs.Session.Numbering

/-!
# `Yaldabaoth.Proofs.Session.Prompts`: where every prompt goes

A prompt that is admitted is handed to a transport, waits in the queue,
or is given up. `Queues.balance` says so of one command's events, and
`Step.told` that what is given up is reported, unless the session is
archived. With the log file, `Crew.prompts_accounted` is about every
run, and `Crew.prompts_recovered` about every crash of one.
-/

set_option autoImplicit false

namespace Yaldabaoth

open IntentLog (Entry Tidy Keeps opened ended waiting opened_append)

/-- A queued prompt as the log has it. -/
def PendingPrompt.key (p : PendingPrompt) : Nat × PromptPayload := (p.id, p.payload)

/-! ### The events of one command -/

namespace PromptEvent

variable {evs : List PromptEvent} {queue queue' : List PendingPrompt}

/-- What is queued afterwards was queued before or is new, in order. -/
theorem Queues.sublist (h : Queues queue evs queue') :
    queue'.Sublist (queue ++ evs.filterMap admitted?) := by
  induction evs generalizing queue with
  | nil =>
      cases h
      exact List.sublist_append_left _ _
  | cons event rest ih =>
      cases event with
      | queued p =>
          have hrest := ih h
          rw [List.append_assoc] at hrest
          exact hrest
      | closed p outcome =>
          obtain ⟨others, rfl, hothers⟩ := h
          exact (ih hothers).cons p
      | sent p =>
          refine (ih h).trans (List.Sublist.append_left ?_ queue)
          exact List.sublist_cons_self p _
      | lost p => exact ih h
      | refused p => exact ih h
      | told text => exact ih h

/-- Nothing gets lost: what was queued or is new is queued still, was
accepted, or was given up. -/
theorem Queues.balance (h : Queues queue evs queue') :
    (queue ++ evs.filterMap admitted?).Perm
      (queue' ++ evs.filterMap delivered? ++ evs.filterMap dropped?) := by
  induction evs generalizing queue with
  | nil =>
      cases h
      simp
  | cons event rest ih =>
      cases event with
      | queued p =>
          have hrest := ih h
          rw [List.append_assoc] at hrest
          exact hrest
      | sent p =>
          have hrest := (ih h).cons p
          refine List.perm_middle.trans (hrest.trans ?_)
          rw [List.append_assoc, List.append_assoc]
          exact List.perm_middle.symm
      | closed p outcome =>
          obtain ⟨others, rfl, hothers⟩ := h
          have hrest := (ih hothers).cons p
          cases outcome with
          | delivered =>
              refine hrest.trans ?_
              rw [List.append_assoc, List.append_assoc]
              exact List.perm_middle.symm
          | rejected => exact hrest.trans List.perm_middle.symm
          | cancelled => exact hrest.trans List.perm_middle.symm
      | lost p => exact ih h
      | refused p => exact ih h
      | told text => exact ih h

theorem Closes.mem (h : Closes evs queue) {event : PromptEvent} (hevent : event ∈ evs) :
    ∃ p outcome, event = .closed p outcome := by
  induction h with
  | nil => cases hevent
  | cons hhead _ ih =>
      rcases List.mem_cons.1 hevent with rfl | hrest
      · exact ⟨_, hhead⟩
      · exact ih hrest

/-- What only looks at other events finds nothing among closings. -/
theorem Closes.filterMap_eq_nil {β : Type} {f : PromptEvent → Option β}
    (hf : ∀ p outcome, f (.closed p outcome) = none) (h : Closes evs queue) :
    evs.filterMap f = [] := by
  refine List.filterMap_eq_nil_iff.2 fun event hevent => ?_
  obtain ⟨p, outcome, rfl⟩ := h.mem hevent
  exact hf p outcome

theorem filterMap_told {β : Type} {f : PromptEvent → Option β} (hf : ∀ text, f (.told text) = none)
    (texts : List String) : (texts.map told).filterMap f = [] := by
  refine List.filterMap_eq_nil_iff.2 fun event hevent => ?_
  obtain ⟨text, -, rfl⟩ := List.mem_map.1 hevent
  exact hf text

/-- The counter never passes the last number. -/
theorem Numbers.le {next next' : Nat} (h : Numbers next evs next') (hle : next ≤ u64Max) :
    next' ≤ u64Max := by
  induction evs generalizing next with
  | nil =>
      cases h
      exact hle
  | cons event rest ih =>
      refine ih h.2 ?_
      split
      · exact Nat.min_le_right _ _
      · exact hle

/-- Events that number nobody leave the counter as it is. -/
theorem Numbers.same {next next' : Nat} (h : Numbers next evs next')
    (hnone : evs.filterMap numbered? = []) : next' = next := by
  induction evs generalizing next with
  | nil => exact h
  | cons event rest ih =>
      have hhead : event.numbered? = none := by
        cases hevent : event.numbered? with
        | none => rfl
        | some p =>
            rw [List.filterMap_cons_some hevent] at hnone
            cases hnone
      rw [List.filterMap_cons_none hhead] at hnone
      have hrest := h.2
      rw [hhead] at hrest
      exact ih hrest hnone

end PromptEvent

/-! ### The log under one command's events -/

open PromptEvent

/-- Whether the numbers of these events are there to be given. -/
def PromptEvent.Fits (next : Nat) (evs : List PromptEvent) : Prop :=
  next + (evs.filterMap numbered?).length ≤ u64Max

theorem PromptEvent.Fits.head {next : Nat} {event : PromptEvent} {rest : List PromptEvent}
    (h : Fits next (event :: rest)) :
    Fits (if event.numbered?.isSome then saturatingAdd next 1 else next) rest := by
  unfold Fits at h ⊢
  cases hevent : event.numbered? with
  | none =>
      rw [List.filterMap_cons_none hevent] at h
      exact h
  | some p =>
      rw [List.filterMap_cons_some hevent, List.length_cons] at h
      have hnext : saturatingAdd next 1 = next + 1 := by
        unfold saturatingAdd
        omega
      show saturatingAdd next 1 + _ ≤ u64Max
      omega

theorem saturatingAdd_of_lt {next : Nat} (h : next < u64Max) : saturatingAdd next 1 = next + 1 := by
  unfold saturatingAdd
  omega

section

variable {log : List (Entry PromptPayload PromptOutcome)} {next next' : Nat}
  {queue queue' : List PendingPrompt} {evs : List PromptEvent}

/-- Without its head, a queue is the rest of it. -/
theorem filter_head {p : PendingPrompt} {others : List PendingPrompt}
    (h : Tidy log next ((p :: others).map PendingPrompt.key)) :
    ((p :: others).map PendingPrompt.key).filter (fun q => q.1 ≠ p.key.1) =
      others.map PendingPrompt.key := by
  have hdistinct := (List.pairwise_cons.1 h.distinct).1
  rw [List.map_cons, List.filter_cons_of_neg (by simp), List.filter_eq_self]
  intro q hq
  exact decide_eq_true (hdistinct q hq).symm

/-- Without the prompt that was just queued, a queue is what it was. -/
theorem filter_last (h : Tidy log next (queue.map PendingPrompt.key)) {p : PendingPrompt}
    (hp : p.id = next) :
    ((queue ++ [p]).map PendingPrompt.key).filter (fun q => q.1 ≠ p.key.1) =
      queue.map PendingPrompt.key := by
  rw [List.map_append, List.map_singleton, List.filter_append,
    List.filter_cons_of_neg (by simp), List.filter_nil, List.append_nil, List.filter_eq_self]
  intro q hq
  refine decide_eq_true (Nat.ne_of_lt ?_)
  show q.1 < p.id
  rw [hp]
  exact h.queue_lt q hq

/-- The head of a queue is closed, whether or not the record lands. -/
theorem tidy_close {p : PendingPrompt} {others : List PendingPrompt}
    (h : Tidy log next ((p :: others).map PendingPrompt.key)) {outcome : PromptOutcome}
    {written : List (Entry PromptPayload PromptOutcome)}
    (hwritten : written.Sublist [.terminal p.id outcome]) :
    Tidy (log ++ written) next (others.map PendingPrompt.key) := by
  have hhead : p.key ∈ (p :: others).map PendingPrompt.key := List.mem_cons_self
  have hfilter := filter_head h
  rcases List.sublist_singleton.1 hwritten with rfl | rfl
  · have hleft := h.leave p.key.1
    rw [hfilter] at hleft
    rw [List.append_nil]
    exact hleft
  · have hclosed := h.close hhead outcome
    rw [hfilter] at hclosed
    exact hclosed

/-- One event keeps the log tidy, whichever of its records land. -/
theorem tidy_event {event : PromptEvent} (h : Tidy log next (queue.map PendingPrompt.key))
    (hid : ∀ p ∈ event.opens?, p.id = next)
    (hsmall : event.numbered?.isSome → next < u64Max)
    {written : List (Entry PromptPayload PromptOutcome)}
    (hwritten : written.Sublist event.entries) {rest : List PromptEvent}
    (hqueue : Queues queue (event :: rest) queue') :
    ∃ between, Tidy (log ++ written)
        (if event.numbered?.isSome then saturatingAdd next 1 else next)
        (between.map PendingPrompt.key) ∧ Queues between rest queue' := by
  have hpush (p : PendingPrompt) (hp : p.id = next) (hlt : next < u64Max) :
      Tidy log (saturatingAdd next 1) ((queue ++ [p]).map PendingPrompt.key) := by
    rw [saturatingAdd_of_lt hlt, List.map_append, List.map_singleton, PendingPrompt.key, hp]
    exact h.push p.payload
  -- a prompt that never waits is queued and closed at once
  have hat_once (p : PendingPrompt) (outcome : PromptOutcome) (hp : p.id = next)
      (hlt : next < u64Max)
      (hsub : written.Sublist [.intent p.id p.payload, .terminal p.id outcome]) :
      Tidy (log ++ written) (saturatingAdd next 1) (queue.map PendingPrompt.key) := by
    have hfilter := filter_last h hp
    obtain ⟨intents, terminals, rfl, hintents, hterminals⟩ :=
      List.sublist_append_iff.1
        (show written.Sublist ([.intent p.id p.payload] ++ [.terminal p.id outcome]) from hsub)
    have hnone : IntentLog.closed intents = [] := by
      rcases List.sublist_singleton.1 hintents with rfl | rfl <;> rfl
    have hqueued := (hpush p hp hlt).stray hnone
    rw [← List.append_assoc]
    rcases List.sublist_singleton.1 hterminals with rfl | rfl
    · have hleft := hqueued.leave p.key.1
      rw [hfilter] at hleft
      rw [List.append_nil]
      exact hleft
    · have hmem : p.key ∈ (queue ++ [p]).map PendingPrompt.key := by simp
      have hclosed := hqueued.close hmem outcome
      rw [hfilter] at hclosed
      exact hclosed
  cases event with
  | lost p =>
      have hnone : IntentLog.closed written = [] := by
        rcases List.sublist_singleton.1 hwritten with rfl | rfl <;> rfl
      exact ⟨queue, h.stray hnone, hqueue⟩
  | queued p =>
      have hnone : IntentLog.closed written = [] := by
        rcases List.sublist_singleton.1 hwritten with rfl | rfl <;> rfl
      exact ⟨queue ++ [p], (hpush p (hid p rfl) (hsmall rfl)).stray hnone, hqueue⟩
  | sent p => exact ⟨queue, hat_once p _ (hid p rfl) (hsmall rfl) hwritten, hqueue⟩
  | refused p => exact ⟨queue, hat_once p _ (hid p rfl) (hsmall rfl) hwritten, hqueue⟩
  | closed p outcome =>
      obtain ⟨others, rfl, hothers⟩ := hqueue
      exact ⟨others, tidy_close h hwritten, hothers⟩
  | told text =>
      have hnil : written = [] := List.sublist_nil.1 hwritten
      rw [hnil, List.append_nil]
      exact ⟨queue, h, hqueue⟩

/-- The number of an event is there to be given. -/
theorem PromptEvent.Fits.lt {event : PromptEvent} {rest : List PromptEvent}
    (h : Fits next (event :: rest)) : event.numbered?.isSome → next < u64Max := by
  intro hsome
  obtain ⟨p, hp⟩ := Option.isSome_iff_exists.1 hsome
  unfold Fits at h
  rw [List.filterMap_cons_some hp, List.length_cons] at h
  omega

theorem tidy_events (h : Tidy log next (queue.map PendingPrompt.key))
    (hnumbers : Numbers next evs next') (hfits : Fits next evs) (hqueue : Queues queue evs queue')
    {written : List (Entry PromptPayload PromptOutcome)}
    (hwritten : written.Sublist (evs.flatMap entries)) :
    Tidy (log ++ written) next' (queue'.map PendingPrompt.key) := by
  induction evs generalizing log next queue written with
  | nil =>
      cases hnumbers
      cases hqueue
      have hnil : written = [] := List.sublist_nil.1 hwritten
      rw [hnil, List.append_nil]
      exact h
  | cons event rest ih =>
      rw [List.flatMap_cons] at hwritten
      obtain ⟨first, others, rfl, hfirst, hothers⟩ := List.sublist_append_iff.1 hwritten
      obtain ⟨between, htidy, hbetween⟩ := tidy_event h hnumbers.1 hfits.lt hfirst hqueue
      have hrest := ih htidy hnumbers.2 hfits.head hbetween hothers
      rw [← List.append_assoc]
      exact hrest

/-! ### The same while every record lands -/

/-- The head of a queue is closed, and its record lands. -/
theorem keeps_close {p : PendingPrompt} {others : List PendingPrompt}
    (h : Keeps log next ((p :: others).map PendingPrompt.key)) (outcome : PromptOutcome) :
    Keeps (log ++ [.terminal p.id outcome]) next (others.map PendingPrompt.key) := by
  have hhead : p.key ∈ (p :: others).map PendingPrompt.key := List.mem_cons_self
  have hclosed := h.close hhead outcome
  rw [filter_head h.toTidy] at hclosed
  exact hclosed

/-- One event keeps the queue and the log in step, and ends what it
delivers. -/
theorem keeps_event {event : PromptEvent} (h : Keeps log next (queue.map PendingPrompt.key))
    (hid : ∀ p ∈ event.opens?, p.id = next) (hsmall : event.numbered?.isSome → next < u64Max)
    (hlost : ∀ p, event ≠ .lost p) {rest : List PromptEvent}
    (hqueue : Queues queue (event :: rest) queue') :
    ∃ between, Keeps (log ++ event.entries)
        (if event.numbered?.isSome then saturatingAdd next 1 else next)
        (between.map PendingPrompt.key) ∧ Queues between rest queue' ∧
      (ended PromptOutcome.delivered (log ++ event.entries)).Perm
        (ended .delivered log ++ event.delivered?.toList.map PendingPrompt.key) := by
  have hpush (p : PendingPrompt) (hp : p.id = next) (hlt : next < u64Max) :
      Keeps (log ++ [.intent p.id p.payload]) (saturatingAdd next 1)
          ((queue ++ [p]).map PendingPrompt.key) ∧
        ended PromptOutcome.delivered (log ++ [.intent p.id p.payload]) =
          ended .delivered log := by
    rw [saturatingAdd_of_lt hlt, List.map_append, List.map_singleton, PendingPrompt.key, hp]
    exact ⟨h.push p.payload, h.ended_push p.payload⟩
  have hat_once (p : PendingPrompt) (outcome : PromptOutcome) (hp : p.id = next)
      (hlt : next < u64Max) :
      Keeps (log ++ [.intent p.id p.payload, .terminal p.id outcome]) (saturatingAdd next 1)
          (queue.map PendingPrompt.key) ∧
        (ended PromptOutcome.delivered
            (log ++ [.intent p.id p.payload, .terminal p.id outcome])).Perm
          (ended .delivered log ++ if outcome = .delivered then [p.key] else []) := by
    obtain ⟨hqueued, hended⟩ := hpush p hp hlt
    have hmem : p.key ∈ (queue ++ [p]).map PendingPrompt.key := by simp
    have hfilter := filter_last h.toTidy hp
    have hclosed := hqueued.close hmem outcome
    have hends := hqueued.ended_close hmem PromptOutcome.delivered outcome
    rw [hfilter, List.append_assoc] at hclosed
    rw [hended, List.append_assoc] at hends
    exact ⟨hclosed, hends⟩
  cases event with
  | lost p => exact absurd rfl (hlost p)
  | queued p =>
      obtain ⟨hkeeps, hended⟩ := hpush p (hid p rfl) (hsmall rfl)
      refine ⟨queue ++ [p], hkeeps, hqueue, ?_⟩
      rw [show entries (.queued p) = [.intent p.id p.payload] from rfl, hended]
      exact .of_eq (List.append_nil _).symm
  | sent p =>
      obtain ⟨hkeeps, hended⟩ := hat_once p .delivered (hid p rfl) (hsmall rfl)
      exact ⟨queue, hkeeps, hqueue, hended⟩
  | refused p =>
      obtain ⟨hkeeps, hended⟩ := hat_once p .rejected (hid p rfl) (hsmall rfl)
      exact ⟨queue, hkeeps, hqueue, hended⟩
  | closed p outcome =>
      obtain ⟨others, rfl, hothers⟩ := hqueue
      have hmem : p.key ∈ (p :: others).map PendingPrompt.key := List.mem_cons_self
      have hends := h.ended_close hmem PromptOutcome.delivered outcome
      refine ⟨others, keeps_close h outcome, hothers, ?_⟩
      cases outcome <;> exact hends
  | told text =>
      rw [show entries (.told text) = [] from rfl, List.append_nil]
      exact ⟨queue, h, hqueue, .of_eq (List.append_nil _).symm⟩

theorem keeps_events (h : Keeps log next (queue.map PendingPrompt.key))
    (hnumbers : Numbers next evs next') (hfits : Fits next evs) (hlost : ∀ p, .lost p ∉ evs)
    (hqueue : Queues queue evs queue') :
    Keeps (log ++ evs.flatMap entries) next' (queue'.map PendingPrompt.key) ∧
      (ended PromptOutcome.delivered (log ++ evs.flatMap entries)).Perm
        (ended .delivered log ++ (evs.filterMap delivered?).map PendingPrompt.key) := by
  induction evs generalizing log next queue with
  | nil =>
      cases hnumbers
      cases hqueue
      rw [List.flatMap_nil, List.append_nil]
      exact ⟨h, .of_eq (List.append_nil _).symm⟩
  | cons event rest ih =>
      have hhead : ∀ p, event ≠ .lost p := by
        rintro p rfl
        exact hlost p List.mem_cons_self
      have htail : ∀ p, .lost p ∉ rest := fun p hp => hlost p (List.mem_cons_of_mem event hp)
      obtain ⟨between, hkeeps, hbetween, hends⟩ :=
        keeps_event h hnumbers.1 hfits.lt hhead hqueue
      obtain ⟨hrest, hrestEnds⟩ := ih hkeeps hnumbers.2 hfits.head htail hbetween
      have hdelivered : (event :: rest).filterMap delivered? =
          event.delivered?.toList ++ rest.filterMap delivered? := by
        cases hevent : event.delivered? with
        | none => rw [List.filterMap_cons_none hevent]; rfl
        | some p => rw [List.filterMap_cons_some hevent]; rfl
      rw [List.flatMap_cons, ← List.append_assoc, hdelivered, List.map_append, ← List.append_assoc]
      exact ⟨hrest, hrestEnds.trans (hends.append_right _)⟩

end

/-! ### The steps at the desk -/

namespace Desk

variable {d d' : Desk} {deed : Deed} {evs : List PromptEvent} {inputs : List WorkerInput}

/-- What a step does to the log, the counter and the rejections told. -/
structure Logged (d : Desk) (evs : List PromptEvent) (d' : Desk) : Prop where
  log : ∃ written, d'.log = d.log ++ written ∧ written.Sublist (evs.flatMap entries) ∧
    (d.Sane → d.walPath.isSome = true → Clean d.walIo →
      written = evs.flatMap entries ∧ ∀ p, .lost p ∉ evs)
  numbers : Numbers d.nextPromptId evs d'.nextPromptId
  rejections : d'.rejections.Perm (d.rejections ++ evs.filterMap told?)

/-- Filing on top of a change that leaves the log alone. -/
theorem Files.logged {base : Desk} (h : base.Files evs d') (hlog : base.log = d.log)
    (hwalIo : base.walIo = d.walIo) (hnext : base.nextPromptId = d.nextPromptId)
    (hrejections : base.rejections = d.rejections)
    (hopen : d.Sane → d.walPath.isSome = true → base.walOpen = true) : d.Logged evs d' where
  log := by
    obtain ⟨written, hwritten, hsublist, hall⟩ := h.log
    rw [hlog] at hwritten
    rw [hwalIo] at hall
    refine ⟨written, hwritten, hsublist, fun hsane hpath hclean => ?_⟩
    refine ⟨hall (hopen hsane hpath) hclean, (h.clean ?_).2⟩
    rw [hwalIo]
    exact hclean
  numbers := hnext ▸ h.numbers
  rejections := hrejections ▸ h.rejections

/-- The same where nothing is filed. -/
theorem Logged.nothing (hlog : d'.log = d.log) (hnext : d'.nextPromptId = d.nextPromptId)
    (hrejections : d'.rejections = d.rejections) : d.Logged [] d' where
  log := ⟨[], by rw [hlog, List.append_nil], List.nil_sublist _, fun _ _ _ => ⟨rfl, nofun⟩⟩
  numbers := hnext
  rejections := .of_eq (by rw [hrejections]; exact (List.append_nil _).symm)

theorem Step.logged (h : Step d deed evs inputs d') : d.Logged evs d' := by
  cases h with
  | quiet files =>
      refine ⟨?_, files.numbers, files.rejections⟩
      obtain ⟨written, hwritten, hsublist, -⟩ := files.log
      exact ⟨written, hwritten, hsublist, fun _ _ _ => ⟨List.sublist_nil.1 hsublist, nofun⟩⟩
  | @lost _ p files =>
      refine ⟨?_, files.numbers, files.rejections⟩
      obtain ⟨written, hwritten, hsublist, -⟩ := files.log
      refine ⟨written, hwritten, hsublist, fun _ _ hclean => ?_⟩
      exact absurd List.mem_cons_self ((files.clean hclean).2 p)
  | sent live _ _ _ files =>
      refine files.logged rfl rfl rfl rfl fun hsane hpath => hsane.file ?_ hpath
      refine Bool.eq_false_iff.2 fun hshelf => ?_
      rw [hsane.shelf.1 hshelf] at live
      cases live
  | queued spawning _ files =>
      refine files.logged rfl rfl rfl rfl fun hsane hpath => hsane.file ?_ hpath
      refine Bool.eq_false_iff.2 fun hshelf => ?_
      rw [hsane.shelf.1 hshelf] at spawning
      rcases spawning with h | h <;> cases h
  | refused open_ files => exact files.logged rfl rfl rfl rfl fun hsane hpath => hsane.file open_ hpath
  | failed open_ files => exact files.logged rfl rfl rfl rfl fun hsane hpath => hsane.file open_ hpath
  | answered => exact .nothing rfl rfl rfl
  | held _ => exact .nothing rfl rfl rfl
  | started _ _ _ _ _ => exact .nothing rfl rfl rfl
  | cancelled _ _ => exact .nothing rfl rfl rfl
  | unqueued down _ files =>
      refine files.logged rfl rfl rfl rfl fun hsane hpath => hsane.file ?_ hpath
      exact Bool.eq_false_iff.2 fun hshelf => down.2 (hsane.shelf.1 hshelf)
  | restarted _ => exact .nothing rfl rfl rfl
  | notRestarted open_ files =>
      exact files.logged rfl rfl rfl rfl fun hsane hpath => hsane.file open_ hpath
  | shelved _ file files eq =>
      have hlogged : d.Logged _ _ := files.logged rfl rfl rfl rfl fun _ _ => file
      rw [eq]
      exact ⟨hlogged.log, hlogged.numbers, hlogged.rejections⟩
  | reopened closed eq files =>
      refine files.logged (by rw [eq]) (by rw [eq]) (by rw [eq]) (by rw [eq]) fun hsane hpath => ?_
      rw [eq]
      rcases closed with ⟨-, -, h⟩ | ⟨h, -, hsame⟩
      · exact h
      · exact hsame.trans (hsane.file h hpath)
  | notReopened closed eq files =>
      rw [eq] at files
      refine files.logged rfl rfl rfl rfl fun hsane hpath => ?_
      rcases closed with ⟨-, -, h⟩ | ⟨h, -, hsame⟩
      · exact h
      · exact hsame.trans (hsane.file h hpath)
  | published open_ _ _ files =>
      exact files.logged rfl rfl rfl rfl fun hsane hpath => hsane.file open_ hpath
  | settled files next =>
      have heffect := next.effect
      obtain ⟨written, hwritten, hsublist, -⟩ := files.log
      have hnil : written = [] := List.sublist_nil.1 hsublist
      rw [hnil, List.append_nil] at hwritten
      refine ⟨⟨[], ?_, List.nil_sublist _, fun _ _ _ => ⟨rfl, nofun⟩⟩, ?_, ?_⟩
      · rw [heffect.log, hwritten, List.append_nil]
        rfl
      · rw [heffect.nextPromptId]
        exact files.numbers
      · rw [heffect.rejections]
        exact files.rejections

theorem Closes.of_map_cancelled (queue : List PendingPrompt) :
    PromptEvent.Closes (queue.map fun p => .closed p .cancelled) queue := by
  induction queue with
  | nil => exact .nil
  | cons p rest ih => exact .cons ⟨_, rfl⟩ ih

theorem Step.queues (h : Step d deed evs inputs d') : Queues d.pending evs d'.pending := by
  cases h with
  | quiet files | lost files =>
      rw [files.still.pending]
      rfl
  | sent _ _ _ _ files =>
      rw [files.still.pending]
      rfl
  | queued _ _ files =>
      rw [files.still.pending]
      rfl
  | refused _ files =>
      rw [files.still.pending]
      exact queues_rejections .rejected d.pending
  | failed _ files | notRestarted _ files =>
      rw [files.still.pending]
      exact queues_rejections .rejected d.pending
  | answered => rfl
  | held _ => rfl
  | started _ _ _ _ _ => rfl
  | cancelled _ _ => rfl
  | unqueued _ _ files =>
      rw [files.still.pending]
      exact queues_rejections .cancelled d.pending
  | restarted _ => rfl
  | shelved _ _ files eq =>
      have hqueues := (Closes.of_map_cancelled d.pending).queues []
      rw [List.map_nil, List.append_nil] at hqueues
      rw [eq]
      show Queues d.pending _ _
      rw [files.still.pending]
      exact hqueues
  | reopened _ eq files =>
      rw [files.still.pending, eq]
      rfl
  | notReopened _ _ files =>
      rw [files.still.pending]
      exact queues_rejections .rejected d.pending
  | published _ closes _ files =>
      rw [files.still.pending]
      exact closes.queues _
  | settled files next =>
      rw [next.effect.pending, files.still.pending]
      rfl

/-- What the channel is handed of users' prompts is what the events say
it accepted. -/
theorem Step.payloads (h : Step d deed evs inputs d') :
    inputs.filterMap WorkerInput.userPayload? = (evs.filterMap delivered?).map (·.payload) := by
  have hrejected (outcome : PromptOutcome) (houtcome : outcome ≠ .delivered)
      (queue : List PendingPrompt) : (rejectAll outcome queue).filterMap delivered? = [] := by
    refine List.filterMap_eq_nil_iff.2 fun event hevent => ?_
    obtain ⟨p, -, hmem⟩ := List.mem_flatMap.1 hevent
    simp only [rejection, List.mem_cons, List.not_mem_nil, or_false] at hmem
    rcases hmem with rfl | rfl
    · cases outcome with
      | delivered => exact absurd rfl houtcome
      | rejected | cancelled => rfl
    · rfl
  have hsignals {before after : Option (List WorkerInput)} (hs : Signals before inputs after) :
      inputs.filterMap WorkerInput.userPayload? = [] := by
    cases hs <;> rfl
  cases h with
  | quiet _ => rfl
  | lost _ => rfl
  | sent _ _ payload _ _ => exact payload
  | queued _ _ _ => rfl
  | refused _ _ =>
      show [] = List.map _ ((rejectAll .rejected d.pending).filterMap delivered?)
      rw [hrejected .rejected (by decide)]
      rfl
  | failed _ _ | notRestarted _ _ | notReopened _ _ _ =>
      rw [hrejected .rejected (by decide)]
      rfl
  | answered => rfl
  | held _ => rfl
  | started _ _ _ input_eq _ =>
      rcases input_eq with ⟨-, rfl⟩ | ⟨-, rfl⟩ <;> rfl
  | cancelled _ signals => exact hsignals signals
  | unqueued _ signals _ =>
      rw [hrejected .cancelled (by decide)]
      exact hsignals signals
  | restarted _ => rfl
  | shelved _ _ _ _ =>
      rw [List.filterMap_map]
      have hnone : d.pending.filterMap (delivered? ∘ fun p => .closed p .cancelled) = [] :=
        List.filterMap_eq_nil_iff.2 fun _ _ => rfl
      rw [hnone]
      rfl
  | reopened _ _ _ => rfl
  | published _ _ handed _ =>
      rw [handed, List.filterMap_append, filterMap_told fun _ => rfl, List.append_nil,
        List.filterMap_map]
      exact congrFun List.filterMap_eq_map _
  | settled _ next => exact next.effect.payloads

theorem Step.of_shelved (h : Step d .shelved evs inputs d') :
    d.archived = false ∧ d.walOpen = true ∧
      evs = d.pending.map fun p => .closed p .cancelled := by
  cases h with
  | shelved open_ file _ _ => exact ⟨open_, file, rfl⟩

/-- What is given up is reported, unless it is archived. -/
theorem Step.told (h : Step d deed evs inputs d') (hdeed : deed ≠ .shelved) :
    evs.filterMap told? = (evs.filterMap dropped?).map (·.payload.text) := by
  have hrejected (outcome : PromptOutcome) (houtcome : outcome ≠ .delivered)
      (queue : List PendingPrompt) : (rejectAll outcome queue).filterMap told? =
        ((rejectAll outcome queue).filterMap dropped?).map (·.payload.text) := by
    induction queue with
    | nil => rfl
    | cons p rest ih =>
        cases outcome with
        | delivered => exact absurd rfl houtcome
        | rejected | cancelled => exact congrArg (p.payload.text :: ·) ih
  cases h with
  | refused _ _ => exact hrejected .rejected nofun d.pending
  | failed _ _ | notRestarted _ _ | notReopened _ _ _ => exact hrejected .rejected nofun d.pending
  | unqueued _ _ _ => exact hrejected .cancelled nofun d.pending
  | shelved _ _ _ _ => exact absurd rfl hdeed
  | published _ closes _ _ =>
      have htexts (texts : List String) : (texts.map PromptEvent.told).filterMap told? = texts := by
        rw [List.filterMap_map]
        exact List.filterMap_some
      have hcloses := closes.filterMap_eq_nil (f := told?) fun _ _ => rfl
      rw [List.filterMap_append, List.filterMap_append, filterMap_told (f := dropped?) fun _ => rfl,
        htexts, hcloses, List.append_nil]
      rfl
  | _ => rfl

/-- Only a prompt's own command numbers, and only that prompt. -/
theorem Step.fits (h : Step d deed evs inputs d') (hle : d.nextPromptId ≤ u64Max)
    (hsmall : deed = .prompted → d.nextPromptId < u64Max) : Fits d.nextPromptId evs := by
  have hnothing (hnone : evs.filterMap numbered? = []) : Fits d.nextPromptId evs := by
    unfold Fits
    rw [hnone]
    exact hle
  have hrejected (outcome : PromptOutcome) (queue : List PendingPrompt) :
      (rejectAll outcome queue).filterMap numbered? = [] := by
    refine List.filterMap_eq_nil_iff.2 fun event hevent => ?_
    obtain ⟨p, -, hmem⟩ := List.mem_flatMap.1 hevent
    simp only [rejection, List.mem_cons, List.not_mem_nil, or_false] at hmem
    rcases hmem with rfl | rfl <;> rfl
  cases h with
  | sent _ _ _ _ _ => exact hsmall rfl
  | queued _ _ _ => exact hsmall rfl
  | @refused _ p _ _ _ =>
      unfold Fits
      rw [List.filterMap_cons_some (show numbered? (.refused p) = some p from rfl),
        hrejected .rejected d.pending]
      exact hsmall rfl
  | failed _ _ | unqueued _ _ _ | notRestarted _ _ | notReopened _ _ _ => exact hnothing (hrejected _ _)
  | shelved _ _ _ _ =>
      refine hnothing (List.filterMap_eq_nil_iff.2 fun event hevent => ?_)
      obtain ⟨p, -, rfl⟩ := List.mem_map.1 hevent
      rfl
  | published _ closes _ _ =>
      refine hnothing ?_
      rw [List.filterMap_append, filterMap_told fun _ => rfl, List.append_nil]
      exact closes.filterMap_eq_nil fun _ _ => rfl
  | _ => exact hnothing rfl

end Desk

/-! ### What a file says -/

/-- The numbers of the intents of a file, and those it closes. -/
theorem opened_entries (disk : List WalRecord) :
    opened (disk.filterMap WalRecord.entry?) =
      (disk.filterMap WalRecord.intent?).map fun intent => (intent.id, intent.payload) := by
  rw [opened, List.filterMap_filterMap, List.map_filterMap]
  congr 1
  funext rec
  cases rec <;> rfl

theorem closed_entries (disk : List WalRecord) :
    IntentLog.closed (disk.filterMap WalRecord.entry?) = disk.filterMap WalRecord.terminalId? := by
  rw [IntentLog.closed, List.filterMap_filterMap]
  congr 1
  funext rec
  cases rec <;> rfl

/-- Every number of a file is that of an intent or of a terminal
record. -/
theorem promptId_of_opened {disk : List WalRecord} {p : Nat × PromptPayload}
    (h : p ∈ opened (disk.filterMap WalRecord.entry?)) :
    p.1 ∈ disk.filterMap WalRecord.promptId? := by
  obtain ⟨entry, hentry, hopened⟩ := List.mem_filterMap.1 h
  obtain ⟨rec, hrec, hentry⟩ := List.mem_filterMap.1 hentry
  refine List.mem_filterMap.2 ⟨rec, hrec, ?_⟩
  cases rec <;> cases hentry <;> cases hopened
  rfl

theorem promptId_of_closed {disk : List WalRecord} {id : Nat}
    (h : id ∈ IntentLog.closed (disk.filterMap WalRecord.entry?)) :
    id ∈ disk.filterMap WalRecord.promptId? := by
  rw [closed_entries] at h
  obtain ⟨rec, hrec, hid⟩ := List.mem_filterMap.1 h
  refine List.mem_filterMap.2 ⟨rec, hrec, ?_⟩
  cases rec <;> cases hid
  rfl

/-- What a recovery says about prompts. -/
theorem recoverRecords_prompts {path : PathBuf} {disk : List WalRecord} {rs : RecoveredSession}
    (h : recoverRecords path disk = .ok (some rs)) :
    (rs.pendingPrompts = (disk.filterMap WalRecord.intent?).filter fun intent =>
        intent.id ∉ disk.filterMap WalRecord.terminalId?) ∧
      rs.nextPromptId ≤ u64Max ∧
      ∀ id ∈ disk.filterMap WalRecord.promptId?, id < u64Max → id < rs.nextPromptId := by
  unfold recoverRecords at h
  split at h
  · cases h
  · rename_i header _
    unfold summarise at h
    split at h
    · cases h
    · cases h
      refine ⟨?_, ?_, fun id hid hlt => ?_⟩
      · refine List.filter_congr fun intent _ => ?_
        simp only [settingsOf, List.contains_eq_mem, List.mem_reverse, decide_not]
      · dsimp only [settingsOf]
        split
        · decide
        · exact Nat.min_le_right _ _
      · dsimp only [settingsOf]
        split
        · rename_i hnone
          rw [eq_nil_of_highest_eq_none hnone] at hid
          cases hid
        · rename_i top htop
          have hle := le_of_highest htop id hid
          exact Nat.lt_min.2 ⟨Nat.lt_succ_of_le hle, hlt⟩

/-- The recovered queue is what waits according to the records. -/
theorem recovered_waiting {path : PathBuf} {disk : List WalRecord} {rs : RecoveredSession}
    (h : recoverRecords path disk = .ok (some rs)) :
    (rs.pendingPrompts.map fun p => (p.id, p.payload)) =
      waiting (disk.filterMap WalRecord.entry?) := by
  rw [(recoverRecords_prompts h).1, waiting, opened_entries, closed_entries, List.filter_map]
  rfl

/-! ### No prompt vanishes -/

namespace Crew

/-- A command that archives. -/
def archives : Command → Bool
  | .setArchived archived => archived
  | _ => false

/-- The steps after which every prompt is accounted for. Prompts are
numbered as long as there are numbers; no session is archived while
prompts are queued; and a restart finds every queued prompt under a
number of its own. -/
def Reported (c : Crew) : CrewAct → Prop
  | .command command fate => ∀ s ∈ c.session,
      (command.payload?.isSome = true → s.nextPromptId < u64Max) ∧
      (archives command = true → s.archived = false → s.walOpen = true →
        (∀ io ∈ fate.walIo.head?, io = .done) → s.pendingPrompts = [])
  | .crash kept => ((c.recovered kept).map (·.id)).Nodup
  | _ => True

instance (c : Crew) : DecidablePred (Reported c)
  | .command .. | .turnCount _ | .crash _ | .create .. | .hangUp .. | .turnEnds _ => by
      dsimp only [Reported]
      infer_instance

/-- Every admitted prompt is accounted for. -/
structure Accounted (c : Crew) (d : Desk) : Prop where
  tidy : Tidy d.log d.nextPromptId (d.pending.map PendingPrompt.key)
  counter : d.nextPromptId ≤ u64Max
  opened_lt : ∀ p ∈ opened d.log, p.1 < u64Max
  order : (d.pending.map (·.payload)).Sublist c.admitted
  balance : ∃ rejected : List PromptPayload,
    c.admitted.Perm (c.accepted.filterMap WorkerInput.userPayload? ++ d.pending.map (·.payload) ++
      rejected) ∧
    (rejected.map (·.text)).Subperm d.rejections

/-- The fates of writes are no matter of accounts. -/
theorem Accounted.facing {c : Crew} {s : ManagedSession} (h : c.Accounted s.desk)
    (walIo : List WalWrite) : c.Accounted ({ s with walIo } : ManagedSession).desk :=
  ⟨h.tidy, h.counter, h.opened_lt, h.order, h.balance⟩

/-- The intents a step writes are numbered from the counter on. -/
theorem opened_lt_of_step {d d' : Desk} {deed : Desk.Deed} {evs : List PromptEvent}
    {inputs : List WorkerInput} (h : Desk.Step d deed evs inputs d')
    (hsmall : deed = .lost ∨ deed = .prompted → d.nextPromptId < u64Max) :
    ∀ p ∈ opened (evs.flatMap entries), p.1 < u64Max := by
  have hnumbers := h.logged.numbers
  have hrejected (outcome : PromptOutcome) (queue : List PendingPrompt) :
      opened ((Desk.rejectAll outcome queue).flatMap entries) = [] := by
    induction queue with
    | nil => rfl
    | cons p rest ih => exact ih
  have hclosings (events : List PromptEvent) (hnone : ∀ e ∈ events, e.opens? = none) :
      opened (events.flatMap entries) = [] := by
    induction events with
    | nil => rfl
    | cons e rest ih =>
        have hhead := hnone e List.mem_cons_self
        rw [List.flatMap_cons, opened_append, ih fun e' he' => hnone e' (List.mem_cons_of_mem e he')]
        cases e <;> first | rfl | cases hhead
  intro p hp
  cases h with
  | quiet _ => cases hp
  | lost _ =>
      rw [List.mem_singleton.1 hp]
      exact (hnumbers.1 _ rfl).symm ▸ hsmall (.inl rfl)
  | sent _ _ _ _ _ =>
      rw [List.mem_singleton.1 hp]
      exact (hnumbers.1 _ rfl).symm ▸ hsmall (.inr rfl)
  | queued _ _ _ =>
      rw [List.mem_singleton.1 hp]
      exact (hnumbers.1 _ rfl).symm ▸ hsmall (.inr rfl)
  | refused _ _ =>
      rw [List.flatMap_cons, opened_append, hrejected, List.append_nil] at hp
      rw [List.mem_singleton.1 hp]
      exact (hnumbers.1 _ rfl).symm ▸ hsmall (.inr rfl)
  | failed _ _ | unqueued _ _ _ | notRestarted _ _ | notReopened _ _ _ =>
      rw [hrejected] at hp
      cases hp
  | shelved _ _ _ _ =>
      rw [hclosings _ fun e he => ?_] at hp
      · cases hp
      · obtain ⟨q, -, rfl⟩ := List.mem_map.1 he
        rfl
  | published _ closes _ _ =>
      rw [hclosings _ fun e he => ?_] at hp
      · cases hp
      · rcases List.mem_append.1 he with he | he
        · obtain ⟨q, outcome, rfl⟩ := closes.mem he
          rfl
        · obtain ⟨text, -, rfl⟩ := List.mem_map.1 he
          rfl
  | _ => cases hp

/-- A step by which every prompt stays accounted for. -/
theorem Worked.accounted {c c' : Crew} {s s' : ManagedSession} {command : Command} {fate : Fate}
    {reply : Reply} {deed : Desk.Deed} {evs : List PromptEvent} {inputs : List WorkerInput}
    (h : c.Worked c' s s' command fate reply deed evs inputs) (hacc : c.Accounted s.desk)
    (hsmall : command.payload?.isSome = true → s.nextPromptId < u64Max)
    (harchive : archives command = true → s.archived = false → s.walOpen = true →
      (∀ io ∈ fate.walIo.head?, io = .done) → s.pendingPrompts = []) :
    c'.Accounted s'.desk := by
  have hstep := h.works.step
  have hfaced := hacc.facing fate.walIo
  have hdeed : deed = .lost ∨ deed = .prompted → s.nextPromptId < u64Max := by
    have hby := h.works.by_
    rintro (rfl | rfl)
    · exact hsmall hby
    · exact hsmall hby
  have hfits := hstep.fits hfaced.counter fun hprompted => hdeed (.inr hprompted)
  have hlogged := hstep.logged
  have hqueues := hstep.queues
  obtain ⟨written, hlog, hsublist, -⟩ := hlogged.log
  constructor
  · rw [hlog]
    exact tidy_events hfaced.tidy hlogged.numbers hfits hqueues hsublist
  · exact hlogged.numbers.le hfaced.counter
  · intro p hp
    rw [hlog, opened_append, List.mem_append] at hp
    rcases hp with hp | hp
    · exact hfaced.opened_lt p hp
    · exact opened_lt_of_step hstep hdeed p ((hsublist.filterMap _).subset hp)
  · have horder := hqueues.sublist.map (·.payload)
    rw [List.map_append] at horder
    rw [h.admitted]
    exact horder.trans (hfaced.order.append_right _)
  · obtain ⟨rejected, hperm, hsubperm⟩ := hfaced.balance
    refine ⟨rejected ++ (evs.filterMap dropped?).map (·.payload), ?_, ?_⟩
    · have hbalance := (hqueues.balance).map (·.payload)
      rw [h.admitted, h.accepted, List.filterMap_append, hstep.payloads]
      rw [List.map_append, List.map_append, List.map_append] at hbalance
      rw [List.perm_iff_count] at hperm hbalance ⊢
      intro payload
      have hbefore := hperm payload
      have hevents := hbalance payload
      simp only [List.count_append] at hbefore hevents ⊢
      change _ = _ + List.count payload (s.pendingPrompts.map (·.payload)) + _ at hbefore
      change List.count payload (s.pendingPrompts.map (·.payload)) + _ = _ at hevents
      omega
    · rw [List.map_append, List.map_map]
      refine List.Subperm.trans ?_ hlogged.rejections.symm.subperm
      refine List.Subperm.append hsubperm (List.Perm.subperm (.of_eq ?_))
      by_cases hshelved : deed = .shelved
      · -- an archive finds an empty queue
        subst hshelved
        obtain ⟨hopen, hfile, hevs⟩ := hstep.of_shelved
        have hby := h.works.by_
        have harchives : archives command = true := by rw [hby.1]; rfl
        have hempty : s.pendingPrompts = [] := harchive harchives hopen hfile hby.2
        change evs = s.pendingPrompts.map _ at hevs
        rw [hevs, hempty]
        rfl
      · exact (hstep.told hshelved).symm

/-- A recovered session accounts for the prompts it finds queued. -/
theorem accounted_revived {c c' : Crew} {old : ManagedSession} {path : PathBuf}
    {rs : RecoveredSession} {limits : EventLogLimits} {kept : Nat}
    (hacc : c.Accounted old.desk)
    (hrecover : recoverRecords path (old.disk.take kept) = .ok (some rs))
    (hdistinct : (rs.pendingPrompts.map (·.id)).Nodup)
    (hadmitted : c'.admitted = rs.pendingPrompts.map (·.payload)) (haccepted : c'.accepted = []) :
    c'.Accounted (restoreSeed rs (old.disk.take kept)
      ((old.disk.take kept).filterMap WalRecord.note?) limits).desk := by
  obtain ⟨-, hcounter, hnext⟩ := recoverRecords_prompts hrecover
  have hwaiting := recovered_waiting hrecover
  have hqueue : (rs.pendingPrompts.map fun pending =>
      ({ id := pending.id, payload := pending.payload } : PendingPrompt)).map PendingPrompt.key =
      waiting ((old.disk.take kept).filterMap WalRecord.entry?) := by
    rw [← hwaiting, List.map_map]
    rfl
  have hcut : (old.disk.take kept).Sublist old.disk := List.take_sublist _ _
  have hopened : ∀ p ∈ opened ((old.disk.take kept).filterMap WalRecord.entry?), p.1 < u64Max :=
    fun p hp => hacc.opened_lt p (((hcut.filterMap _).filterMap _).subset hp)
  have hpayloads : (rs.pendingPrompts.map fun pending =>
      ({ id := pending.id, payload := pending.payload } : PendingPrompt)).map (·.payload) =
      rs.pendingPrompts.map (·.payload) := by
    rw [List.map_map]
    rfl
  constructor
  · constructor
    · intro id hid
      refine hnext id (promptId_of_closed hid) ?_
      have hlt := hacc.tidy.closed_lt id (((hcut.filterMap _).filterMap _).subset hid)
      exact Nat.lt_of_lt_of_le hlt hacc.counter
    · exact hacc.tidy.once.sublist ((hcut.filterMap _).filterMap _)
    · intro p hp
      change p ∈ List.map _ (List.map _ rs.pendingPrompts) at hp
      rw [hqueue, IntentLog.mem_waiting] at hp
      exact hnext p.1 (promptId_of_opened hp.1) (hopened p hp.1)
    · change List.Pairwise _ (List.map _ (List.map _ rs.pendingPrompts))
      rw [hqueue, ← hwaiting]
      rw [List.nodup_iff_pairwise_ne, List.pairwise_map] at hdistinct
      rw [List.pairwise_map]
      exact hdistinct
    · intro p hp
      change p ∈ List.map _ (List.map _ rs.pendingPrompts) at hp
      rw [hqueue, IntentLog.mem_waiting] at hp
      exact hp.2
  · exact hcounter
  · exact hopened
  · rw [hadmitted]
    show List.Sublist (List.map _ (List.map _ rs.pendingPrompts)) _
    rw [hpayloads]
  · refine ⟨[], ?_, List.nil_subperm⟩
    rw [hadmitted, haccepted, List.append_nil]
    exact .of_eq hpayloads.symm

theorem accounted_of_reaches {c : Crew} (h : machine.Reaches Reported c) :
    ∀ s ∈ c.session, c.Accounted s.desk := by
  refine reaches_change (P := fun c => ∀ s ∈ c.session, c.Accounted s.desk) ?_ ?_ h
  · rintro c ⟨id, mode, limits, walDir, rfl⟩ s hs
    exact (Option.not_mem_none s hs).elim
  · intro c a c' hsane ih hallowed hchange s hs
    cases hchange with
    | created vacant session' new =>
        rw [session'] at hs
        cases hs
        obtain ⟨-, hadmitted, haccepted⟩ := hsane.vacant vacant
        constructor
        · rw [new.log, new.nextPromptId, new.pending]
          exact IntentLog.tidy_nil 1
        · rw [new.nextPromptId]
          decide
        · rw [new.log]
          nofun
        · rw [new.pending]
          exact List.nil_sublist _
        · refine ⟨[], ?_, List.nil_subperm⟩
          rw [new.pending]
          show c.admitted.Perm (c.accepted.filterMap _ ++ _ ++ _)
          rw [hadmitted, haccepted]
          rfl
    | worked _ worked =>
        rw [worked.session'] at hs
        cases hs
        obtain ⟨hsmall, harchive⟩ := hallowed _ worked.session
        exact worked.accounted (ih _ worked.session) hsmall harchive
    | reported _ worked =>
        rw [worked.session'] at hs
        cases hs
        have hacc := ih _ worked.session
        exact worked.accounted ⟨hacc.tidy, hacc.counter, hacc.opened_lt, hacc.order, hacc.balance⟩
          nofun nofun
    | hungUp hsession session' =>
        rw [session'] at hs
        cases hs
        rw [hangUp_desk]
        have hacc := ih _ hsession
        exact ⟨hacc.tidy, hacc.counter, hacc.opened_lt, hacc.order, hacc.balance⟩
    | ended _ =>
        have hacc := ih s hs
        exact ⟨hacc.tidy, hacc.counter, hacc.opened_lt, hacc.order, hacc.balance⟩
    | @crashed kept server revived =>
        change server.manager.session = some s at hs
        rw [hs] at revived
        cases revived with
        | @back old path rs limits session walPath recover =>
            have hdistinct : (rs.pendingPrompts.map (·.id)).Nodup := by
              rw [← recovered_eq session walPath recover]
              exact hallowed
            refine accounted_revived (ih _ session) recover hdistinct ?_ rfl
            show (server.manager.session.map _).getD [] = _
            rw [hs, Option.map_some, Option.getD_some]
            show List.map _ (List.map _ rs.pendingPrompts) = _
            rw [List.map_map]
            rfl

/-- No admitted prompt vanishes: it was accepted by a transport, or it
is queued in the order of admission, or its rejection was told. No
number is closed twice. -/
theorem prompts_accounted {c : Crew} (h : machine.Reaches Reported c) {s : ManagedSession}
    (hs : c.session = some s) :
    (∃ rejected : List PromptPayload,
        c.admitted.Perm (c.accepted.filterMap WorkerInput.userPayload? ++
          s.pendingPrompts.map (·.payload) ++ rejected) ∧
        (rejected.map (·.text)).Subperm
          ((s.history ++ s.out.events).filterMap Notification.rejected?)) ∧
      (s.pendingPrompts.map (·.payload)).Sublist c.admitted ∧
      (s.disk.filterMap WalRecord.terminalId?).Nodup := by
  have hacc := accounted_of_reaches h s hs
  refine ⟨hacc.balance, hacc.order, ?_⟩
  rw [← closed_entries]
  exact hacc.tidy.once

/-- A crew around a server without sessions. -/
def sample : Crew := .empty Server.sample

/-- A prompt waits for the channel and another is sent to it; then a
third one waits for a restart that is cancelled. -/
def promptedRun : List CrewAct :=
  [.create "/w" "label" .claude none .good, .command (.prompt "first" []) .good,
    .command (.publishChannel Server.sampleHandle 0 false false) .good,
    .command (.prompt "second" []) .good, .turnEnds .completed, .turnCount .good,
    .command .restart .good, .command (.prompt "third" []) .good, .command .cancel .good]

theorem prompts_accounted_promptedRun :
    ((machine.run sample promptedRun).bind fun c => c.session.map fun s =>
        (c.admitted.map (·.text),
          (s.history ++ s.out.events).filterMap Notification.rejected?)) =
        some (["first", "second", "third"], ["third"]) ∧
      ∀ c ∈ machine.run sample promptedRun, ∀ s ∈ c.session,
        (∃ rejected : List PromptPayload,
            c.admitted.Perm (c.accepted.filterMap WorkerInput.userPayload? ++
              s.pendingPrompts.map (·.payload) ++ rejected) ∧
            (rejected.map (·.text)).Subperm
              ((s.history ++ s.out.events).filterMap Notification.rejected?)) ∧
          (s.pendingPrompts.map (·.payload)).Sublist c.admitted ∧
          (s.disk.filterMap WalRecord.terminalId?).Nodup := by
  refine ⟨by decide, fun c hrun s hs => ?_⟩
  exact prompts_accounted (.of_run (.start ⟨_, _, _, _, rfl⟩) (by decide) hrun) hs

/-- A prompt that waits while the session is archived is closed as
cancelled, and nobody is told. -/
theorem archived_prompt_vanishes :
    ¬ ∀ c s, machine.Reachable c → c.session = some s →
      ∃ rejected : List PromptPayload,
        c.admitted.Perm (c.accepted.filterMap WorkerInput.userPayload? ++
          s.pendingPrompts.map (·.payload) ++ rejected) ∧
        (rejected.map (·.text)).Subperm
          ((s.history ++ s.out.events).filterMap Notification.rejected?) := by
  intro hall
  have hrun : ((machine.run sample
      [.create "/w" "label" .claude none .good, .command (.prompt "lost" []) .good,
        .command (.setArchived true) .good]).bind fun c => c.session.map fun s =>
      (c.admitted.length, c.accepted.length, s.pendingPrompts.length,
        ((s.history ++ s.out.events).filterMap Notification.rejected?).length)) =
      some (1, 0, 0, 0) := by decide
  obtain ⟨c, hc, hmap⟩ := Option.bind_eq_some_iff.1 hrun
  obtain ⟨s, hs, hcounts⟩ := Option.map_eq_some_iff.1 hmap
  simp only [Prod.mk.injEq, List.length_eq_zero_iff] at hcounts
  obtain ⟨hadmitted, haccepted, hpending, hrejections⟩ := hcounts
  obtain ⟨rejected, hperm, hsubperm⟩ := hall c s
    (Machine.reachable_of_run ⟨_, _, _, _, rfl⟩ hc) hs
  have hlength := hperm.length_eq
  rw [hrejections] at hsubperm
  have hnone : rejected = [] := List.map_eq_nil_iff.1 (List.subperm_nil.1 hsubperm)
  rw [haccepted, hpending, hnone, hadmitted] at hlength
  cases hlength

end Crew

end Yaldabaoth
