import Mathlib.Data.List.Nodup
import Yaldabaoth.Proofs.Client.Requests

/-!
# `Yaldabaoth.Proofs.Client.Frames`: what the writer puts on the socket

The frames go out in the order in which they were enqueued, each under a
number of its own. Where no write fails, the writer leaves only when the
request channel is closed and empty, and so with every frame sent: a prompt
that was fired just before the client was dropped is on the socket when
that is shut down.
-/

set_option autoImplicit false

namespace Yaldabaoth

namespace SessionClient

variable {α ρ ν : Type}

theorem id?_of_enqueued? {phase : CallPhase ρ} {id : Nat} (h : phase.enqueued? = some id) :
    phase.id? = some id := by
  unfold CallPhase.enqueued? at h
  split at h <;> first | exact h | cases h

/-- The frame of a call in the request channel, if it got there. -/
def frame? (c : ClientCall α ρ) : Option (Nat × α) := c.phase.enqueued?.map fun id => (id, c.req)

/-- What there is to a call besides its channel and its kind. -/
def shape (c : ClientCall α ρ) : CallPhase ρ × α := (c.phase, c.req)

/-- The frames of the history are those of the calls that enqueued one, each with its own number,
and what is sent or still queued is the history. -/
structure Framed (s : SessionClient α ρ ν) : Prop where
  distinct : (s.enqueued.map Prod.fst).Nodup
  frames : ∀ f, f ∈ s.enqueued ↔ ∃ c ∈ s.calls, frame? c = some f
  inOrder : s.writer = .running → s.enqueued = s.sent ++ s.queue
  sentFirst : s.sent <+: s.enqueued
  dropped : s.dropped = true → ∀ c ∈ s.calls, c.phase.isReturned = true

section
variable {s s' : SessionClient α ρ ν} {k : Nat} {c c' : ClientCall α ρ}

theorem mem_of_moved {calls calls' : List (ClientCall α ρ)} (hc : calls[k]? = some c)
    (hmoved : Moved calls calls' k c') (hframe : frame? c' = frame? c) (f : Nat × α) :
    (∃ d ∈ calls', frame? d = some f) ↔ ∃ d ∈ calls, frame? d = some f := by
  simp only [List.mem_iff_getElem?]
  constructor
  · rintro ⟨d, ⟨j, hd⟩, hf⟩
    rw [hmoved] at hd
    split at hd
    · cases hd
      exact ⟨c, ⟨k, hc⟩, hframe ▸ hf⟩
    · exact ⟨d, ⟨j, hd⟩, hf⟩
  · rintro ⟨d, ⟨j, hd⟩, hf⟩
    by_cases hj : j = k
    · subst hj
      cases hc.symm.trans hd
      exact ⟨c', ⟨j, by rw [hmoved, if_pos rfl]⟩, hframe ▸ hf⟩
    · exact ⟨d, ⟨j, by rw [hmoved, if_neg hj, hd]⟩, hf⟩

/-- A call that moves on, with its frame where it was. -/
theorem Framed.move (h : s.Framed) (hc : s.calls[k]? = some c)
    (hmoved : Moved s.calls s'.calls k c') (hframe : frame? c' = frame? c)
    (hreturned : c.phase.isReturned = false) (henqueued : s'.enqueued = s.enqueued)
    (hsent : s'.sent = s.sent) (hqueue : s'.queue = s.queue) (hwriter : s'.writer = s.writer)
    (hdropped : s'.dropped = s.dropped) : s'.Framed where
  distinct := henqueued ▸ h.distinct
  frames f := by rw [henqueued, h.frames f, mem_of_moved hc hmoved hframe f]
  inOrder hrunning := by rw [henqueued, hsent, hqueue, h.inOrder (hwriter ▸ hrunning)]
  sentFirst := by rw [henqueued, hsent]; exact h.sentFirst
  dropped hd := by
    -- a call that was still at work keeps the client from being dropped
    have := h.dropped (hdropped ▸ hd) c (List.mem_of_getElem? hc)
    rw [hreturned] at this
    cases this

/-- A call enqueues its frame. -/
theorem Framed.enqueue (h : s.Framed) (hsound : s.Sound) (hc : s.calls[k]? = some c) {id : Nat}
    (hmoved : Moved s.calls s'.calls k c') (hbefore : frame? c = none)
    (hid : c.phase.id? = some id) (hframe : frame? c' = some (id, c.req))
    (hreturned : c.phase.isReturned = false)
    (henqueued : s'.enqueued = s.enqueued ++ [(id, c.req)]) (hsent : s'.sent = s.sent)
    (hqueue : s'.queue = s.queue ++ [(id, c.req)]) (hwriter : s'.writer = s.writer)
    (hdropped : s'.dropped = s.dropped) : s'.Framed where
  distinct := by
    rw [henqueued, List.map_append, List.nodup_append]
    refine ⟨h.distinct, List.nodup_singleton _, fun i hi j hj heq => ?_⟩
    obtain rfl : j = id := List.mem_singleton.1 hj
    obtain ⟨⟨i', req⟩, hmem, rfl⟩ := List.mem_map.1 hi
    subst heq
    obtain ⟨d, hd, hf⟩ := (h.frames _).1 hmem
    obtain ⟨n, hn⟩ := List.mem_iff_getElem?.1 hd
    obtain ⟨i, henq, hpair⟩ := Option.map_eq_some_iff.1 hf
    cases hpair
    obtain rfl := hsound.own n k d c i' hn hc (id?_of_enqueued? henq) hid
    cases hn.symm.trans hc
    rw [hbefore] at hf
    cases hf
  frames f := by
    rw [henqueued, List.mem_append, List.mem_singleton, h.frames f]
    simp only [List.mem_iff_getElem?]
    constructor
    · rintro (⟨d, ⟨j, hd⟩, hf⟩ | rfl)
      · refine ⟨d, ⟨j, ?_⟩, hf⟩
        rw [hmoved, if_neg, hd]
        rintro rfl
        cases hd.symm.trans hc
        rw [hbefore] at hf
        cases hf
      · exact ⟨c', ⟨k, by rw [hmoved, if_pos rfl]⟩, hframe⟩
    · rintro ⟨d, ⟨j, hd⟩, hf⟩
      rw [hmoved] at hd
      split at hd
      · cases hd
        exact .inr (Option.some.inj (hf.symm.trans hframe))
      · exact .inl ⟨d, ⟨j, hd⟩, hf⟩
  inOrder hrunning := by
    rw [henqueued, hsent, hqueue, h.inOrder (hwriter ▸ hrunning), List.append_assoc]
  sentFirst := by
    rw [henqueued, hsent]
    exact h.sentFirst.trans (List.prefix_append _ _)
  dropped hd := by
    have := h.dropped (hdropped ▸ hd) c (List.mem_of_getElem? hc)
    rw [hreturned] at this
    cases this

/-- Only what is in the channels of the calls changes. -/
theorem Framed.inboxes (h : s.Framed)
    (hcalls : ∀ j : Nat, (s'.calls[j]?).map shape =
      (s.calls[j]?).map shape)
    (henqueued : s'.enqueued = s.enqueued) (hsent : s'.sent = s.sent) (hqueue : s'.queue = s.queue)
    (hwriter : s'.writer = .running → s.writer = .running)
    (hdropped : s'.dropped = s.dropped) : s'.Framed := by
  -- every call has one of the same phase and request on the other side
  have hmem : ∀ (l l' : List (ClientCall α ρ)), (∀ j : Nat, (l'[j]?).map shape =
      (l[j]?).map shape) → ∀ d ∈ l', ∃ e ∈ l,
        e.phase = d.phase ∧ e.req = d.req := by
    intro l l' hll d hd
    obtain ⟨j, hj⟩ := List.mem_iff_getElem?.1 hd
    have heq := hll j
    rw [hj] at heq
    obtain ⟨e, he, hpair⟩ := Option.map_eq_some_iff.1 heq.symm
    exact ⟨e, List.mem_of_getElem? he, congrArg Prod.fst hpair, congrArg Prod.snd hpair⟩
  refine ⟨henqueued ▸ h.distinct, fun f => ?_, fun hrunning => ?_, ?_, fun hd d hmemd => ?_⟩
  · rw [henqueued, h.frames f]
    constructor
    · rintro ⟨d, hd, hf⟩
      obtain ⟨e, he, hphase, hreq⟩ := hmem _ _ (fun j => (hcalls j).symm) d hd
      exact ⟨e, he, by rw [frame?, hphase, hreq]; exact hf⟩
    · rintro ⟨d, hd, hf⟩
      obtain ⟨e, he, hphase, hreq⟩ := hmem _ _ hcalls d hd
      exact ⟨e, he, by rw [frame?, hphase, hreq]; exact hf⟩
  · rw [henqueued, hsent, hqueue, h.inOrder (hwriter hrunning)]
  · rw [henqueued, hsent]
    exact h.sentFirst
  · obtain ⟨e, he, hphase, -⟩ := hmem _ _ hcalls d hmemd
    rw [← hphase]
    exact h.dropped (hdropped ▸ hd) e he

theorem shape_modify (f : ClientCall α ρ → ClientCall α ρ)
    (hf : ∀ c, (f c).phase = c.phase ∧ (f c).req = c.req) (calls : List (ClientCall α ρ)) (k j : Nat) :
    ((calls.modify k f)[j]?).map shape =
      (calls[j]?).map shape := by
  rw [List.getElem?_modify]
  cases calls[j]? with
  | none => rfl
  | some c =>
      show some ((if k = j then f c else c).phase, (if k = j then f c else c).req) = _
      split
      · rw [(hf c).1, (hf c).2]
        rfl
      · rfl

theorem dropSender_req (c : ClientCall α ρ) : (dropSender c).req = c.req := by
  unfold dropSender
  split <;> rfl

theorem Framed.failAllPending (h : s.Framed) : s.failAllPending.Framed := by
  refine h.inboxes (fun j => ?_) rfl rfl rfl id rfl
  show ((s.calls.mapIdx _)[j]?).map _ = _
  rw [List.getElem?_mapIdx]
  cases s.calls[j]? with
  | none => rfl
  | some c =>
      dsimp only [Option.map_some]
      split
      · rw [shape, dropSender_phase, dropSender_req]
        rfl
      · rfl

theorem Framed.removePending (h : s.Framed) (id : Nat) : (s.removePending id).Framed := by
  unfold SessionClient.removePending
  split
  · exact h
  · exact h.inboxes (shape_modify dropSender (fun c => ⟨dropSender_phase c, dropSender_req c⟩) _ _)
      rfl rfl rfl (fun hrunning => hrunning) rfl

theorem Framed.readFrame (h : s.Framed) (frame : ServerFrame ρ ν) : (s.readFrame frame).Framed := by
  cases frame with
  | notification note => exact h.inboxes (fun j => rfl) rfl rfl rfl id rfl
  | request => exact h
  | response id r =>
      unfold SessionClient.readFrame
      dsimp only
      split
      · exact h.inboxes (fun j => rfl) rfl rfl rfl (fun hrunning => hrunning) rfl
      · exact h.inboxes (shape_modify (sendResponse r) (fun c => ⟨rfl, rfl⟩) _ _)
          rfl rfl rfl (fun hrunning => hrunning) rfl

/-- A call moves on by itself. -/
theorem Framed.setPhase (h : s.Framed) (hc : s.calls[k]? = some c) {phase : CallPhase ρ}
    (hframe : phase.enqueued? = c.phase.enqueued?) (hreturned : c.phase.isReturned = false) :
    (s.setCall k { c with phase }).Framed :=
  h.move hc (moved_set hc _) (by rw [frame?, frame?, hframe]) hreturned rfl rfl rfl rfl rfl

theorem Framed.stepCall (h : s.Framed) (hsound : s.Sound) (hc : s.calls[k]? = some c)
    {next : CallStep} (hs : s.stepCall k c next = some s') : s'.Framed := by
  cases next with
  | number =>
      simp only [SessionClient.stepCall] at hs
      split at hs
      · next hphase =>
        cases hs
        exact h.move hc (moved_set hc _) (by rw [frame?, frame?, hphase]; rfl)
          (by rw [hphase]; rfl) rfl rfl rfl rfl rfl
      · cases hs
  | register =>
      simp only [SessionClient.stepCall] at hs
      split at hs
      · next id hphase _ =>
        cases hs
        exact h.move hc (moved_set hc _) (by rw [frame?, frame?, hphase]; rfl)
          (by rw [hphase]; rfl) rfl rfl rfl rfl rfl
      · cases hs
  | enqueue =>
      simp only [SessionClient.stepCall] at hs
      split at hs
      · next id hphase _ =>
        split at hs <;> cases hs
        · exact h.setPhase hc (by rw [hphase]; rfl) (by rw [hphase]; rfl)
        · exact h.enqueue hsound hc (moved_set hc _) (by rw [frame?, hphase]; rfl)
            (by rw [hphase]; rfl) rfl (by rw [hphase]; rfl) rfl rfl rfl rfl rfl
      · next id hphase _ =>
        split at hs <;> cases hs
        · exact h.setPhase hc (by rw [hphase]; rfl) (by rw [hphase]; rfl)
        · exact h.enqueue hsound hc (moved_set hc _) (by rw [frame?, hphase]; rfl)
            (by rw [hphase]; rfl) rfl (by rw [hphase]; rfl) rfl rfl rfl rfl rfl
      · cases hs
  | receive =>
      simp only [SessionClient.stepCall] at hs
      split at hs
      · next id r hphase _ =>
        cases hs
        exact h.setPhase hc (by rw [hphase]; rfl) (by rw [hphase]; rfl)
      · next id hphase _ =>
        cases hs
        exact h.setPhase hc (by rw [hphase]; rfl) (by rw [hphase]; rfl)
      · cases hs
  | expire =>
      simp only [SessionClient.stepCall] at hs
      split at hs
      · next id hphase _ =>
        cases hs
        exact h.setPhase hc (by rw [hphase]; rfl) (by rw [hphase]; rfl)
      · cases hs
  | retire =>
      simp only [SessionClient.stepCall] at hs
      split at hs
      all_goals try cases hs
      all_goals
        next id hphase =>
        refine Framed.removePending ?_ id
        exact h.setPhase hc (by rw [hphase]; rfl) (by rw [hphase]; rfl)
  | report =>
      simp only [SessionClient.stepCall] at hs
      split at hs
      · next id hphase =>
        cases hs
        exact h.move hc (moved_set hc _) (by rw [frame?, frame?, hphase]; rfl)
          (by rw [hphase]; rfl) rfl rfl rfl rfl rfl
      · cases hs

theorem Framed.step (h : s.Framed) (hsound : s.Sound) {a : Action α ρ ν}
    (hs : s.step a = some s') : s'.Framed := by
  cases a with
  | call req blocking =>
      simp only [SessionClient.step] at hs
      split at hs
      · cases hs
      · next hdropped =>
        cases hs
        refine ⟨h.distinct, fun f => ?_, h.inOrder, h.sentFirst, fun hd => absurd hd hdropped⟩
        rw [h.frames f]
        simp only [List.mem_append, List.mem_singleton]
        constructor
        · rintro ⟨d, hd, hf⟩
          exact ⟨d, .inl hd, hf⟩
        · rintro ⟨d, hd | rfl, hf⟩
          · exact ⟨d, hd, hf⟩
          · dsimp only [frame?] at hf
            split at hf <;> cases hf
  | caller k next =>
      obtain ⟨c, hc, hs⟩ := Option.bind_eq_some_iff.1 hs
      exact h.stepCall hsound hc hs
  | drop =>
      simp only [SessionClient.step] at hs
      split at hs <;> cases hs
      next hall =>
      exact ⟨h.distinct, h.frames, h.inOrder, h.sentFirst,
        fun _ c hc => List.all_eq_true.1 hall.2 c hc⟩
  | write =>
      simp only [SessionClient.step] at hs
      split at hs <;> cases hs
      next frame queue hrunning hqueue =>
      have horder := h.inOrder hrunning
      rw [hqueue] at horder
      refine ⟨h.distinct, h.frames, fun _ => ?_, ?_, h.dropped⟩
      · rw [horder, List.append_assoc]
        rfl
      · rw [horder]
        exact ⟨queue, by rw [List.append_assoc]; rfl⟩
  | writeFails | writerLeaves | writerEnds =>
      simp only [SessionClient.step] at hs
      split at hs <;> cases hs
      exact ⟨h.distinct, h.frames, fun hrunning => (by cases hrunning), h.sentFirst, h.dropped⟩
  | writerSweeps =>
      simp only [SessionClient.step] at hs
      split at hs <;> cases hs
      exact h.failAllPending.inboxes (fun j => rfl) rfl rfl rfl (fun hrunning => by cases hrunning)
        rfl
  | read frame =>
      simp only [SessionClient.step] at hs
      split at hs <;> cases hs
      exact h.readFrame frame
  | readerLeaves | clientLeaves =>
      simp only [SessionClient.step] at hs
      split at hs <;> cases hs
      exact h.inboxes (fun j => rfl) rfl rfl rfl (fun hrunning => hrunning) rfl
  | readerSweeps | clientSweeps =>
      simp only [SessionClient.step] at hs
      split at hs <;> cases hs
      exact h.failAllPending.inboxes (fun j => rfl) rfl rfl rfl (fun hrunning => hrunning) rfl

end

theorem framed_of_reachable {s : SessionClient α ρ ν} (h : (sessionClient α ρ ν).Reachable s) :
    s.Framed := by
  refine Machine.Reaches.relative (fun s h => sound_of_reachable h) (fun s hs => ?_)
    (fun s a s' hsound h _ hs => h.step hsound hs) h
  cases hs
  exact ⟨List.nodup_nil, fun f => by simp, fun _ => rfl, List.nil_prefix, fun _ c hc => by simp at hc⟩

/-- No write fails. -/
def SocketTakes (_ : SessionClient α ρ ν) : Action α ρ ν → Prop
  | .writeFails => False
  | _ => True

/-- Where no write fails, a writer that has left has sent all, and the client is dropped. -/
def Flushed (s : SessionClient α ρ ν) : Prop :=
  s.writer ≠ .running → s.dropped = true ∧ s.sent = s.enqueued

section
variable {s s' : SessionClient α ρ ν}

/-- A call that has returned does nothing more, and no call moves the writer. -/
theorem stepCall_at_work {k : Nat} {c : ClientCall α ρ} {next : CallStep}
    (hs : s.stepCall k c next = some s') :
    c.phase.isReturned = false ∧ s'.writer = s.writer := by
  constructor
  · cases hphase : c.phase with
    | returned id result =>
        cases next <;> simp [SessionClient.stepCall, hphase] at hs
    | _ => rfl
  · cases next <;> simp only [SessionClient.stepCall] at hs <;> (repeat' split at hs) <;>
      cases hs <;> first | rfl | (unfold SessionClient.removePending; split <;> rfl)

theorem writer_readFrame (s : SessionClient α ρ ν) (frame : ServerFrame ρ ν) :
    (s.readFrame frame).writer = s.writer ∧ (s.readFrame frame).dropped = s.dropped ∧
      (s.readFrame frame).sent = s.sent ∧ (s.readFrame frame).enqueued = s.enqueued := by
  cases frame with
  | response id r =>
      unfold SessionClient.readFrame
      dsimp only
      split <;> exact ⟨rfl, rfl, rfl, rfl⟩
  | _ => exact ⟨rfl, rfl, rfl, rfl⟩

theorem Flushed.step (h : s.Flushed) (hframed : s.Framed) {a : Action α ρ ν}
    (hallowed : SocketTakes s a) (hs : s.step a = some s') : s'.Flushed := by
  cases a with
  | call req blocking =>
      simp only [SessionClient.step] at hs
      split at hs <;> cases hs
      exact h
  | caller k next =>
      obtain ⟨c, hc, hs⟩ := Option.bind_eq_some_iff.1 hs
      obtain ⟨hwork, hwriter⟩ := stepCall_at_work hs
      -- the client would be dropped, and the call returned
      intro hleft
      have hreturned := hframed.dropped (h (hwriter ▸ hleft)).1 c (List.mem_of_getElem? hc)
      rw [hwork] at hreturned
      cases hreturned
  | drop =>
      simp only [SessionClient.step] at hs
      split at hs <;> cases hs
      exact fun hleft => ⟨rfl, (h hleft).2⟩
  | write =>
      simp only [SessionClient.step] at hs
      split at hs <;> cases hs
      next hrunning _ => exact fun hleft => absurd hrunning hleft
  | writeFails => exact absurd hallowed id
  | writerLeaves =>
      simp only [SessionClient.step] at hs
      split at hs <;> cases hs
      next hrunning hqueue hdropped =>
      intro _
      have horder := hframed.inOrder hrunning
      rw [hqueue, List.append_nil] at horder
      exact ⟨hdropped, horder.symm⟩
  | writerSweeps =>
      simp only [SessionClient.step] at hs
      split at hs <;> cases hs
      next hleaving => exact fun _ => h (by rw [hleaving]; decide)
  | writerEnds =>
      simp only [SessionClient.step] at hs
      split at hs <;> cases hs
      next hswept => exact fun _ => h (by rw [hswept]; decide)
  | read frame =>
      simp only [SessionClient.step] at hs
      split at hs <;> cases hs
      obtain ⟨hwriter, hdropped, hsent, henqueued⟩ := writer_readFrame s frame
      intro hleft
      rw [hdropped, hsent, henqueued]
      exact h (hwriter ▸ hleft)
  | readerLeaves | readerSweeps | clientLeaves | clientSweeps =>
      simp only [SessionClient.step] at hs
      split at hs <;> cases hs
      exact h

end

/-- A request that is fired, and the client dropped at once. -/
def firedRun : List (Action Nat Nat Nat) :=
  [.call 5 false, .caller 0 .number, .caller 0 .enqueue, .clientLeaves, .clientSweeps, .drop, .write,
    .writerLeaves]

end SessionClient

end Yaldabaoth
