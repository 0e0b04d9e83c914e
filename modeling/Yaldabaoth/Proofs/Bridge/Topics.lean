import Yaldabaoth.Lib.Machine
import Yaldabaoth.Model.ChatBridge

/-!
# `Yaldabaoth.Proofs.Bridge.Topics`: one topic for a session, one session for a topic

The task decides topic actions from the router and carries them out on it
one call of the transport later. `Apt` says that an action is still right
when its turn comes: what is opened is unbound, and what is closed is
bound to just that thread. A startup plans a whole list of them
(`Planned`), which stays right while its head is carried out; that no
session is in the list twice is what the live list is trusted for.
-/

set_option autoImplicit false

namespace Yaldabaoth

open Map (Inverse)

namespace TopicRouter

/-! ### Bindings and snapshots -/

theorem mem_bindings {r : TopicRouter} {session : ServerSessionId} {thread : ThreadId} :
    (session, thread) ∈ r.bindings ↔ r.threadOf session = some thread := by
  rw [bindings, List.mem_filterMap]
  constructor
  · rintro ⟨key, -, hkey⟩
    obtain ⟨found, hfound, heq⟩ := Option.map_eq_some_iff.1 hkey
    obtain ⟨rfl, rfl⟩ := Prod.mk.inj heq
    exact hfound
  · intro hbound
    refine ⟨session, List.mem_mergeSort.2 (Map.mem_keys_of_get hbound), ?_⟩
    rw [show r.bySession.lookup session = some thread from hbound]
    rfl

theorem bindings_nodup (r : TopicRouter) : (r.bindings.map Prod.fst).Nodup := by
  have hkeys : (r.bySession.keys.mergeSort fun a b => decide (a ≤ b)).Nodup :=
    (List.mergeSort_perm _ _).nodup_iff.2 r.bySession.keys_nodup
  have hsub : ∀ keys : List ServerSessionId,
      ((keys.filterMap fun session => (r.bySession.lookup session).map fun thread =>
        (session, thread)).map Prod.fst).Sublist keys := by
    intro keys
    induction keys with
    | nil => exact .slnil
    | cons session keys ih =>
        rw [List.filterMap_cons]
        cases r.bySession.lookup session with
        | none => exact ih.cons session
        | some thread => exact ih.cons_cons session
  exact hkeys.sublist (hsub _)

/-- What a router may save: no session twice, and no thread twice. -/
structure Savable (snap : TopicMapSnapshot) : Prop where
  sessions : (snap.pairs.map Prod.fst).Nodup
  threads : (snap.pairs.map Prod.snd).Nodup

theorem Savable.empty : Savable ⟨[]⟩ := ⟨.nil, .nil⟩

theorem snapshot_savable {r : TopicRouter} (h : Inverse r.bySession r.byThread) :
    Savable r.snapshot where
  sessions := by
    rw [snapshot, List.map_map]
    exact r.bindings_nodup
  threads := by
    rw [snapshot, List.map_map]
    have hnodup : r.bindings.Nodup := .of_map Prod.fst r.bindings_nodup
    refine hnodup.map_on fun a ha b hb heq => ?_
    have hthread : a.2 = b.2 := by
      cases ha2 : a.2
      cases hb2 : b.2
      simp_all
    have hsession := (h a.1 a.2).1 (mem_bindings.1 ha)
    have hsession' := (h b.1 b.2).1 (mem_bindings.1 hb)
    rw [hthread, hsession'] at hsession
    exact Prod.ext (Option.some.inj hsession).symm hthread

theorem mem_snapshot {r : TopicRouter} {session : ServerSessionId} {id : Int} :
    (session, id) ∈ r.snapshot.pairs ↔ r.threadOf session = some ⟨id⟩ := by
  rw [snapshot, List.mem_map]
  constructor
  · rintro ⟨entry, hentry, heq⟩
    obtain ⟨rfl, rfl⟩ := Prod.mk.inj heq
    exact mem_bindings.1 hentry
  · intro hbound
    exact ⟨(session, ⟨id⟩), mem_bindings.2 hbound, rfl⟩

/-- A snapshot is read back as it was saved. -/
theorem fromSnapshot_spec (pairs : List (ServerSessionId × Int)) :
    Savable ⟨pairs⟩ → Inverse (fromSnapshot ⟨pairs⟩).bySession (fromSnapshot ⟨pairs⟩).byThread ∧
      ∀ session thread, (fromSnapshot ⟨pairs⟩).threadOf session = some thread ↔
        (session, thread.id) ∈ pairs := by
  induction pairs using List.reverseRecOn with
  | nil =>
      intro _
      refine ⟨Map.inverse_empty, fun session thread => ?_⟩
      rw [show (fromSnapshot ⟨[]⟩).threadOf session = none from AList.lookup_empty session]
      simp
  | append_singleton pairs last ih =>
      intro hsavable
      obtain ⟨session, id⟩ := last
      have hsessions := hsavable.sessions
      have hthreads := hsavable.threads
      simp only [List.map_append, List.map_cons, List.map_nil] at hsessions hthreads
      obtain ⟨hsessions, -, hnew⟩ := List.nodup_append.1 hsessions
      obtain ⟨hthreads, -, hfresh⟩ := List.nodup_append.1 hthreads
      obtain ⟨hinverse, hbound⟩ := ih ⟨hsessions, hthreads⟩
      have heq : fromSnapshot ⟨pairs ++ [(session, id)]⟩ = (fromSnapshot ⟨pairs⟩).bind session ⟨id⟩ := by
        rw [fromSnapshot, List.foldl_append]
        rfl
      have hnone : (fromSnapshot ⟨pairs⟩).bySession.lookup session = none := by
        rw [Option.eq_none_iff_forall_ne_some]
        intro thread hthread
        exact hnew _ (List.mem_map_of_mem ((hbound session thread).1 hthread)) session
          (List.mem_singleton.2 rfl) rfl
      have hnone' : (fromSnapshot ⟨pairs⟩).byThread.lookup ⟨id⟩ = none := by
        rw [Option.eq_none_iff_forall_ne_some]
        intro owner howner
        have hmem := (hbound owner ⟨id⟩).1 ((hinverse owner ⟨id⟩).2 howner)
        exact hfresh _ (List.mem_map_of_mem hmem) id (List.mem_singleton.2 rfl) rfl
      rw [heq]
      refine ⟨hinverse.insert hnone hnone', fun x thread => ?_⟩
      rw [List.mem_append, List.mem_singleton, ← hbound]
      show (((fromSnapshot ⟨pairs⟩).bySession.insert session ⟨id⟩).lookup x) = some thread ↔ _
      rw [Map.get_insert]
      by_cases hx : x = session
      · subst hx
        rw [if_pos rfl, show (fromSnapshot ⟨pairs⟩).threadOf x = none from hnone]
        cases thread
        simp [eq_comm]
      · rw [if_neg hx]
        simp [hx, threadOf]

/-! ### Actions that fit the router -/

/-- The session of an action that opens or closes. -/
def subject? : TopicAction → Option ServerSessionId
  | .open session _ => some session
  | .close session _ => some session
  | _ => none

/-- What an action supposes of the router. -/
def Apt (r : TopicRouter) : TopicAction → Prop
  | .open session _ => r.threadOf session = none
  | .close session thread => r.threadOf session = some thread
  | _ => True

theorem onSessionCreated_apt (r : TopicRouter) (session : ServerSessionId) (label : String) :
    r.Apt (r.onSessionCreated session label) := by
  rw [onSessionCreated]
  split
  · trivial
  · next hnot => exact Option.not_isSome_iff_eq_none.1 hnot

theorem onSessionClosed_apt (r : TopicRouter) (session : ServerSessionId) :
    r.Apt (r.onSessionClosed session) := by
  rw [onSessionClosed]
  split
  · next thread hthread => exact hthread
  · trivial

theorem onSessionRenamed_apt (r : TopicRouter) (session : ServerSessionId) (label : String) :
    r.Apt (r.onSessionRenamed session label) := by
  rw [onSessionRenamed]
  split <;> trivial

/-- A list of actions to be carried out one after the other. -/
structure Planned (r : TopicRouter) (pending : List TopicAction) : Prop where
  apt : ∀ action ∈ pending, r.Apt action
  once : (pending.filterMap subject?).Nodup

/-- What a startup plans over a list of distinct sessions. -/
theorem reconcile_planned (r : TopicRouter) {live : List (ServerSessionId × String)}
    (hlive : (live.map Prod.fst).Nodup) : r.Planned (r.reconcile live) := by
  have hopens : ∀ l : List (ServerSessionId × String),
      ((l.filterMap fun entry => if r.isBound entry.1 then none
        else some (TopicAction.open entry.1 (topicName entry.2))).filterMap subject?) =
          (l.map Prod.fst).filter fun session => !r.isBound session := by
    intro l
    induction l with
    | nil => rfl
    | cons entry l ih =>
        rw [List.filterMap_cons, List.map_cons, List.filter_cons]
        by_cases hbound : r.isBound entry.1 = true
        · simp only [hbound, if_true, Bool.not_true, Bool.false_eq_true, if_false]
          exact ih
        · simp only [hbound, Bool.not_false, if_true, subject?]
          exact congrArg (entry.1 :: ·) ih
  have hcloses : ∀ l : List (ServerSessionId × ThreadId),
      ((l.filterMap fun entry => if (live.map Prod.fst).contains entry.1 then none
        else some (TopicAction.close entry.1 entry.2)).filterMap subject?) =
          (l.map Prod.fst).filter fun session => !(live.map Prod.fst).contains session := by
    intro l
    induction l with
    | nil => rfl
    | cons entry l ih =>
        rw [List.filterMap_cons, List.map_cons, List.filter_cons]
        by_cases hin : (live.map Prod.fst).contains entry.1 = true
        · simp only [hin, if_true, Bool.not_true, Bool.false_eq_true, if_false]
          exact ih
        · simp only [hin, Bool.not_false, if_true, subject?]
          exact congrArg (entry.1 :: ·) ih
  constructor
  · intro action haction
    rw [reconcile, List.mem_append, List.mem_filterMap, List.mem_filterMap] at haction
    rcases haction with ⟨⟨session, label⟩, -, hopen⟩ | ⟨⟨session, thread⟩, hmem, hclose⟩
    · obtain ⟨hnot, heq⟩ := Option.ite_none_left_eq_some.1 hopen
      rw [← Option.some.inj heq]
      exact Option.not_isSome_iff_eq_none.1 hnot
    · obtain ⟨-, heq⟩ := Option.ite_none_left_eq_some.1 hclose
      rw [← Option.some.inj heq]
      exact mem_bindings.1 hmem
  · have hsubjects : (r.reconcile live).filterMap subject? =
        (live.map Prod.fst).filter (fun session => !r.isBound session) ++
          (r.bindings.map Prod.fst).filter fun session => !(live.map Prod.fst).contains session := by
      rw [reconcile, List.filterMap_append]
      exact congrArg₂ (· ++ ·) (hopens live) (hcloses r.bindings)
    rw [hsubjects]
    refine List.nodup_append.2 ⟨hlive.filter _, r.bindings_nodup.filter _, ?_⟩
    -- what is opened is not bound, and what is closed is
    rintro session hopen _ hclose rfl
    obtain ⟨entry, hentry, rfl⟩ := List.mem_map.1 (List.mem_filter.1 hclose).1
    have hbound : r.isBound entry.1 = true := by
      rw [isBound, show r.bySession.lookup entry.1 = some entry.2 from mem_bindings.1 hentry]
      rfl
    have hnot := (List.mem_filter.1 hopen).2
    rw [hbound] at hnot
    cases hnot

/-- What an action leaves of the other sessions. -/
theorem applyTopicAction_other {r : TopicRouter} {action : TopicAction} {outcome : Outcome}
    {session : ServerSessionId} (hother : subject? action ≠ some session) :
    (applyTopicAction r action outcome).1.threadOf session = r.threadOf session := by
  cases action with
  | «open» subject name =>
      have hne : session ≠ subject := fun heq => hother (congrArg some heq.symm)
      rw [applyTopicAction]
      cases outcome.openThread with
      | none => rfl
      | some thread => exact AList.lookup_insert_ne hne
  | close subject thread =>
      have hne : session ≠ subject := fun heq => hother (congrArg some heq.symm)
      rw [applyTopicAction, unbind]
      cases r.bySession.lookup subject with
      | none => rfl
      | some bound => exact AList.lookup_erase_ne hne
  | rename => rfl
  | noop => rfl

theorem Planned.next {r : TopicRouter} {action : TopicAction} {pending : List TopicAction}
    (h : r.Planned (action :: pending)) (outcome : Outcome) :
    (applyTopicAction r action outcome).1.Planned pending := by
  have honce : ∀ later ∈ pending, ∀ session, subject? later = some session →
      subject? action ≠ some session := by
    intro later hlater session hsession hsame
    have hnodup := h.once
    rw [List.filterMap_cons, hsame] at hnodup
    exact (List.nodup_cons.1 hnodup).1 (List.mem_filterMap.2 ⟨later, hlater, hsession⟩)
  constructor
  · intro later hlater
    have hapt := h.apt later (List.mem_cons_of_mem _ hlater)
    cases later with
    | «open» session name =>
        show TopicRouter.threadOf _ session = none
        rw [applyTopicAction_other (honce _ hlater session rfl)]
        exact hapt
    | close session thread =>
        show TopicRouter.threadOf _ session = some thread
        rw [applyTopicAction_other (honce _ hlater session rfl)]
        exact hapt
    | rename => trivial
    | noop => trivial
  · have hnodup := h.once
    rw [List.filterMap_cons] at hnodup
    cases hsubject : subject? action with
    | none =>
        rw [hsubject] at hnodup
        exact hnodup
    | some session =>
        rw [hsubject] at hnodup
        exact (List.nodup_cons.1 hnodup).2

end TopicRouter

/-! ### Runs of the task -/

/-- The topics of the chat: who they were opened for, and those that the
transport failed to close. -/
structure Topics where
  opened : List (ServerSessionId × ThreadId) := []
  stuck : List ThreadId := []

namespace Topics

/-- What a call for the session does to the topics. -/
def track (session : ServerSessionId) (topics : Topics) : ChatCall → Topics
  | .openThread _ (some thread) => { topics with opened := topics.opened ++ [(session, thread)] }
  | .closeThread thread true =>
      { topics with opened := topics.opened.filter fun entry => entry.2 ≠ thread }
  | .closeThread thread false => { topics with stuck := topics.stuck ++ [thread] }
  | _ => topics

end Topics

/-- The thread that a call opened. -/
def ChatCall.opened? : ChatCall → Option ThreadId
  | .openThread _ opened => opened
  | _ => none

/-- The session that an event is about. -/
def BridgeEvent.session : BridgeEvent → ServerSessionId
  | .sessionCreated info => info.sessionId
  | .sessionClosed session => session
  | .sessionRenamed session _ => session
  | .transcript session _ => session

/-- The task with the chat around it: the actions of a startup that are
still to be carried out, the snapshots saved and the threads opened up to
now, and the topics of this run. -/
structure BridgeRun where
  router : TopicRouter
  folds : Folds
  pending : List TopicAction
  saved : List TopicMapSnapshot
  issued : List ThreadId
  topics : Topics

inductive BridgeStep where
  | startup (snap : TopicMapSnapshot) (live : List (ServerSessionId × String))
  | settle (outcome : Outcome)
  | event (ev : BridgeEvent) (outcome : Outcome)

namespace BridgeRun

section run

variable (kind : ToolCall → ToolKind) (title : ToolCall → String)

/-- The startup saves when its last action is carried out. -/
def settled (s : BridgeRun) : BridgeRun :=
  if s.pending = [] then { s with saved := s.saved ++ [s.router.snapshot] } else s

/-- The calls as the chat sees them; a thread id is not given out twice. -/
def observe (s : BridgeRun) (session : ServerSessionId) (calls : List ChatCall) : Option BridgeRun :=
  if (calls.filterMap ChatCall.opened?).all fun thread => !s.issued.contains thread then
    some { s with
      issued := s.issued ++ calls.filterMap ChatCall.opened?
      topics := calls.foldl (Topics.track session) s.topics }
  else none

def step (s : BridgeRun) : BridgeStep → Option BridgeRun
  | .startup snap live =>
      if s.saved.contains snap then
        let router := TopicRouter.fromSnapshot snap
        some (settled { s with
          router
          folds := ⟨∅, ∅⟩
          pending := router.reconcile live
          topics := ⟨router.bindings, []⟩ })
      else none
  | .settle outcome =>
      match s.pending with
      | [] => none
      | action :: pending =>
          let (router, calls) := applyTopicAction s.router action outcome
          ({ s with router, pending }.observe ((TopicRouter.subject? action).getD "") calls).map
            settled
  | .event ev outcome =>
      if s.pending = [] then
        let (router, folds, calls, written) := handleEvent kind title s.router s.folds ev outcome
        { s with router, folds, saved := s.saved ++ written.toList }.observe ev.session calls
      else none

/-- The task over its restarts, each from a snapshot that it saved. -/
def machine : Machine BridgeRun BridgeStep where
  start s := s = ⟨.new, ⟨∅, ∅⟩, [], [⟨[]⟩], [], {}⟩
  step s a := s.step kind title a

/-- The live list is read from a map by session id. -/
def Distinct (_ : BridgeRun) : BridgeStep → Prop
  | .startup _ live => (live.map Prod.fst).Nodup
  | _ => True

/-- What holds between the router, the threads given out, and the topics. -/
structure Matched (router : TopicRouter) (issued : List ThreadId) (topics : Topics) : Prop where
  inverse : Inverse router.bySession router.byThread
  known : ∀ session thread, router.threadOf session = some thread → thread ∈ issued
  opened : ∀ session thread, router.threadOf session = some thread →
    (session, thread) ∈ topics.opened
  bound : ∀ session thread, (session, thread) ∈ topics.opened → thread ∉ topics.stuck →
    router.threadOf session = some thread

structure Routed (s : BridgeRun) : Prop where
  matched : Matched s.router s.issued s.topics
  planned : s.router.Planned s.pending
  savable : ∀ snap ∈ s.saved, TopicRouter.Savable snap
  known : ∀ snap ∈ s.saved, ∀ pair ∈ snap.pairs, (⟨pair.2⟩ : ThreadId) ∈ s.issued

end run

/-- An action that fits the router, and a thread that is new. -/
theorem Matched.apply {router : TopicRouter} {issued : List ThreadId} {topics : Topics}
    (h : Matched router issued topics) {action : TopicAction} (hapt : router.Apt action)
    (outcome : Outcome) {session : ServerSessionId}
    (hsubject : ∀ x, TopicRouter.subject? action = some x → x = session)
    (hnew : ∀ thread ∈ (applyTopicAction router action outcome).2.filterMap ChatCall.opened?,
      thread ∉ issued) :
    Matched (applyTopicAction router action outcome).1
      (issued ++ (applyTopicAction router action outcome).2.filterMap ChatCall.opened?)
      ((applyTopicAction router action outcome).2.foldl (Topics.track session) topics) := by
  cases action with
  | «open» subject name =>
      obtain rfl := hsubject subject rfl
      rw [applyTopicAction] at hnew ⊢
      cases hopen : outcome.openThread with
      | none =>
          simp only [List.filterMap_cons, ChatCall.opened?, List.filterMap_nil, List.append_nil]
          exact h
      | some thread =>
          rw [hopen] at hnew
          have hfresh : thread ∉ issued := hnew thread (List.mem_singleton.2 rfl)
          have hnone : router.bySession.lookup subject = none := hapt
          have hnone' : router.byThread.lookup thread = none := by
            rw [Option.eq_none_iff_forall_ne_some]
            intro owner howner
            exact hfresh (h.known owner thread ((h.inverse owner thread).2 howner))
          have hlookup : ∀ x, (router.bind subject thread).threadOf x =
              if x = subject then some thread else router.threadOf x :=
            fun x => Map.get_insert router.bySession subject x thread
          refine ⟨h.inverse.insert hnone hnone', ?_, ?_, ?_⟩
          · intro x t hx
            rw [List.mem_append]
            dsimp only at hx
            rw [hlookup] at hx
            split at hx
            · right
              rw [← Option.some.inj hx]
              exact List.mem_singleton.2 rfl
            · exact .inl (h.known x t hx)
          · intro x t hx
            show (x, t) ∈ topics.opened ++ [(subject, thread)]
            rw [List.mem_append, List.mem_singleton]
            dsimp only at hx
            rw [hlookup] at hx
            split at hx
            · next heq =>
              right
              rw [heq, Option.some.inj hx]
            · exact .inl (h.opened x t hx)
          · intro x t hmem hfree
            dsimp only
            rw [hlookup]
            rcases List.mem_append.1 (show (x, t) ∈ topics.opened ++ [(subject, thread)] from hmem)
              with hold | hlast
            · have hbound := h.bound x t hold hfree
              have hne : x ≠ subject := by
                rintro rfl
                rw [show router.threadOf x = none from hapt] at hbound
                cases hbound
              rw [if_neg hne]
              exact hbound
            · obtain ⟨rfl, rfl⟩ := Prod.mk.inj (List.mem_singleton.1 hlast)
              rw [if_pos rfl]
  | close subject thread =>
      obtain rfl := hsubject subject rfl
      have hbound : router.bySession.lookup subject = some thread := hapt
      have hlookup : ∀ x, (router.unbind subject).threadOf x =
          if x = subject then none else router.threadOf x := by
        intro x
        rw [TopicRouter.unbind, hbound]
        exact Map.get_erase router.bySession subject x
      have hinverse : Inverse (router.unbind subject).bySession (router.unbind subject).byThread := by
        rw [TopicRouter.unbind, hbound]
        exact h.inverse.erase hbound
      -- the thread is that of no other session
      have hothers : ∀ x t, x ≠ subject → router.threadOf x = some t → t ≠ thread := by
        rintro x t hx hthread rfl
        have howner := (h.inverse x t).1 hthread
        rw [(h.inverse subject t).1 hbound] at howner
        exact hx (Option.some.inj howner).symm
      have hissued : ∀ x t, (router.unbind subject).threadOf x = some t → t ∈ issued := by
        intro x t hx
        rw [hlookup] at hx
        exact h.known x t (Option.ite_none_left_eq_some.1 hx).2
      rw [applyTopicAction]
      cases hclose : outcome.closeThread with
      | true =>
          refine ⟨hinverse, ?_, ?_, ?_⟩
          · intro x t hx
            exact List.mem_append_left _ (hissued x t hx)
          · intro x t hx
            dsimp only at hx
            rw [hlookup] at hx
            obtain ⟨hne, hx⟩ := Option.ite_none_left_eq_some.1 hx
            exact List.mem_filter.2 ⟨h.opened x t hx, by simpa using hothers x t hne hx⟩
          · intro x t hmem hfree
            obtain ⟨hold, hkept⟩ := List.mem_filter.1 hmem
            have hx := h.bound x t hold hfree
            have hne : x ≠ subject := by
              rintro rfl
              rw [show router.threadOf x = some thread from hbound] at hx
              simp [Option.some.inj hx] at hkept
            dsimp only
            rw [hlookup, if_neg hne]
            exact hx
      | false =>
          refine ⟨hinverse, ?_, ?_, ?_⟩
          · intro x t hx
            exact List.mem_append_left _ (hissued x t hx)
          · intro x t hx
            dsimp only at hx
            rw [hlookup] at hx
            exact h.opened x t (Option.ite_none_left_eq_some.1 hx).2
          · intro x t hmem hfree
            have hnot : ¬ t ∈ topics.stuck ++ [thread] := hfree
            rw [List.mem_append, List.mem_singleton] at hnot
            obtain ⟨hfree, hother⟩ := not_or.1 hnot
            have hx := h.bound x t hmem hfree
            have hne : x ≠ subject := by
              rintro rfl
              rw [show router.threadOf x = some thread from hbound] at hx
              exact hother (Option.some.inj hx).symm
            dsimp only
            rw [hlookup, if_neg hne]
            exact hx
  | rename thread name =>
      simp only [applyTopicAction, List.filterMap_cons, ChatCall.opened?, List.filterMap_nil,
        List.append_nil]
      exact h
  | noop =>
      simp only [applyTopicAction, List.filterMap_nil, List.append_nil]
      exact h

/-- What a matched router saves can be read back. -/
theorem Routed.saving {s : BridgeRun} (h : Routed s) (folds : Folds) :
    Routed { s with folds, saved := s.saved ++ [s.router.snapshot] } := by
  refine ⟨h.matched, h.planned, ?_, ?_⟩
  · intro snap hsnap
    rcases List.mem_append.1 hsnap with hold | hnew
    · exact h.savable snap hold
    · rw [List.mem_singleton.1 hnew]
      exact TopicRouter.snapshot_savable h.matched.inverse
  · intro snap hsnap pair hpair
    rcases List.mem_append.1 hsnap with hold | hnew
    · exact h.known snap hold pair hpair
    · rw [List.mem_singleton.1 hnew] at hpair
      exact h.matched.known pair.1 ⟨pair.2⟩ (TopicRouter.mem_snapshot.1 hpair)

theorem Routed.settled {s : BridgeRun} (h : Routed s) : Routed s.settled := by
  rw [BridgeRun.settled]
  split
  · exact h.saving s.folds
  · exact h

theorem Routed.startup {s : BridgeRun} (h : Routed s) {snap : TopicMapSnapshot}
    (hsnap : snap ∈ s.saved) {live : List (ServerSessionId × String)}
    (hlive : (live.map Prod.fst).Nodup) :
    Routed { s with
      router := TopicRouter.fromSnapshot snap
      folds := ⟨∅, ∅⟩
      pending := (TopicRouter.fromSnapshot snap).reconcile live
      topics := ⟨(TopicRouter.fromSnapshot snap).bindings, []⟩ } := by
  obtain ⟨hinverse, hbound⟩ := TopicRouter.fromSnapshot_spec snap.pairs (h.savable snap hsnap)
  refine ⟨⟨hinverse, ?_, ?_, ?_⟩, TopicRouter.reconcile_planned _ hlive, h.savable, h.known⟩
  · intro session thread hthread
    exact h.known snap hsnap _ ((hbound session thread).1 hthread)
  · intro session thread hthread
    exact TopicRouter.mem_bindings.2 hthread
  · intro session thread hmem _
    exact TopicRouter.mem_bindings.1 hmem

/-- What a call's observation supposes and does. -/
theorem observe_eq_some {s s' : BridgeRun} {session : ServerSessionId} {calls : List ChatCall}
    (h : s.observe session calls = some s') :
    (∀ thread ∈ calls.filterMap ChatCall.opened?, thread ∉ s.issued) ∧
      s' = { s with
        issued := s.issued ++ calls.filterMap ChatCall.opened?
        topics := calls.foldl (Topics.track session) s.topics } := by
  rw [observe] at h
  obtain ⟨hnew, heq⟩ := Option.ite_none_right_eq_some.1 h
  refine ⟨fun thread hthread => ?_, (Option.some.inj heq).symm⟩
  have hfresh := List.all_eq_true.1 hnew thread hthread
  simpa using hfresh

theorem Routed.applied {s : BridgeRun} (h : Routed s) {action : TopicAction}
    {pending : List TopicAction} (hplanned : s.router.Planned (action :: pending))
    {outcome : Outcome} {session : ServerSessionId}
    (hsubject : ∀ x, TopicRouter.subject? action = some x → x = session)
    (hnew : ∀ thread ∈ (applyTopicAction s.router action outcome).2.filterMap ChatCall.opened?,
      thread ∉ s.issued) :
    Routed { s with
      router := (applyTopicAction s.router action outcome).1
      pending
      issued := s.issued ++
        (applyTopicAction s.router action outcome).2.filterMap ChatCall.opened?
      topics := (applyTopicAction s.router action outcome).2.foldl (Topics.track session)
        s.topics } where
  matched := h.matched.apply (hplanned.apt action (List.mem_cons_self ..)) outcome hsubject hnew
  planned := hplanned.next outcome
  savable := h.savable
  known snap hsnap pair hpair := List.mem_append_left _ (h.known snap hsnap pair hpair)

variable {kind : ToolCall → ToolKind} {title : ToolCall → String}

theorem Routed.settle {s s' : BridgeRun} (h : Routed s) {outcome : Outcome}
    (hs : s.step kind title (.settle outcome) = some s') : Routed s' := by
  rw [step] at hs
  cases hpending : s.pending with
  | nil =>
      rw [hpending] at hs
      cases hs
  | cons action pending =>
      rw [hpending] at hs
      obtain ⟨next, hnext, rfl⟩ := Option.map_eq_some_iff.1 hs
      obtain ⟨hnew, rfl⟩ := observe_eq_some hnext
      have hplanned := h.planned
      rw [hpending] at hplanned
      refine Routed.settled (h.applied hplanned (fun x hx => ?_) hnew)
      rw [hx]
      rfl

/-- A fold opens and closes no topics. -/
theorem runOps_calls (thread : ThreadId) (outcome : Outcome) (session : ServerSessionId)
    (topics : Topics) (ops : List ChatOp) :
    ∀ (running : Map ThreadId MessageId) (calls : List ChatCall),
      calls.filterMap ChatCall.opened? = [] → calls.foldl (Topics.track session) topics = topics →
        let made := (ops.foldl (fun acc op =>
          let (running, made) := runOp thread outcome acc.1 op
          (running, acc.2 ++ made)) (running, calls)).2
        made.filterMap ChatCall.opened? = [] ∧ made.foldl (Topics.track session) topics = topics := by
  induction ops with
  | nil =>
      intro running calls hopened htrack
      exact ⟨hopened, htrack⟩
  | cons op ops ih =>
      intro running calls hopened htrack
      rw [List.foldl_cons]
      apply ih
      · rw [List.filterMap_append, hopened]
        cases op with
        | post text => rfl
        | edit text =>
            cases running.lookup thread
            · simp
            · simp [ChatCall.opened?]
        | finalize => rfl
      · rw [List.foldl_append, htrack]
        cases op with
        | post text => rfl
        | edit text =>
            cases running.lookup thread
            · simp
            · simp [Topics.track]
        | finalize => rfl

theorem handleTranscript_calls (kind : ToolCall → ToolKind) (title : ToolCall → String)
    (router : TopicRouter) (folds : Folds) (session x : ServerSessionId) (note : Notification)
    (outcome : Outcome) (topics : Topics) :
    (handleTranscript kind title router folds session note outcome).2.filterMap
        ChatCall.opened? = [] ∧
      (handleTranscript kind title router folds session note outcome).2.foldl
        (Topics.track x) topics = topics := by
  rw [handleTranscript]
  cases router.threadOf session with
  | none => exact ⟨rfl, rfl⟩
  | some thread =>
      cases note with
      | agent event => exact runOps_calls thread outcome x topics _ _ [] rfl rfl
      | _ => exact ⟨rfl, rfl⟩

/-- An event about a session carries out one apt action, or none. -/
theorem Routed.lifecycle {s s' : BridgeRun} (h : Routed s) (hpending : s.pending = [])
    {action : TopicAction} (hapt : s.router.Apt action) (outcome : Outcome) (folds : Folds)
    (session : ServerSessionId)
    (hsubject : ∀ x, TopicRouter.subject? action = some x → x = session)
    (hs : (if action = .noop then { s with folds, saved := s.saved ++ [] }.observe session []
      else { s with
        router := (applyTopicAction s.router action outcome).1
        folds
        saved := s.saved ++ [(applyTopicAction s.router action outcome).1.snapshot] }.observe session
          (applyTopicAction s.router action outcome).2) = some s') : Routed s' := by
  split at hs
  · obtain ⟨-, rfl⟩ := observe_eq_some hs
    simp only [List.append_nil, List.filterMap_nil, List.foldl_nil]
    exact ⟨h.matched, h.planned, h.savable, h.known⟩
  · obtain ⟨hnew, rfl⟩ := observe_eq_some hs
    have hplanned : s.router.Planned [action] := by
      refine ⟨fun a ha => ?_, ?_⟩
      · rw [List.mem_singleton.1 ha]
        exact hapt
      · rw [List.filterMap_cons]
        cases TopicRouter.subject? action <;> simp
    have hdone := (h.applied hplanned hsubject hnew).saving folds
    rw [← hpending] at hdone
    exact hdone

theorem Routed.event {s s' : BridgeRun} (h : Routed s) {ev : BridgeEvent} {outcome : Outcome}
    (hs : s.step kind title (.event ev outcome) = some s') : Routed s' := by
  rw [step] at hs
  obtain ⟨hpending, hs⟩ := Option.ite_none_right_eq_some.1 hs
  cases ev with
  | transcript session note =>
      have hs' : ({ s with
          folds := (handleTranscript kind title s.router s.folds session note outcome).1
          saved := s.saved ++ [] }).observe session
            (handleTranscript kind title s.router s.folds session note outcome).2 = some s' := hs
      obtain ⟨-, rfl⟩ := observe_eq_some hs'
      obtain ⟨hopened, htrack⟩ := handleTranscript_calls kind title s.router s.folds session
        session note outcome s.topics
      dsimp only
      rw [hopened, htrack]
      simp only [List.append_nil]
      exact ⟨h.matched, h.planned, h.savable, h.known⟩
  | sessionCreated info =>
      refine h.lifecycle hpending (s.router.onSessionCreated_apt info.sessionId info.label) outcome
        s.folds info.sessionId ?_ ?_
      · intro x hx
        rw [TopicRouter.onSessionCreated] at hx
        split at hx <;> cases hx
        rfl
      · rw [← hs, handleEvent]
        dsimp only
        split <;> rfl
  | sessionClosed session =>
      refine h.lifecycle hpending (s.router.onSessionClosed_apt session) outcome
        ⟨s.folds.folders.erase session,
          (s.router.threadOf session).elim s.folds.running s.folds.running.erase⟩ session ?_ ?_
      · intro x hx
        rw [TopicRouter.onSessionClosed] at hx
        split at hx <;> cases hx
        rfl
      · rw [← hs, handleEvent]
        dsimp only
        cases s.router.threadOf session <;> split <;> rfl
  | sessionRenamed session label =>
      refine h.lifecycle hpending (s.router.onSessionRenamed_apt session label) outcome s.folds
        session ?_ ?_
      · intro x hx
        rw [TopicRouter.onSessionRenamed] at hx
        split at hx <;> cases hx
      · rw [← hs, handleEvent]
        dsimp only
        split <;> rfl

theorem Routed.start {s : BridgeRun} (h : (machine kind title).start s) : Routed s := by
  obtain rfl : s = ⟨.new, ⟨∅, ∅⟩, [], [⟨[]⟩], [], {}⟩ := h
  have hnone : ∀ session, TopicRouter.new.threadOf session = none :=
    fun session => AList.lookup_empty session
  refine ⟨⟨Map.inverse_empty, ?_, ?_, ?_⟩, ⟨?_, .nil⟩, ?_, ?_⟩
  · intro session thread hthread
    rw [hnone] at hthread
    cases hthread
  · intro session thread hthread
    rw [hnone] at hthread
    cases hthread
  · intro session thread hmem
    cases hmem
  · intro action haction
    cases haction
  · intro snap hsnap
    rw [List.mem_singleton.1 hsnap]
    exact .empty
  · intro snap hsnap pair hpair
    rw [List.mem_singleton.1 hsnap] at hpair
    cases hpair

theorem Routed.step {s s' : BridgeRun} (h : Routed s) {a : BridgeStep} (hdistinct : Distinct s a)
    (hs : (machine kind title).step s a = some s') : Routed s' := by
  cases a with
  | startup snap live =>
      obtain ⟨hsnap, heq⟩ := Option.ite_none_right_eq_some.1 hs
      rw [← Option.some.inj heq]
      exact (h.startup (List.contains_iff_mem.1 hsnap) hdistinct).settled
  | settle outcome =>
      have hs' : s.step kind title (.settle outcome) = some s' := hs
      exact h.settle hs'
  | event ev outcome =>
      have hs' : s.step kind title (.event ev outcome) = some s' := hs
      exact h.event hs'

/-! ### What the chat relies on -/

/-- The router as the chat relies on it. -/
structure OneToOne (s : BridgeRun) : Prop where
  inverse : Inverse s.router.bySession s.router.byThread
  one : ∀ session thread thread', (session, thread) ∈ s.topics.opened →
    (session, thread') ∈ s.topics.opened → thread ∉ s.topics.stuck → thread' ∉ s.topics.stuck →
      thread = thread'
  opened : ∀ session thread, s.router.threadOf session = some thread →
    (session, thread) ∈ s.topics.opened
  injected : ∀ lower config driver msg session text,
    .driver (.adminPrompt session text) ∈ handleInbound lower config driver s.router msg →
      ∀ session', s.router.threadOf session' = some msg.thread ↔ session' = session

/-- A prompt is injected into the session that the thread is bound to. -/
theorem sessionOf_of_injected {lower : String → String} {config : BridgeConfig}
    {driver : DriverReplies} {router : TopicRouter} {msg : InboundMsg} {session : ServerSessionId}
    {text : String}
    (h : .driver (.adminPrompt session text) ∈ handleInbound lower config driver router msg) :
    router.sessionOf msg.thread = some session := by
  rw [handleInbound] at h
  split at h
  · cases h
  · dsimp only at h
    split at h
    · cases h
    · split at h
      · next owner howner =>
        rw [howner]
        generalize ChatCommand.parse lower (trim msg.text) = command at h
        cases command with
        | stop =>
            cases hreply : driver.cancel <;> simp [handleSessionCommand, hreply] at h
        | mode mode =>
            cases hreply : driver.setPermissionMode <;> simp [handleSessionCommand, hreply] at h
        | message body =>
            cases hreply : driver.adminPrompt <;> simp [handleSessionCommand, hreply] at h
            · rw [h.1]
            · rw [h.1]
        | _ => simp [handleSessionCommand] at h
      · next hnone =>
        generalize ChatCommand.parse lower (trim msg.text) = command at h
        cases command <;> simp [handleGeneralCommand] at h

theorem Routed.oneToOne {s : BridgeRun} (h : Routed s) : OneToOne s where
  inverse := h.matched.inverse
  one session thread thread' hopened hopened' hfree hfree' := by
    have hbound := h.matched.bound session thread hopened hfree
    rw [h.matched.bound session thread' hopened' hfree'] at hbound
    exact (Option.some.inj hbound).symm
  opened := h.matched.opened
  injected lower config driver msg session text hmem session' := by
    have howner := sessionOf_of_injected hmem
    constructor
    · intro hthread
      have howner' := (h.matched.inverse session' msg.thread).1 hthread
      rw [show s.router.byThread.lookup msg.thread = some session from howner] at howner'
      exact (Option.some.inj howner').symm
    · rintro rfl
      exact (h.matched.inverse session' msg.thread).2 howner

/-- The answers of a transport that opens one thread. -/
def sampleOutcome (thread : Option Int) (close : Bool) : Outcome :=
  ⟨none, true, thread.map ThreadId.mk, close, true⟩

def sampleInfo (session : ServerSessionId) : SessionInfo :=
  ⟨session, none, "notes", "/tmp", .claude, 0, true, .yolo, false, false⟩

def sampleStart : BridgeRun := ⟨.new, ⟨∅, ∅⟩, [], [⟨[]⟩], [], {}⟩

end BridgeRun

end Yaldabaoth
