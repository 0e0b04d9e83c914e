import Yaldabaoth.Model.SessionLog
import Yaldabaoth.Proofs.Client.Reducers
import Yaldabaoth.Proofs.Session.Ledger

/-!
# `Yaldabaoth.Proofs.Client.Deliveries`: a log cut into batches

The GUI gets the log of a session in batches, and the user submits in
between. In a recorded log no two replies are adjacent, so the runs that
`apply_server_batch` coalesces are single replies, and a batch is the
same as its notifications one by one (`applyServerBatch_eq_foldl`).

`Reads ns` relates two states when the second comes from the first by
the notifications `ns`, one by one, with anything in between that leaves
the turn ledger alone. `reads_delivered` says that every way to deliver a
log is one. It is what invariants over a log are proved along.
-/

set_option autoImplicit false

namespace Yaldabaoth

/-! ### What the actor records -/

/-! ### No runs -/

def Notification.isReply : Notification → Bool
  | .replyEvent _ _ => true
  | _ => false

/-- No reply follows a reply. -/
def NoRuns : List Notification → Prop
  | [] => True
  | note :: rest => (note.isReply = true → ∀ next ∈ rest.head?, next.isReply = false) ∧ NoRuns rest

theorem NoRuns.left {ns ns' : List Notification} (h : NoRuns (ns ++ ns')) : NoRuns ns := by
  induction ns with
  | nil => trivial
  | cons note rest ih =>
      refine ⟨fun hreply next hnext => h.1 hreply next ?_, ih h.2⟩
      cases rest with
      | nil => cases hnext
      | cons _ _ => exact hnext

theorem NoRuns.right {ns ns' : List Notification} (h : NoRuns (ns ++ ns')) : NoRuns ns' := by
  induction ns with
  | nil => exact h
  | cons note rest ih => exact ih h.2

/-- The notifications of a log. -/
def logNotes (sid : ServerSessionId) (log : List LogItem) : List Notification :=
  log.flatMap (·.notes sid)

theorem LogItem.notes_head {item : LogItem} (sid : ServerSessionId) (hvalid : item.Valid) :
    ∃ note rest, item.notes sid = note :: rest ∧ note.isReply = false := by
  obtain ⟨generation, turn, seq, fact⟩ := item
  cases fact with
  | content event =>
      obtain ⟨kind, hkind⟩ := Option.isSome_iff_exists.1 hvalid
      simp only [notes, hkind]
      exact ⟨_, _, rfl, rfl⟩
  | _ => exact ⟨_, _, rfl, rfl⟩

theorem noRuns_logNotes (sid : ServerSessionId) {log : List LogItem}
    (hvalid : ∀ item ∈ log, item.Valid) : NoRuns (logNotes sid log) := by
  induction log with
  | nil => trivial
  | cons item log ih =>
      have hlog := ih fun i hi => hvalid i (List.mem_cons_of_mem _ hi)
      have hhead : ∀ next ∈ (logNotes sid log).head?, next.isReply = false := by
        intro next hnext
        cases log with
        | nil => cases hnext
        | cons item' log' =>
            have hitem' : item'.Valid := hvalid item' (List.mem_cons_of_mem _ List.mem_cons_self)
            obtain ⟨note, rest, hnotes, hreply⟩ := LogItem.notes_head sid hitem'
            rw [logNotes, List.flatMap_cons, hnotes] at hnext
            cases hnext
            exact hreply
      have hitem := hvalid item List.mem_cons_self
      show NoRuns (item.notes sid ++ logNotes sid log)
      obtain ⟨generation, turn, seq, fact⟩ := item
      cases fact with
      | content event =>
          obtain ⟨kind, hkind⟩ := Option.isSome_iff_exists.1 hitem
          simp only [LogItem.notes, hkind]
          exact ⟨nofun, fun _ => hhead, hlog⟩
      | prompt text => exact ⟨nofun, nofun, hlog⟩
      | turnEnd outcome => exact ⟨nofun, nofun, hlog⟩
      | replayEnd => exact ⟨nofun, fun _ => hhead, hlog⟩
      | opened resumed => exact ⟨nofun, hlog⟩
      | attached acpSessionId => exact ⟨nofun, hlog⟩
      | detached reason => exact ⟨nofun, hlog⟩
      | compacted throughTurn summary => exact ⟨nofun, hlog⟩

namespace AgentState

variable {T : Type} [Screen T] {sid : ServerSessionId} {claude claude' : AgentState T}

/-- One notification. -/
def note (sid : ServerSessionId) (claude : AgentState T) (n : Notification) : AgentState T :=
  claude.applyServerBatch sid [n]

theorem note_reply (claude : AgentState T) (event : ReplyEvent) :
    claude.note sid (.replyEvent sid event) = claude.observeReplyRun [event] := by
  simp [note, applyServerBatch, drain]

theorem note_other (claude : AgentState T) {n : Notification} (hn : n.isReply = false) :
    claude.note sid n = claude.observe sid n := by
  have hnone : ∀ claude : AgentState T, claude.observeReplyRun [] = claude := fun _ => rfl
  cases n with
  | replyEvent sessionId event => cases hn
  | _ => simp [note, applyServerBatch, drain, hnone]

theorem drain_cons (claude : AgentState T) {n : Notification} {ns : List Notification}
    (hns : ∀ next ∈ ns.head?, n.isReply = true → next.isReply = false) :
    claude.drain sid [] (n :: ns) = (claude.note sid n).drain sid [] ns := by
  have hnone : ∀ claude : AgentState T, claude.observeReplyRun [] = claude := fun _ => rfl
  cases n with
  | replyEvent sessionId event =>
      by_cases hsid : sessionId = sid
      · subst hsid
        rw [note_reply, drain, if_pos rfl]
        cases ns with
        | nil => rfl
        | cons next rest =>
            have hnext : next.isReply = false := hns next rfl rfl
            cases next with
            | replyEvent _ _ => cases hnext
            | _ => rfl
      · rw [drain, if_neg hsid, hnone]
        simp only [note, applyServerBatch, drain, if_neg hsid, hnone]
  | _ =>
      rw [note_other claude rfl]
      rfl

/-- A batch without runs is its notifications one by one. -/
theorem applyServerBatch_eq_foldl {ns : List Notification} (hns : NoRuns ns)
    (claude : AgentState T) : claude.applyServerBatch sid ns = ns.foldl (note sid) claude := by
  induction ns generalizing claude with
  | nil => rfl
  | cons n ns ih =>
      show claude.drain sid [] (n :: ns) = _
      rw [drain_cons claude fun next hnext hreply => hns.1 hreply next hnext, List.foldl_cons]
      exact ih hns.2 _

end AgentState

/-! ### Deliveries -/

/-- What reaches a tile: a batch of notifications, or a submit. -/
inductive TileAct where
  | batch (ns : List Notification)
  | submit (text : String)
deriving Repr, DecidableEq

/-- The notifications that a sequence delivers. -/
def delivered (acts : List TileAct) : List Notification :=
  acts.flatMap fun
    | .batch ns => ns
    | .submit _ => []

theorem delivered_append (as as' : List TileAct) :
    delivered (as ++ as') = delivered as ++ delivered as' := List.flatMap_append

namespace AgentState

variable {T : Type} [Screen T] {sid : ServerSessionId} {claude claude' claude'' : AgentState T}

def act (sid : ServerSessionId) (claude : AgentState T) : TileAct → AgentState T
  | .batch ns => claude.applyServerBatch sid ns
  | .submit text => claude.submit text

/-- A tile after a sequence. -/
def acts (sid : ServerSessionId) (claude : AgentState T) (as : List TileAct) : AgentState T :=
  as.foldl (act sid) claude

/-- The notifications `ns` one by one, and quiet steps between them. -/
inductive Reads (sid : ServerSessionId) : List Notification → AgentState T → AgentState T → Prop
  | done {claude claude' : AgentState T} : Quiet claude claude' → Reads sid [] claude claude'
  | note {n : Notification} {ns : List Notification} {claude before claude' : AgentState T} :
      Quiet claude before → Reads sid ns (before.note sid n) claude' →
      Reads sid (n :: ns) claude claude'

theorem Reads.quiet {ns : List Notification} (hquiet : Quiet claude claude')
    (h : Reads sid ns claude' claude'') : Reads sid ns claude claude'' := by
  cases h with
  | done h => exact .done (hquiet.trans h)
  | note h hrest => exact .note (hquiet.trans h) hrest

theorem Reads.append {ns ns' : List Notification} (h : Reads sid ns claude claude')
    (h' : Reads sid ns' claude' claude'') : Reads sid (ns ++ ns') claude claude'' := by
  induction h with
  | done hquiet => exact h'.quiet hquiet
  | note hquiet _ ih => exact .note hquiet (ih h')

theorem Reads.split {ns ns' : List Notification} (h : Reads sid (ns ++ ns') claude claude'') :
    ∃ claude', Reads sid ns claude claude' ∧ Reads sid ns' claude' claude'' := by
  induction ns generalizing claude with
  | nil => exact ⟨claude, .done (.refl _), h⟩
  | cons n ns ih =>
      cases h with
      | note hquiet hrest =>
          obtain ⟨claude', hns, hns'⟩ := ih hrest
          exact ⟨claude', .note hquiet hns, hns'⟩

theorem Reads.one {n : Notification} (h : Reads sid [n] claude claude') :
    ∃ before, Quiet claude before ∧ Quiet (before.note sid n) claude' := by
  rcases h with _ | ⟨hbefore, ⟨hafter⟩⟩
  exact ⟨_, hbefore, hafter⟩

theorem Reads.two {n n' : Notification} (h : Reads sid [n, n'] claude claude') :
    ∃ before between, Quiet claude before ∧ Quiet (before.note sid n) between ∧
      Quiet (between.note sid n') claude' := by
  rcases h with _ | ⟨hbefore, hrest⟩
  obtain ⟨between, hbetween, hafter⟩ := hrest.one
  exact ⟨_, between, hbefore, hbetween, hafter⟩

theorem reads_foldl (ns : List Notification) (claude : AgentState T) :
    Reads sid ns claude (ns.foldl (note sid) claude) := by
  induction ns generalizing claude with
  | nil => exact .done (.refl _)
  | cons n ns ih => exact .note (.refl _) (ih _)

/-- Every delivery reads its notifications. -/
theorem reads_delivered {as : List TileAct} (hruns : NoRuns (delivered as))
    (claude : AgentState T) : Reads sid (delivered as) claude (claude.acts sid as) := by
  induction as generalizing claude with
  | nil => exact .done (.refl _)
  | cons a as ih =>
      cases a with
      | submit text => exact (ih hruns (claude.submit text)).quiet (claude.submit_quiet text)
      | batch ns =>
          have hbatch : Reads sid ns claude (claude.applyServerBatch sid ns) := by
            rw [applyServerBatch_eq_foldl hruns.left]
            exact reads_foldl ns claude
          exact hbatch.append (ih hruns.right _)

end AgentState

end Yaldabaoth
