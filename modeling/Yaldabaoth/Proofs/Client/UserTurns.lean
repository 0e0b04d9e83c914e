import Yaldabaoth.Lib.Backlog
import Yaldabaoth.Model.AgentTranscript
import Mathlib.Data.List.Perm.Subperm

/-!
# `Yaldabaoth.Proofs.Client.UserTurns`: one row a turn

What the GUI feeds to the reconciler is a sequence of `TurnEvent`s. The
reconciler should insert a row at every submit and skip every echo of it
(`RendersOnce`). It holds two things only: a backlog of submitted texts,
which an echo settles by its text, and the text announced last since the
turn boundary. So it takes an echo for that of a new turn exactly when
its text is not in the backlog and was not announced last.

`rendersOnce_iff` says so of the sequence alone. The condition fails as
soon as submits overlap: two turns are submitted, the server echoes both,
and then the agent echoes the first.
-/

set_option autoImplicit false

namespace Yaldabaoth

open Backlog

/-! ### Sequences -/

/-- The two sources of echoes. -/
inductive EchoSource where
  | server
  | agent
deriving Repr, DecidableEq

/-- What reaches the transcript. An echo is labelled with the turn it
belongs to, which the reconciler does not see. -/
inductive TurnEvent where
  | submit (text : String)
  | echo (source : EchoSource) (turn : Nat) (text : String) (replaying : Bool)
  | chunk
  | boundary
deriving Repr, DecidableEq

namespace TurnEvent

/-- The reconciler after an event, and what it answers. -/
def feed (r : UserTurnReconciler) : TurnEvent → UserTurnReconciler × Option UserTurnAction
  | .submit text => (r.reconcile .localSubmit text false).map id some
  | .echo _ _ text replaying => (r.reconcile .echo text replaying).map id some
  | .chunk => (r, none)
  | .boundary => (r.noteTurnProgressed, none)

/-- The reconciler after a sequence. -/
def after (es : List TurnEvent) : UserTurnReconciler :=
  es.foldl (fun r e => (feed r e).1) .new

/-- The texts submitted, in order. -/
def submitted (es : List TurnEvent) : List String :=
  es.filterMap fun
    | .submit text => some (normalizeUserText text)
    | _ => none

/-- The turns of which an echo has arrived. -/
def echoed (es : List TurnEvent) : List Nat :=
  es.filterMap fun
    | .echo _ turn _ _ => some turn
    | _ => none

/-- The turns one source has echoed. -/
def echoedBy (source : EchoSource) (es : List TurnEvent) : List Nat :=
  es.filterMap fun
    | .echo source' turn _ _ => if source' = source then some turn else none
    | _ => none

/-- The turns that still wait for their first echo. -/
def outstanding (es : List TurnEvent) : List Nat :=
  (List.range (submitted es).length).filter (· ∉ echoed es)

/-- What may follow a sequence: the next echo of a source is for a later
turn than its last, it comes after the submit of its turn and before the
boundary, its text is that of the submit but for white space at the end,
and at most 64 submits wait for an echo. -/
def mayFollow (es : List TurnEvent) : TurnEvent → Prop
  | .submit _ => (outstanding es).length < maxPendingEchoes
  | .echo source turn text _ =>
      (submitted es)[turn]? = some (normalizeUserText text) ∧
      (∀ earlier ∈ echoedBy source es, earlier < turn) ∧
      es.count .boundary ≤ turn
  | .chunk => True
  | .boundary => es.count .boundary < (submitted es).length

/-- The sequences of the GUI. -/
def Orderly (es : List TurnEvent) : Prop :=
  ∀ before e rest, es = before ++ e :: rest → mayFollow before e

/-- One `Insert` a submit, `Skip` for every echo. -/
def RendersOnce (es : List TurnEvent) : Prop :=
  ∀ before e rest, es = before ++ e :: rest →
    (∀ text, e = .submit text → (feed (after before) e).2 = some (.insert false)) ∧
    (∀ source turn text replaying, e = .echo source turn text replaying →
      (feed (after before) e).2 = some .skip)

/-! ### The condition -/

/-- Submits and echoes as requests and answers. -/
def entries (es : List TurnEvent) : List (Entry String) :=
  es.filterMap fun
    | .submit text => some (.request (normalizeUserText text))
    | .echo _ _ text _ => some (.answer (normalizeUserText text))
    | _ => none

/-- The text of the last submit or echo since the last boundary. -/
def lastText (es : List TurnEvent) : Option String :=
  es.foldl (fun last e => match e with
    | .submit text => some (normalizeUserText text)
    | .echo _ _ text _ => some (normalizeUserText text)
    | .chunk => last
    | .boundary => none) none

/-- Every echo has a submit of its text left to answer: some stretch of
submits and echoes right before it holds more submits than echoes of
that text. Or it follows a submit or an echo of that text directly, with
neither a boundary nor another submit or echo in between, and is not part
of a replay. -/
def Answering (es : List TurnEvent) : Prop :=
  ∀ before source turn text replaying rest,
    es = before ++ .echo source turn text replaying :: rest →
    (∃ stretch, stretch <:+ entries before ∧
      answers (normalizeUserText text) stretch < requests (normalizeUserText text) stretch) ∨
    (replaying = false ∧ lastText before = some (normalizeUserText text))

/-! ### One event more -/

/-- A split of a sequence with one event more splits at that event or
before it. -/
theorem split_snoc {es before rest : List TurnEvent} {e e' : TurnEvent}
    (h : es ++ [e] = before ++ e' :: rest) :
    (before = es ∧ e' = e ∧ rest = []) ∨ ∃ rest', rest = rest' ++ [e] ∧ es = before ++ e' :: rest' := by
  obtain rfl | ⟨rest', last, rfl⟩ := List.eq_nil_or_concat rest
  · obtain ⟨h₁, h₂⟩ := List.append_inj' h rfl
    exact .inl ⟨h₁.symm, (List.cons.inj h₂).1.symm, rfl⟩
  · right
    have hsplit : es ++ [e] = (before ++ e' :: rest') ++ [last] := by simpa using h
    obtain ⟨h₁, h₂⟩ := List.append_inj' hsplit rfl
    exact ⟨rest', by rw [(List.cons.inj h₂).1, List.concat_eq_append], h₁⟩

section snoc

variable (es : List TurnEvent) (e : TurnEvent)

@[simp] theorem after_snoc : after (es ++ [e]) = (feed (after es) e).1 := by
  rw [after, List.foldl_append]
  rfl

@[simp] theorem submitted_snoc_submit (text : String) :
    submitted (es ++ [.submit text]) = submitted es ++ [normalizeUserText text] := by
  simp [submitted]

@[simp] theorem echoed_snoc_submit (text : String) :
    echoed (es ++ [.submit text]) = echoed es := by
  simp [echoed]

@[simp] theorem submitted_snoc_echo (source : EchoSource) (turn : Nat) (text : String)
    (replaying : Bool) :
    submitted (es ++ [.echo source turn text replaying]) = submitted es := by
  simp [submitted]

@[simp] theorem echoed_snoc_echo (source : EchoSource) (turn : Nat) (text : String)
    (replaying : Bool) :
    echoed (es ++ [.echo source turn text replaying]) = echoed es ++ [turn] := by
  simp [echoed]

@[simp] theorem entries_snoc_submit (text : String) :
    entries (es ++ [.submit text]) = entries es ++ [.request (normalizeUserText text)] := by
  simp [entries]

@[simp] theorem entries_snoc_echo (source : EchoSource) (turn : Nat) (text : String)
    (replaying : Bool) :
    entries (es ++ [.echo source turn text replaying]) =
      entries es ++ [.answer (normalizeUserText text)] := by
  simp [entries]

@[simp] theorem lastText_snoc_submit (text : String) :
    lastText (es ++ [.submit text]) = some (normalizeUserText text) := by
  simp [lastText]

@[simp] theorem lastText_snoc_echo (source : EchoSource) (turn : Nat) (text : String)
    (replaying : Bool) :
    lastText (es ++ [.echo source turn text replaying]) = some (normalizeUserText text) := by
  simp [lastText]

/-- What was orderly so far, and the event it goes on with. -/
theorem orderly_snoc : Orderly (es ++ [e]) ↔ Orderly es ∧ mayFollow es e := by
  constructor
  · intro h
    refine ⟨?_, h es e [] rfl⟩
    rintro before e' rest rfl
    exact h before e' (rest ++ [e]) (by simp)
  · rintro ⟨h, he⟩ before e' rest heq
    obtain ⟨rfl, rfl, rfl⟩ | ⟨rest', rfl, rfl⟩ := split_snoc heq
    · exact he
    · exact h before e' rest' rfl

end snoc

/-! ### The backlog stays short -/

/-- The texts of the turns that wait for an echo. -/
def outstandingTexts (es : List TurnEvent) : List String :=
  (outstanding es).filterMap ((submitted es)[·]?)

theorem length_outstandingTexts_le (es : List TurnEvent) :
    (outstandingTexts es).length ≤ (outstanding es).length :=
  List.length_filterMap_le _ _

/-- Only turns that were submitted are echoed. -/
theorem lt_of_mem_echoed {es : List TurnEvent} (h : Orderly es) :
    ∀ turn ∈ echoed es, turn < (submitted es).length := by
  induction es using List.reverseRecOn with
  | nil => simp [echoed]
  | append_singleton es e ih =>
      obtain ⟨horderly, hfollows⟩ := (orderly_snoc es e).1 h
      cases e with
      | submit text =>
          intro turn hturn
          rw [echoed_snoc_submit] at hturn
          have hlt := ih horderly turn hturn
          rw [submitted_snoc_submit, List.length_append]
          omega
      | echo source turn text replaying =>
          intro turn' hturn'
          rw [echoed_snoc_echo, List.mem_append, List.mem_singleton] at hturn'
          rw [submitted_snoc_echo]
          obtain hturn' | rfl := hturn'
          · exact ih horderly turn' hturn'
          · obtain ⟨hlt, -⟩ := List.getElem?_eq_some_iff.1 hfollows.1
            exact hlt
      | chunk => simpa [echoed, submitted] using ih horderly
      | boundary => simpa [echoed, submitted] using ih horderly

theorem outstanding_snoc_submit {es : List TurnEvent} (h : Orderly es) (text : String) :
    outstanding (es ++ [.submit text]) = outstanding es ++ [(submitted es).length] := by
  have hnew : (submitted es).length ∉ echoed es := fun hmem =>
    absurd (lt_of_mem_echoed h _ hmem) (Nat.lt_irrefl _)
  rw [outstanding, submitted_snoc_submit, echoed_snoc_submit, List.length_append,
    List.length_singleton, List.range_succ, List.filter_append]
  simp [outstanding, hnew]

theorem outstandingTexts_snoc_submit {es : List TurnEvent} (h : Orderly es) (text : String) :
    outstandingTexts (es ++ [.submit text]) = outstandingTexts es ++ [normalizeUserText text] := by
  rw [outstandingTexts, outstanding_snoc_submit h, submitted_snoc_submit, List.filterMap_append]
  congr 1
  · refine List.filterMap_congr fun turn hturn => ?_
    have hlt : turn < (submitted es).length := by
      simpa using (List.mem_filter.1 hturn).1
    rw [List.getElem?_append_left hlt]
  · simp

/-- The first echo of a turn takes its text out, a second one none. -/
theorem outstandingTexts_snoc_echo {es : List TurnEvent} {source : EchoSource} {turn : Nat}
    {text : String} {replaying : Bool}
    (hturn : (submitted es)[turn]? = some (normalizeUserText text)) :
    ((outstandingTexts es).erase (normalizeUserText text)).Subperm
        (outstandingTexts (es ++ [.echo source turn text replaying])) := by
  have hout : outstanding (es ++ [.echo source turn text replaying]) =
      (outstanding es).filter (· ≠ turn) := by
    rw [outstanding, outstanding, submitted_snoc_echo, echoed_snoc_echo, List.filter_filter]
    refine List.filter_congr fun x _ => ?_
    simp [and_comm]
  have hnodup : (outstanding es).Nodup := (List.nodup_range).filter _
  have htexts : outstandingTexts (es ++ [.echo source turn text replaying]) =
      ((outstanding es).filter (· ≠ turn)).filterMap ((submitted es)[·]?) := by
    rw [outstandingTexts, hout, submitted_snoc_echo]
  rw [htexts]
  by_cases hmem : turn ∈ outstanding es
  · have hperm := (List.perm_cons_erase hmem).filterMap ((submitted es)[·]?)
    rw [List.filterMap_cons_some hturn] at hperm
    have herase := hperm.erase (normalizeUserText text)
    have hfilter : (outstanding es).filter (· ≠ turn) = (outstanding es).erase turn := by
      rw [hnodup.erase_eq_filter]
      exact List.filter_congr fun x _ => by by_cases hx : x = turn <;> simp [hx]
    rw [List.erase_cons_head, ← hfilter] at herase
    exact herase.subperm
  · have hsame : (outstanding es).filter (· ≠ turn) = outstanding es := by
      refine List.filter_eq_self.2 fun x hx => ?_
      simp only [decide_eq_true_eq]
      rintro rfl
      exact hmem hx
    rw [hsame]
    exact List.erase_subperm _ _

/-- An open text is the text of a turn that waits for its echo. -/
theorem backlog_subperm {es : List TurnEvent} (h : Orderly es) :
    (backlog (entries es)).Subperm (outstandingTexts es) := by
  induction es using List.reverseRecOn with
  | nil => exact List.nil_subperm
  | append_singleton es e ih =>
      obtain ⟨horderly, hfollows⟩ := (orderly_snoc es e).1 h
      have hopen := ih horderly
      cases e with
      | submit text =>
          rw [entries_snoc_submit, backlog_append_singleton, outstandingTexts_snoc_submit horderly]
          exact (List.subperm_append_right _).2 hopen
      | echo source turn text replaying =>
          rw [entries_snoc_echo, backlog_append_singleton]
          exact (hopen.erase (normalizeUserText text)).trans (outstandingTexts_snoc_echo hfollows.1)
      | chunk => simpa [entries, outstandingTexts, outstanding, submitted, echoed] using hopen
      | boundary => simpa [entries, outstandingTexts, outstanding, submitted, echoed] using hopen

/-! ### What the reconciler knows -/

/-- The answer to an echo. -/
theorem feed_echo (r : UserTurnReconciler) (source : EchoSource) (turn : Nat) (text : String)
    (replaying : Bool) :
    (feed r (.echo source turn text replaying)).2 = some .skip ↔
      normalizeUserText text ∈ r.pendingLocal ∨
        (replaying = false ∧ r.lastInserted = some (normalizeUserText text)) := by
  show some (r.reconcileNormalized (normalizeUserText text) replaying .echo).2 = some .skip ↔ _
  rw [Option.some_inj, UserTurnReconciler.reconcileNormalized]
  split
  · next hmem => simp [hmem]
  · next hmem =>
      split
      · next hlast => simpa [hmem] using hlast
      · next hlast => simpa [hmem] using hlast

/-- Whatever it answers, it settles the text and remembers it. -/
theorem feed_echo_state (r : UserTurnReconciler) (source : EchoSource) (turn : Nat) (text : String)
    (replaying : Bool) :
    (feed r (.echo source turn text replaying)).1 =
      { pendingLocal := r.pendingLocal.erase (normalizeUserText text),
        lastInserted := some (normalizeUserText text) } := by
  show (r.reconcileNormalized (normalizeUserText text) replaying .echo).1 = _
  rw [UserTurnReconciler.reconcileNormalized]
  split
  · rfl
  · next hmem =>
      rw [List.erase_of_not_mem hmem]
      split
      · next hlast =>
          have hsame : r.lastInserted = some (normalizeUserText text) := by
            simp only [Bool.and_eq_true, beq_iff_eq] at hlast
            exact hlast.2
          rw [← hsame]
      · rfl

theorem feed_submit (r : UserTurnReconciler) (text : String) :
    (feed r (.submit text)).2 = some (.insert false) := rfl

/-- A submit joins the queue, which has room for it. -/
theorem feed_submit_state {r : UserTurnReconciler} (h : r.pendingLocal.length < maxPendingEchoes)
    (text : String) :
    (feed r (.submit text)).1 =
      { pendingLocal := r.pendingLocal ++ [normalizeUserText text],
        lastInserted := some (normalizeUserText text) } := by
  show (r.reconcileNormalized (normalizeUserText text) false .localSubmit).1 = _
  rw [UserTurnReconciler.reconcileNormalized, if_neg (Nat.not_le.2 h)]

/-- The reconciler after an orderly sequence: the open texts, and the
text announced last. -/
theorem after_eq {es : List TurnEvent} (h : Orderly es) :
    after es = { pendingLocal := backlog (entries es), lastInserted := lastText es } := by
  induction es using List.reverseRecOn with
  | nil => rfl
  | append_singleton es e ih =>
      obtain ⟨horderly, hfollows⟩ := (orderly_snoc es e).1 h
      rw [after_snoc, ih horderly]
      cases e with
      | submit text =>
          have hshort : (backlog (entries es)).length < maxPendingEchoes := by
            have hopen := (backlog_subperm horderly).length_le
            have htexts := length_outstandingTexts_le es
            have hroom : (outstanding es).length < maxPendingEchoes := hfollows
            omega
          rw [feed_submit_state hshort, entries_snoc_submit, lastText_snoc_submit,
            backlog_append_singleton]
          rfl
      | echo source turn text replaying =>
          rw [feed_echo_state, entries_snoc_echo, lastText_snoc_echo, backlog_append_singleton]
          rfl
      | chunk => simp [feed, entries, lastText]
      | boundary => simp [feed, UserTurnReconciler.noteTurnProgressed, entries, lastText]

/-- A prefix of an orderly sequence is orderly. -/
theorem Orderly.front {before rest : List TurnEvent} (h : Orderly (before ++ rest)) :
    Orderly before := by
  rintro first e back rfl
  exact h first e (back ++ rest) (by simp)

/-- Every submitted turn is inserted once and all its echoes are skipped
exactly when every echo has a submit of its text left to answer, or
directly follows an announcement of that text. -/
theorem rendersOnce_iff (es : List TurnEvent) (h : Orderly es) :
    RendersOnce es ↔ Answering es := by
  have hskips : ∀ before source turn text replaying rest,
      es = before ++ .echo source turn text replaying :: rest →
        ((feed (after before) (.echo source turn text replaying)).2 = some .skip ↔
          (∃ stretch, stretch <:+ entries before ∧
            answers (normalizeUserText text) stretch < requests (normalizeUserText text) stretch) ∨
          (replaying = false ∧ lastText before = some (normalizeUserText text))) := by
    rintro before source turn text replaying rest rfl
    rw [feed_echo, after_eq h.front, mem_backlog_iff]
  constructor
  · rintro hrenders before source turn text replaying rest heq
    rw [← hskips before source turn text replaying rest heq]
    exact (hrenders before _ rest heq).2 source turn text replaying rfl
  · rintro hanswering before e rest heq
    refine ⟨?_, ?_⟩
    · rintro text rfl
      exact feed_submit _ text
    · rintro source turn text replaying rfl
      exact (hskips before source turn text replaying rest heq).2
        (hanswering before source turn text replaying rest heq)

/-! ### Two turns at once -/

instance decidableMayFollow (es : List TurnEvent) : (e : TurnEvent) → Decidable (mayFollow es e)
  | .submit _ => inferInstanceAs (Decidable ((outstanding es).length < maxPendingEchoes))
  | .echo source turn text _ =>
      inferInstanceAs (Decidable ((submitted es)[turn]? = some (normalizeUserText text) ∧
        (∀ earlier ∈ echoedBy source es, earlier < turn) ∧ es.count .boundary ≤ turn))
  | .chunk => .isTrue trivial
  | .boundary => inferInstanceAs (Decidable (es.count .boundary < (submitted es).length))

/-- A sequence is orderly when each of its events may follow those
before it. -/
theorem orderly_of_take {es : List TurnEvent}
    (h : ∀ n : Fin es.length, mayFollow (es.take n) es[n]) : Orderly es := by
  rintro before e rest rfl
  simpa using h ⟨before.length, by simp⟩

/-- One turn after the other, with chunks in between. -/
def turnByTurn : List TurnEvent :=
  [.submit "a", .echo .server 0 "a" false, .chunk, .echo .agent 0 "a\n" false, .boundary,
    .submit "a", .chunk, .echo .agent 1 "a" false, .echo .server 1 "a" false, .boundary]

theorem rendersOnce_iff_turnByTurn : RendersOnce turnByTurn ↔ Answering turnByTurn :=
  rendersOnce_iff turnByTurn (orderly_of_take (by decide))

/-- Two submits, then the server's echo of each, then the agent's echo of
the first. -/
def overlapping : List TurnEvent :=
  [.submit "a", .submit "b", .echo .server 0 "a" false, .echo .server 1 "b" false,
    .echo .agent 0 "a" false]

/-- The agent's echo of the first turn is inserted as a turn of its own. -/
theorem overlapping_renders_twice : Orderly overlapping ∧ ¬ RendersOnce overlapping := by
  refine ⟨orderly_of_take (by decide), fun hrenders => ?_⟩
  have hlast := (hrenders (overlapping.take 4) (.echo .agent 0 "a" false) [] rfl).2 _ _ _ _ rfl
  revert hlast
  decide

end TurnEvent

end Yaldabaoth
