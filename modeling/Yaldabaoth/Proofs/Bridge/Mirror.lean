import Yaldabaoth.Lib.Machine
import Yaldabaoth.Model.ChatBridge

/-!
# `Yaldabaoth.Proofs.Bridge.Mirror`: one message a turn, and what it shows

The task keeps what a turn has shown twice: the folder remembers that it
posted and what it rendered last, the task remembers the id of the message
that runs. `ChatTurn` is what the facts of a turn add up to, and `Tracks` says
how both memories follow it. They part where the first send of a turn
fails: the folder takes the message as posted, no message runs, and every
later edit of that turn goes nowhere.
-/

set_option autoImplicit false

namespace Yaldabaoth

/-! ### What a turn renders -/

theorem ofList_eq_empty {chars : List Char} : String.ofList chars = "" ↔ chars = [] := by
  constructor
  · intro h
    rw [← String.toList_ofList (l := chars), h]
    rfl
  · rintro rfl
    rfl

/-- A text is trimmed to nothing when it is white. -/
theorem trim_eq_empty {text : String} : trim text = "" ↔ ∀ ch ∈ text.toList, isWhitespace ch := by
  rw [trim, ofList_eq_empty, List.rdropWhile_eq_nil_iff]
  constructor
  · intro hwhite ch hch
    rw [← List.takeWhile_append_dropWhile (p := isWhitespace) (l := text.toList),
      List.mem_append] at hch
    rcases hch with hfront | hback
    · exact List.mem_takeWhile_imp hfront
    · exact hwhite ch hback
  · intro hwhite ch hch
    exact hwhite ch ((List.dropWhile_sublist _).subset hch)

theorem intercalate_ne_empty (sep : String) {line : String} (lines : List String) (h : line ≠ "") :
    sep.intercalate (line :: lines) ≠ "" := by
  cases lines with
  | nil =>
      rw [String.intercalate_singleton]
      exact h
  | cons next lines =>
      rw [String.intercalate_cons_cons]
      intro hempty
      simp only [String.append_eq_empty_iff] at hempty
      exact h hempty.1.1

section turn

variable (kind : ToolCall → ToolKind) (title : ToolCall → String)

theorem toolLine_ne_empty (tc : ToolCall) : toolLine kind title tc ≠ "" := by
  rw [toolLine]
  split <;> simp [String.append_eq_empty_iff]

/-- What was said and which tools were started in a turn so far, and
whether the send of its first text failed. -/
structure ChatTurn where
  prose : String := ""
  tools : List ToolCall := []
  failed : Bool := false

namespace ChatTurn

/-- What the running message of the turn is to show. -/
def render (t : ChatTurn) : String :=
  EventFolder.render { prose := t.prose, tools := t.tools.map (toolLine kind title) }

/-- The turn after a fact about it. -/
def heard (t : ChatTurn) : AgentEventKind → ChatTurn
  | .chunk text .message => { t with prose := t.prose ++ text }
  | .toolCallStarted tc => { t with tools := t.tools ++ [tc] }
  | _ => t

/-- The first text of the turn is what is sent. -/
def after (t : ChatTurn) (fact : AgentEventKind) (outcome : Outcome) : ChatTurn :=
  { t.heard fact with
    failed := t.failed ||
      (t.render kind title == "" && (t.heard fact).render kind title != "" &&
        outcome.send.isNone) }

/-- The turn that the next fact is about. -/
def next (t : ChatTurn) (fact : AgentEventKind) (outcome : Outcome) : ChatTurn :=
  match fact with
  | .turnEnded _ => {}
  | _ => t.after kind title fact outcome

theorem render_eq_empty {t : ChatTurn} : t.render kind title = "" ↔ trim t.prose = "" ∧ t.tools = [] := by
  rw [render, EventFolder.render]
  cases htools : t.tools with
  | nil => simp
  | cons tc rest =>
      have hline := intercalate_ne_empty "\n" (rest.map (toolLine kind title))
        (toolLine_ne_empty kind title tc)
      simp [String.append_eq_empty_iff, hline]

/-- What a turn shows is not taken back. -/
theorem render_of_heard {t : ChatTurn} {fact : AgentEventKind}
    (h : (t.heard fact).render kind title = "") : t.render kind title = "" := by
  rw [render_eq_empty] at h ⊢
  cases fact with
  | chunk text role =>
      cases role with
      | message =>
          refine ⟨trim_eq_empty.2 fun ch hch => trim_eq_empty.1 h.1 ch ?_, h.2⟩
          show ch ∈ (t.prose ++ text).toList
          rw [String.toList_append]
          exact List.mem_append_left _ hch
      | thought => exact h
  | toolCallStarted tc => exact absurd h.2 (by simp [heard])
  | _ => exact h

/-- The folder of the turn. -/
def folder (t : ChatTurn) : EventFolder where
  prose := t.prose
  tools := t.tools.map (toolLine kind title)
  posted := decide (t.render kind title ≠ "")
  lastRender := t.render kind title

@[simp] theorem render_empty : ChatTurn.render kind title {} = "" :=
  (render_eq_empty kind title).2 ⟨rfl, rfl⟩

@[simp] theorem folder_empty : ChatTurn.folder kind title {} = {} := by
  simp [folder]

/-- The op of a change from what `t` shows to what `t'` shows. -/
def ops (t t' : ChatTurn) : List ChatOp :=
  if t'.render kind title = t.render kind title then []
  else if t.render kind title = "" then [.post (t'.render kind title)]
  else [.edit (t'.render kind title)]

theorem emitContent_eq (t t' : ChatTurn)
    (hstays : t'.render kind title = "" → t.render kind title = "") :
    ({ t.folder kind title with
        prose := t'.prose
        tools := t'.tools.map (toolLine kind title) } : EventFolder).emitContent =
      (t'.folder kind title, t.ops kind title t') := by
  have hrender : ({ t.folder kind title with
      prose := t'.prose
      tools := t'.tools.map (toolLine kind title) } : EventFolder).render =
        t'.render kind title := rfl
  rw [EventFolder.emitContent, hrender]
  by_cases hsame : t'.render kind title = t.render kind title
  · simp [folder, ops, hsame]
  · have hsome : t'.render kind title ≠ "" := fun hempty => hsame (hempty.trans (hstays hempty).symm)
    by_cases hfirst : t.render kind title = "" <;> simp [folder, ops, hsame, hsome, hfirst]

/-- What a folder does with a fact that does not end the turn. -/
theorem onEvent_eq (t : ChatTurn) {fact : AgentEventKind}
    (hgoes : ∀ outcome, fact ≠ .turnEnded outcome) :
    (t.folder kind title).onEvent kind title fact =
      ((t.heard fact).folder kind title, t.ops kind title (t.heard fact)) := by
  have hquiet : (t.folder kind title, []) = (t.folder kind title, t.ops kind title t) := by
    simp [ops]
  cases fact with
  | chunk text role =>
      cases role with
      | message =>
          exact emitContent_eq kind title t (t.heard (.chunk text .message))
            (render_of_heard kind title)
      | thought => exact hquiet
  | toolCallStarted tc =>
      have hemit := emitContent_eq kind title t (t.heard (.toolCallStarted tc))
        (render_of_heard kind title)
      simp only [heard, List.map_append, List.map_cons, List.map_nil] at hemit
      exact hemit
  | turnEnded outcome => exact absurd rfl (hgoes outcome)
  | _ => exact hquiet

/-- At the end of a turn nothing is left to show. -/
theorem onEvent_ended (t : ChatTurn) (outcome : TurnOutcome) :
    (t.folder kind title).onEvent kind title (.turnEnded outcome) = ({}, [.finalize]) := by
  have hrender : (t.folder kind title).render = t.render kind title := rfl
  rw [EventFolder.onEvent, EventFolder.finalizeTurn, hrender]
  simp [folder]

end ChatTurn

end turn

/-! ### The mirror of one session -/

namespace ChatCall

/-- The id of a message that was sent. -/
def sent? : ChatCall → Option MessageId
  | .send _ _ sent => sent
  | _ => none

/-- The content that a call was to show. -/
def content? : ChatCall → Option String
  | .send _ text _ => some text
  | .edit _ _ text _ => some text
  | _ => none

/-- The message and the text that a call that succeeded made it show. -/
def landed? : ChatCall → Option (MessageId × String)
  | .send _ text (some id) => some (id, text)
  | .edit _ id text true => some (id, text)
  | _ => none

end ChatCall

/-- What the last notification did: the turn before and after it, the
sends of the turn that succeeded, and the calls. -/
structure MirrorStep where
  before : ChatTurn := {}
  after : ChatTurn := {}
  sent : List MessageId := []
  calls : List ChatCall := []

structure Mirror where
  folds : Folds
  turn : ChatTurn
  sent : List MessageId
  last : MirrorStep

namespace Mirror

section mirror

variable (kind : ToolCall → ToolKind) (title : ToolCall → String) (router : TopicRouter)
  (session : ServerSessionId) (thread : ThreadId)

def handle (s : Mirror) (note : Notification) (outcome : Outcome) : Mirror :=
  let (folds, calls) := handleTranscript kind title router s.folds session note outcome
  match note with
  | .agent event =>
      let after := s.turn.after kind title event.kind outcome
      let sent := s.sent ++ calls.filterMap ChatCall.sent?
      let last := ⟨s.turn, after, sent, calls⟩
      match event.kind with
      | .turnEnded _ => ⟨folds, {}, [], last⟩
      | _ => ⟨folds, after, sent, last⟩
  | _ => ⟨folds, s.turn, s.sent, ⟨s.turn, s.turn, s.sent, calls⟩⟩

/-- The notifications of a session that is bound to a topic, each with
what the transport answers meanwhile. -/
def machine : Machine Mirror (Notification × Outcome) where
  start s := router.threadOf session = some thread ∧ s.folds.folders.lookup session = none ∧
    s.folds.running.lookup thread = none ∧ s.turn = {} ∧ s.sent = [] ∧ s.last = {}
  step s a := some (s.handle kind title router session a.1 a.2)

/-- What the chat is to see of the last notification. -/
structure Faithful (s : Mirror) : Prop where
  shows : ∀ call ∈ s.last.calls, ∀ id text, call.landed? = some (id, text) →
    text = s.last.after.render kind title ∧ s.last.sent = [id]
  delivers : s.last.before.failed = true →
    s.last.after.render kind title ≠ s.last.before.render kind title →
      ∃ call ∈ s.last.calls, call.content? = some (s.last.after.render kind title)
  once : s.last.sent.length ≤ 1
  own : ∀ at' id text ok, .edit at' id text ok ∈ s.last.calls → at' = thread ∧ s.last.sent = [id]
  runs : s.folds.running.lookup thread = s.sent.head?

/-- No more content comes in a turn whose send failed. -/
def Resumes (s : Mirror) (a : Notification × Outcome) : Prop :=
  ∀ event, a.1 = .agent event → s.turn.failed = true →
    (s.turn.heard event.kind).render kind title = s.turn.render kind title

/-- How the two memories follow the turn. -/
structure Tracks (s : Mirror) : Prop where
  bound : router.threadOf session = some thread
  folder : (s.folds.folders.lookup session).getD {} = s.turn.folder kind title
  running : s.folds.running.lookup thread = s.sent.head?
  sent : (s.sent = [] ∧ s.turn.failed = (s.turn.render kind title != "")) ∨
    ∃ id, s.sent = [id] ∧ s.turn.failed = false ∧ s.turn.render kind title ≠ ""

variable {kind title router session thread}

theorem Tracks.start {s : Mirror} (h : (machine kind title router session thread).start s) :
    Tracks kind title router session thread s := by
  obtain ⟨hbound, hfolder, hrunning, hturn, hsent, -⟩ := h
  refine ⟨hbound, ?_, ?_, .inl ⟨hsent, ?_⟩⟩
  · rw [hfolder, hturn]
    simp
  · rw [hrunning, hsent]
    rfl
  · rw [hturn]
    simp

theorem Faithful.start {s : Mirror} (h : (machine kind title router session thread).start s) :
    Faithful kind title thread s := by
  obtain ⟨-, -, hrunning, -, hsent, hlast⟩ := h
  constructor
  · intro call hcall
    rw [hlast] at hcall
    cases hcall
  · intro hfailed
    rw [hlast] at hfailed
    cases hfailed
  · rw [hlast]
    exact Nat.zero_le 1
  · intro at' id text ok hcall
    rw [hlast] at hcall
    cases hcall
  · rw [hrunning, hsent]
    rfl

/-- A fact that does not end the turn. -/
theorem Tracks.handle_fact {s : Mirror} (h : Tracks kind title router session thread s)
    (event : AgentEvent) (hgoes : ∀ outcome, event.kind ≠ .turnEnded outcome) (outcome : Outcome) :
    s.handle kind title router session (.agent event) outcome =
      let after := s.turn.after kind title event.kind outcome
      let (running, calls) := runOps thread outcome s.folds.running (s.turn.ops kind title after)
      ⟨⟨s.folds.folders.insert session (after.folder kind title), running⟩, after,
        s.sent ++ calls.filterMap ChatCall.sent?,
        ⟨s.turn, after, s.sent ++ calls.filterMap ChatCall.sent?, calls⟩⟩ := by
  have hfold : handleTranscript kind title router s.folds session (.agent event) outcome =
      let after := s.turn.after kind title event.kind outcome
      let (running, calls) := runOps thread outcome s.folds.running (s.turn.ops kind title after)
      (⟨s.folds.folders.insert session (after.folder kind title), running⟩, calls) := by
    rw [handleTranscript, h.bound]
    dsimp only
    rw [h.folder, ChatTurn.onEvent_eq kind title s.turn hgoes]
    rfl
  rw [handle, hfold]
  dsimp only
  split
  · next ended hkind => exact absurd hkind (hgoes ended)
  · rfl

variable (kind title thread) in
/-- What a fact of a running turn can do: nothing is to be shown, the
first text is sent, the message is edited, or the message is missing. -/
inductive Tells (before after : ChatTurn) (sent : List MessageId) (outcome : Outcome) :
    List ChatCall → List MessageId → Prop
  | quiet : after.render kind title = before.render kind title → after.failed = before.failed →
      Tells before after sent outcome [] sent
  | first : sent = [] → before.failed = false → after.render kind title ≠ "" →
      after.failed = outcome.send.isNone →
      Tells before after sent outcome [.send thread (after.render kind title) outcome.send]
        outcome.send.toList
  | edit (id : MessageId) : sent = [id] → before.failed = false → after.render kind title ≠ "" →
      after.failed = false →
      Tells before after sent outcome [.edit thread id (after.render kind title) outcome.edit] [id]
  | lost : before.failed = true → after.render kind title ≠ before.render kind title →
      after.render kind title ≠ "" → after.failed = true → sent = [] →
      Tells before after sent outcome [] []

theorem Tracks.tells {s : Mirror} (h : Tracks kind title router session thread s)
    (event : AgentEvent) (hgoes : ∀ outcome, event.kind ≠ .turnEnded outcome) (outcome : Outcome) :
    ∃ running calls sent, Tells kind title thread s.turn
        (s.turn.after kind title event.kind outcome) s.sent outcome calls sent ∧
      running.lookup thread = sent.head? ∧
      s.handle kind title router session (.agent event) outcome =
        ⟨⟨s.folds.folders.insert session
            ((s.turn.after kind title event.kind outcome).folder kind title), running⟩,
          s.turn.after kind title event.kind outcome, sent,
          ⟨s.turn, s.turn.after kind title event.kind outcome, sent, calls⟩⟩ := by
  have hhandle := h.handle_fact event hgoes outcome
  have hstays : (s.turn.after kind title event.kind outcome).render kind title = "" →
      s.turn.render kind title = "" := ChatTurn.render_of_heard kind title
  have hfailed : (s.turn.after kind title event.kind outcome).failed =
      (s.turn.failed || (s.turn.render kind title == "" &&
        (s.turn.after kind title event.kind outcome).render kind title != "" &&
          outcome.send.isNone)) := rfl
  generalize s.turn.after kind title event.kind outcome = after at *
  rw [hhandle]
  dsimp only
  rw [ChatTurn.ops]
  by_cases hsame : after.render kind title = s.turn.render kind title
  · rw [if_pos hsame]
    refine ⟨_, _, _, .quiet hsame ?_, h.running, by simp [runOps]⟩
    rw [hfailed, hsame]
    cases s.turn.failed <;> simp
  · have hsome : after.render kind title ≠ "" := fun hempty => hsame (hempty.trans (hstays hempty).symm)
    rw [if_neg hsame]
    by_cases hfirst : s.turn.render kind title = ""
    · -- nothing was shown yet, so nothing was sent
      rw [if_pos hfirst]
      rcases h.sent with ⟨hnone, hkept⟩ | ⟨id, -, -, hrendered⟩
      · have hkept : s.turn.failed = false := by
          rw [hkept, hfirst]
          rfl
        refine ⟨outcome.send.elim s.folds.running fun id => s.folds.running.insert thread id,
          _, _, .first hnone hkept hsome ?_, ?_, ?_⟩
        · rw [hfailed, hkept, hfirst]
          simp [hsome]
        · have hrunning := h.running
          rw [hnone] at hrunning
          cases outcome.send with
          | some id => exact AList.lookup_insert _
          | none => exact hrunning
        · cases hsend : outcome.send <;> simp [runOps, runOp, hnone, ChatCall.sent?, hsend]
      · exact absurd hfirst hrendered
    · rw [if_neg hfirst]
      rcases h.sent with ⟨hnone, hlost⟩ | ⟨id, hone, hkept, -⟩
      · -- the folder goes on editing a message that was never posted
        have hlost : s.turn.failed = true := by
          rw [hlost]
          simp [hfirst]
        have hrunning := h.running
        rw [hnone] at hrunning
        refine ⟨_, _, _, .lost hlost hsame hsome ?_ hnone, hrunning, ?_⟩
        · rw [hfailed, hlost]
          rfl
        · simp [runOps, runOp, hrunning, hnone]
      · have hrunning := h.running
        rw [hone] at hrunning
        refine ⟨_, _, _, .edit id hone hkept hsome ?_, hrunning, ?_⟩
        · rw [hfailed, hkept]
          simp [hfirst]
        · simp [runOps, runOp, hrunning, hone, ChatCall.sent?]

/-- The end of a turn: the message runs no more, and nothing is called. -/
theorem Tracks.handle_ended {s : Mirror} (h : Tracks kind title router session thread s)
    {event : AgentEvent} {ended : TurnOutcome} (hkind : event.kind = .turnEnded ended)
    (outcome : Outcome) :
    s.handle kind title router session (.agent event) outcome =
      ⟨⟨s.folds.folders.insert session {}, s.folds.running.erase thread⟩, {}, [],
        ⟨s.turn, s.turn.after kind title event.kind outcome, s.sent, []⟩⟩ := by
  have hfold : handleTranscript kind title router s.folds session (.agent event) outcome =
      (⟨s.folds.folders.insert session {}, s.folds.running.erase thread⟩, []) := by
    rw [handleTranscript, h.bound]
    dsimp only
    rw [h.folder, hkind, ChatTurn.onEvent_ended]
    rfl
  rw [handle, hfold]
  dsimp only
  rw [hkind]
  dsimp only
  rw [List.filterMap_nil, List.append_nil]

/-- A turn is told by at most one message, which shows all of it. -/
theorem Tells.sent_cases {before after : ChatTurn} {sent sent' : List MessageId} {outcome : Outcome}
    {calls : List ChatCall} (h : Tells kind title thread before after sent outcome calls sent')
    (hsent : (sent = [] ∧ before.failed = (before.render kind title != "")) ∨
      ∃ id, sent = [id] ∧ before.failed = false ∧ before.render kind title ≠ "") :
    (sent' = [] ∧ after.failed = (after.render kind title != "")) ∨
      ∃ id, sent' = [id] ∧ after.failed = false ∧ after.render kind title ≠ "" := by
  cases h with
  | quiet hsame hfailed =>
      rw [hsame, hfailed]
      exact hsent
  | first hnone hkept hsome hfailed =>
      cases hsend : outcome.send with
      | none =>
          left
          rw [hfailed, hsend]
          simp [hsome]
      | some id =>
          right
          refine ⟨id, rfl, ?_, hsome⟩
          rw [hfailed, hsend]
          rfl
  | edit id hone hkept hsome hfailed => exact .inr ⟨id, rfl, hfailed, hsome⟩
  | lost hlost hchanged hsome hfailed hnone =>
      left
      rw [hfailed]
      simp [hsome]

/-- Only agent facts drive the fold. -/
theorem Tracks.handle_other {s : Mirror} (h : Tracks kind title router session thread s)
    {note : Notification} (hnot : ∀ event, note ≠ .agent event) (outcome : Outcome) :
    s.handle kind title router session note outcome =
      ⟨s.folds, s.turn, s.sent, ⟨s.turn, s.turn, s.sent, []⟩⟩ := by
  have hfold : handleTranscript kind title router s.folds session note outcome = (s.folds, []) := by
    rw [handleTranscript, h.bound]
    dsimp only
    split
    · next event => exact absurd rfl (hnot event)
    · rfl
  rw [handle, hfold]
  dsimp only
  split
  · next event => exact absurd rfl (hnot event)
  · rfl

/-- The three kinds of notifications. -/
theorem note_cases (note : Notification) : (∀ event, note ≠ .agent event) ∨
    (∃ event ended, note = .agent event ∧ event.kind = .turnEnded ended) ∨
      ∃ event, note = .agent event ∧ ∀ ended, event.kind ≠ .turnEnded ended := by
  by_cases hagent : ∃ event, note = .agent event
  · obtain ⟨event, rfl⟩ := hagent
    by_cases hended : ∃ ended, event.kind = .turnEnded ended
    · obtain ⟨ended, hkind⟩ := hended
      exact .inr (.inl ⟨event, ended, rfl, hkind⟩)
    · exact .inr (.inr ⟨event, rfl, fun ended hkind => hended ⟨ended, hkind⟩⟩)
  · exact .inl fun event heq => hagent ⟨event, heq⟩

theorem Tracks.step {s : Mirror} (h : Tracks kind title router session thread s)
    (note : Notification) (outcome : Outcome) :
    Tracks kind title router session thread (s.handle kind title router session note outcome) := by
  rcases note_cases note with hnot | ⟨event, ended, rfl, hkind⟩ | ⟨event, rfl, hgoes⟩
  · rw [h.handle_other hnot]
    exact ⟨h.bound, h.folder, h.running, h.sent⟩
  · rw [h.handle_ended hkind]
    refine ⟨h.bound, ?_, AList.lookup_erase _ _, .inl ⟨rfl, ?_⟩⟩
    · rw [AList.lookup_insert, ChatTurn.folder_empty]
      rfl
    · simp
  · obtain ⟨running, calls, sent, htells, hrunning, heq⟩ := h.tells event hgoes outcome
    rw [heq]
    refine ⟨h.bound, ?_, hrunning, htells.sent_cases h.sent⟩
    rw [AList.lookup_insert]
    rfl

theorem Tracks.once {s : Mirror} (h : Tracks kind title router session thread s) :
    s.sent.length ≤ 1 := by
  rcases h.sent with ⟨hnone, -⟩ | ⟨id, hone, -⟩
  · rw [hnone]
    exact Nat.zero_le 1
  · rw [hone]
    exact Nat.le_refl 1

/-- A notification that makes no call and shows no more is seen rightly. -/
theorem faithful_of_quiet {s : Mirror} (hcalls : s.last.calls = [])
    (hsame : s.last.after.render kind title = s.last.before.render kind title)
    (honce : s.last.sent.length ≤ 1) (hruns : s.folds.running.lookup thread = s.sent.head?) :
    Faithful kind title thread s where
  shows call hcall := by
    rw [hcalls] at hcall
    cases hcall
  delivers _ hchanged := absurd hsame hchanged
  once := honce
  own at' id text ok hcall := by
    rw [hcalls] at hcall
    cases hcall
  runs := hruns

/-- What a fact of the turn tells is seen rightly unless it is lost. -/
theorem Faithful.of_tells {before after : ChatTurn} {sent sent' : List MessageId}
    {outcome : Outcome} {calls : List ChatCall}
    (h : Tells kind title thread before after sent outcome calls sent')
    (hresumes : before.failed = true → after.render kind title = before.render kind title)
    (honce : sent'.length ≤ 1) {folds : Folds} (hruns : folds.running.lookup thread = sent'.head?) :
    Faithful kind title thread ⟨folds, after, sent', ⟨before, after, sent', calls⟩⟩ := by
  cases h with
  | quiet hsame hfailed => exact faithful_of_quiet rfl hsame honce hruns
  | first hnone hkept hsome hfailed =>
      refine ⟨?_, ?_, honce, ?_, hruns⟩
      · intro call hcall id text hlanded
        rw [List.mem_singleton] at hcall
        subst hcall
        cases hsend : outcome.send with
        | none =>
            rw [hsend] at hlanded
            cases hlanded
        | some sentId =>
            rw [hsend] at hlanded
            cases hlanded
            exact ⟨rfl, rfl⟩
      · intro hlost
        exact absurd hkept (by rw [hlost]; simp)
      · intro at' id text ok hcall
        rw [List.mem_singleton] at hcall
        cases hcall
  | edit id hone hkept hsome hfailed =>
      refine ⟨?_, ?_, honce, ?_, hruns⟩
      · intro call hcall id' text hlanded
        rw [List.mem_singleton] at hcall
        subst hcall
        cases hedit : outcome.edit with
        | false =>
            rw [hedit] at hlanded
            cases hlanded
        | true =>
            rw [hedit] at hlanded
            cases hlanded
            exact ⟨rfl, rfl⟩
      · intro hlost
        exact absurd hkept (by rw [hlost]; simp)
      · intro at' id' text ok hcall
        rw [List.mem_singleton] at hcall
        cases hcall
        exact ⟨rfl, rfl⟩
  | lost hlost hchanged => exact absurd (hresumes hlost) hchanged

theorem Tracks.faithful {s : Mirror} (h : Tracks kind title router session thread s)
    {note : Notification} {outcome : Outcome} (hresumes : Resumes kind title s (note, outcome)) :
    Faithful kind title thread (s.handle kind title router session note outcome) := by
  have hnext := h.step note outcome
  rcases note_cases note with hnot | ⟨event, ended, rfl, hkind⟩ | ⟨event, rfl, hgoes⟩
  · rw [h.handle_other hnot] at hnext ⊢
    exact faithful_of_quiet rfl rfl h.once h.running
  · rw [h.handle_ended hkind] at hnext ⊢
    refine faithful_of_quiet rfl ?_ h.once hnext.running
    rw [hkind]
    rfl
  · obtain ⟨running, calls, sent, htells, hrunning, heq⟩ := h.tells event hgoes outcome
    rw [heq] at hnext ⊢
    exact .of_tells htells (hresumes event rfl) hnext.once hrunning

/-- Content that comes after a failed send is dropped. -/
theorem Tracks.dropped {s : Mirror} (h : Tracks kind title router session thread s)
    {note : Notification} {outcome : Outcome} (hnot : ¬ Resumes kind title s (note, outcome)) :
    ¬ Faithful kind title thread (s.handle kind title router session note outcome) := by
  simp only [Resumes, not_forall] at hnot
  obtain ⟨event, rfl, hlost, hchanged⟩ := hnot
  have hgoes : ∀ ended, event.kind ≠ .turnEnded ended := by
    intro ended hkind
    rw [hkind] at hchanged
    exact hchanged rfl
  obtain ⟨running, calls, sent, htells, hrunning, heq⟩ := h.tells event hgoes outcome
  rw [heq]
  intro hfaithful
  obtain ⟨call, hcall, -⟩ := hfaithful.delivers hlost hchanged
  cases htells with
  | quiet hsame => exact hchanged hsame
  | first hnone hkept => exact absurd hkept (by rw [hlost]; simp)
  | edit id hone hkept => exact absurd hkept (by rw [hlost]; simp)
  | lost => cases hcall

/-- Along any notifications and any answers of the transport the chat is
kept up exactly when no content comes after a failed send in its turn. -/
theorem faithful_iff_resumes {s : Mirror} (hs : (machine kind title router session thread).start s)
    (notes : List (Notification × Outcome)) :
    (∀ front back s', notes = front ++ back →
        (machine kind title router session thread).run s front = some s' →
          Faithful kind title thread s') ↔
      (machine kind title router session thread).Obeys (Resumes kind title) s notes :=
  Machine.run_good_iff_obeys
    (P := fun s => Tracks kind title router session thread s ∧ Faithful kind title thread s)
    (fun _ h => h.2)
    (fun _ a s' h hresumes hstep => by
      obtain rfl := Option.some.inj hstep
      exact ⟨h.1.step a.1 a.2, h.1.faithful hresumes⟩)
    (fun _ a h hnot => ⟨_, rfl, h.1.dropped hnot⟩) notes ⟨.start hs, .start hs⟩

/-- The ops of a fold stay in their topic. -/
theorem runOps_elsewhere {other : ThreadId} (hne : thread ≠ other) (outcome : Outcome)
    (ops : List ChatOp) : ∀ (running : Map ThreadId MessageId) (calls : List ChatCall),
      (ops.foldl (fun acc op =>
        let (running, made) := runOp other outcome acc.1 op
        (running, acc.2 ++ made)) (running, calls)).1.lookup thread = running.lookup thread := by
  induction ops with
  | nil =>
      intro running calls
      rfl
  | cons op ops ih =>
      intro running calls
      rw [List.foldl_cons, ih]
      cases op with
      | post text =>
          rw [runOp]
          cases outcome.send with
          | none => rfl
          | some id => exact AList.lookup_insert_ne hne
      | edit text =>
          rw [runOp]
          cases running.lookup other <;> rfl
      | finalize => exact AList.lookup_erase_ne hne

/-- What other sessions do in other topics does not disturb the mirror. -/
theorem Tracks.elsewhere {s : Mirror} (h : Tracks kind title router session thread s)
    {session' : ServerSessionId} (hsession : session ≠ session')
    (hthread : router.threadOf session' ≠ some thread) (note : Notification) (outcome : Outcome) :
    Tracks kind title router session thread
      { s with folds := (handleTranscript kind title router s.folds session' note outcome).1 } := by
  rw [handleTranscript]
  cases hbound : router.threadOf session' with
  | none => exact h
  | some other =>
      have hne : thread ≠ other := by
        rintro rfl
        exact hthread hbound
      cases note with
      | agent event =>
          refine ⟨h.bound, ?_, ?_, h.sent⟩
          · dsimp only
            rw [AList.lookup_insert_ne hsession]
            exact h.folder
          · dsimp only
            rw [runOps, runOps_elsewhere hne]
            exact h.running
      | _ => exact h

end mirror

/-- A bridge on which one session has a topic. -/
def sampleRouter : TopicRouter := TopicRouter.new.bind "s1" ⟨7⟩

/-- One chunk of a message, and whether the transport takes what is sent. -/
def sampleChunk (text : String) (ok : Bool) : Notification × Outcome :=
  (.agent ⟨"s1", 0, 1, 0, .chunk text .message⟩, ⟨if ok then some ⟨1⟩ else none, ok, none, ok, ok⟩)

def sampleStart : Mirror := ⟨⟨∅, ∅⟩, {}, [], {}⟩

theorem faithful_iff_resumes_sample :
    ∃ s', (machine (fun _ => .other) (fun _ => "") sampleRouter "s1" ⟨7⟩).run sampleStart
        [sampleChunk "Hello" true, sampleChunk " there" false] = some s' ∧
      Faithful (fun _ => .other) (fun _ => "") ⟨7⟩ s' := by
  have hstart : (machine (fun _ => .other) (fun _ => "") sampleRouter "s1" ⟨7⟩).start sampleStart :=
    ⟨rfl, rfl, rfl, rfl, rfl, rfl⟩
  have hobeys : (machine (fun _ => .other) (fun _ => "") sampleRouter "s1" ⟨7⟩).Obeys
      (Resumes (fun _ => .other) (fun _ => "")) sampleStart
      [sampleChunk "Hello" true, sampleChunk " there" false] := by
    refine ⟨?_, ?_⟩
    · intro event _ hlost
      cases hlost
    · intro s' hs'
      obtain rfl := Option.some.inj hs'
      refine ⟨?_, fun _ _ => trivial⟩
      intro event _ hlost
      exact absurd hlost (by decide)
  have hall := (faithful_iff_resumes hstart _).2 hobeys
  exact ⟨_, rfl, hall _ [] _ (List.append_nil _).symm rfl⟩

/-- The send of the first chunk fails; the second chunk is nowhere sent. -/
theorem lost_after_failed_send : ¬ ∀ (router : TopicRouter) (session : ServerSessionId)
    (thread : ThreadId) (s : Mirror),
    (machine (fun _ => .other) (fun _ => "") router session thread).start s →
      ∀ notes s', (machine (fun _ => .other) (fun _ => "") router session thread).run s notes =
        some s' → Faithful (fun _ => .other) (fun _ => "") thread s' := by
  intro hall
  have hsome : ((machine (fun _ => .other) (fun _ => "") sampleRouter "s1" ⟨7⟩).run sampleStart
      [sampleChunk "Hello" false, sampleChunk " there" true]).map (fun s =>
        (s.last.before.failed, s.last.before.render (fun _ => .other) (fun _ => ""),
          s.last.after.render (fun _ => .other) (fun _ => ""), s.last.calls)) =
      some (true, "Hello", "Hello there", []) := by
    decide
  obtain ⟨s, hrun, hlast⟩ := Option.map_eq_some_iff.1 hsome
  simp only [Prod.mk.injEq] at hlast
  obtain ⟨hfailed, hbefore, hafter, hcalls⟩ := hlast
  have hfaithful := hall sampleRouter "s1" ⟨7⟩ sampleStart ⟨rfl, rfl, rfl, rfl, rfl, rfl⟩ _ s hrun
  obtain ⟨call, hcall, -⟩ := hfaithful.delivers hfailed (by rw [hbefore, hafter]; decide)
  rw [hcalls] at hcall
  cases hcall

end Mirror

end Yaldabaoth
