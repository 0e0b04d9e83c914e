import Yaldabaoth.Lib.Maps
import Yaldabaoth.Model.AgentTranscript
import Yaldabaoth.Model.Wire

/-!
# `Yaldabaoth.Model.ChatBridge`: agent sessions as chat topics

`bridge/router.rs`, `bridge/fold.rs`, `bridge/command.rs` and the task of
`bridge/mod.rs`. A router binds a session to a topic, a folder turns the
agent facts of a session into posts and edits of one running message a
turn, and the task calls the transport and the session driver.

A call of the transport answers with what the environment says
(`Outcome`), one answer for each kind of call and event. `kind` and `title`
of a tool call come from the protocol library, `lower` is
`str::to_lowercase`; all three are parameters.
-/

set_option autoImplicit false

namespace Yaldabaoth

/-- `str::trim`. -/
def trim (text : String) : String :=
  String.ofList ((text.toList.dropWhile isWhitespace).rdropWhile isWhitespace)

/-! ### `transport.rs` -/

structure ThreadId where
  id : Int
deriving Repr, DecidableEq

structure MessageId where
  id : Int
deriving Repr, DecidableEq

structure InboundMsg where
  thread : ThreadId
  fromUser : Int
  text : String
deriving Repr, DecidableEq

/-- A call of the transport, with its result. -/
inductive ChatCall where
  | send (thread : ThreadId) (text : String) (sent : Option MessageId)
  | edit (thread : ThreadId) (message : MessageId) (text : String) (ok : Bool)
  | openThread (name : String) (opened : Option ThreadId)
  | closeThread (thread : ThreadId) (ok : Bool)
  | renameThread (thread : ThreadId) (name : String) (ok : Bool)
deriving Repr, DecidableEq

/-- What the transport answers. -/
structure Outcome where
  send : Option MessageId
  edit : Bool
  openThread : Option ThreadId
  closeThread : Bool
  renameThread : Bool
deriving Repr, DecidableEq

/-! ### `router.rs` -/

structure TopicRouter where
  bySession : Map ServerSessionId ThreadId
  byThread : Map ThreadId ServerSessionId

structure TopicMapSnapshot where
  pairs : List (ServerSessionId × Int)
deriving Repr, DecidableEq

inductive TopicAction where
  | open (session : ServerSessionId) (name : String)
  | close (session : ServerSessionId) (thread : ThreadId)
  | rename (thread : ThreadId) (name : String)
  | noop
deriving Repr, DecidableEq

/-- At most 128 characters, and at least one. -/
def topicName (label : String) : String :=
  let trimmed := trim label
  let name := if trimmed = "" then "agent" else trimmed
  String.ofList (name.toList.take 128)

namespace TopicRouter

def new : TopicRouter := ⟨∅, ∅⟩

def bind (r : TopicRouter) (session : ServerSessionId) (thread : ThreadId) : TopicRouter :=
  ⟨r.bySession.insert session thread, r.byThread.insert thread session⟩

def unbind (r : TopicRouter) (session : ServerSessionId) : TopicRouter :=
  match r.bySession.lookup session with
  | none => r
  | some thread => ⟨r.bySession.erase session, r.byThread.erase thread⟩

def threadOf (r : TopicRouter) (session : ServerSessionId) : Option ThreadId :=
  r.bySession.lookup session

def sessionOf (r : TopicRouter) (thread : ThreadId) : Option ServerSessionId :=
  r.byThread.lookup thread

def isBound (r : TopicRouter) (session : ServerSessionId) : Bool :=
  (r.bySession.lookup session).isSome

/-- The entries of `by_session`, by the order of their keys. -/
def bindings (r : TopicRouter) : List (ServerSessionId × ThreadId) :=
  (r.bySession.keys.mergeSort (fun a b => decide (a ≤ b))).filterMap fun session =>
    (r.bySession.lookup session).map fun thread => (session, thread)

def fromSnapshot (snap : TopicMapSnapshot) : TopicRouter :=
  snap.pairs.foldl (fun r pair => r.bind pair.1 ⟨pair.2⟩) new

def snapshot (r : TopicRouter) : TopicMapSnapshot :=
  ⟨r.bindings.map fun entry => (entry.1, entry.2.id)⟩

def onSessionCreated (r : TopicRouter) (session : ServerSessionId) (label : String) : TopicAction :=
  if r.isBound session then .noop else .open session (topicName label)

def onSessionClosed (r : TopicRouter) (session : ServerSessionId) : TopicAction :=
  match r.threadOf session with
  | some thread => .close session thread
  | none => .noop

def onSessionRenamed (r : TopicRouter) (session : ServerSessionId) (label : String) : TopicAction :=
  match r.threadOf session with
  | some thread => .rename thread (topicName label)
  | none => .noop

/-- Opens first, then closes, all decided before any is carried out. -/
def reconcile (r : TopicRouter) (live : List (ServerSessionId × String)) : List TopicAction :=
  (live.filterMap fun (session, label) =>
    if r.isBound session then none else some (.open session (topicName label))) ++
  r.bindings.filterMap fun (session, thread) =>
    if (live.map Prod.fst).contains session then none else some (.close session thread)

end TopicRouter

/-! ### `fold.rs` -/

/-- What is read of a tool's kind; `other` is any further one. -/
inductive ToolKind where
  | read
  | edit
  | search
  | execute
  | move
  | delete
  | fetch
  | think
  | switchMode
  | other
deriving Repr, DecidableEq

def toolVerb : ToolKind → String
  | .read => "read"
  | .edit => "edit"
  | .search => "search"
  | .execute => "run"
  | .move => "move"
  | .delete => "delete"
  | .fetch => "fetch"
  | .think => "think"
  | .switchMode => "mode"
  | .other => "tool"

inductive ChatOp where
  | post (text : String)
  | edit (text : String)
  | finalize
deriving Repr, DecidableEq

structure EventFolder where
  prose : String := ""
  tools : List String := []
  posted : Bool := false
  lastRender : String := ""
deriving Repr, DecidableEq

section folder

variable (kind : ToolCall → ToolKind) (title : ToolCall → String)

def toolLine (tc : ToolCall) : String :=
  let verb := toolVerb (kind tc)
  let arg := trim (title tc)
  if arg = "" then "🔧 " ++ verb else "🔧 " ++ verb ++ " " ++ arg

namespace EventFolder

/-- The prose, a blank line, and the tool lines. -/
def render (f : EventFolder) : String :=
  let out := trim f.prose
  if f.tools = [] then out
  else (if out = "" then out else out ++ "\n\n") ++ "\n".intercalate f.tools

def emitContent (f : EventFolder) : EventFolder × List ChatOp :=
  let render := f.render
  if render = "" ∨ render = f.lastRender then (f, [])
  else if f.posted then ({ f with lastRender := render }, [.edit render])
  else ({ f with lastRender := render, posted := true }, [.post render])

def finalizeTurn (f : EventFolder) : EventFolder × List ChatOp :=
  let render := f.render
  let ops := if f.posted && render ≠ "" && render ≠ f.lastRender then [.edit render] else []
  ({}, ops ++ [.finalize])

def onEvent (f : EventFolder) : AgentEventKind → EventFolder × List ChatOp
  | .chunk text .message => { f with prose := f.prose ++ text }.emitContent
  | .toolCallStarted tc => { f with tools := f.tools ++ [toolLine kind title tc] }.emitContent
  | .turnEnded _ => f.finalizeTurn
  | _ => (f, [])

end EventFolder

end folder

/-! ### The task: events -/

inductive BridgeEvent where
  | sessionCreated (session : SessionInfo)
  | sessionClosed (sessionId : ServerSessionId)
  | sessionRenamed (sessionId : ServerSessionId) (label : String)
  | transcript (sessionId : ServerSessionId) (note : Notification)
deriving Repr, DecidableEq

/-- The folders of the sessions, and the running message of each topic. -/
structure Folds where
  folders : Map ServerSessionId EventFolder
  running : Map ThreadId MessageId

/-- Carry out one op of a fold. -/
def runOp (thread : ThreadId) (outcome : Outcome) (running : Map ThreadId MessageId) :
    ChatOp → Map ThreadId MessageId × List ChatCall
  | .post text =>
      (match outcome.send with
        | some id => running.insert thread id
        | none => running, [.send thread text outcome.send])
  | .edit text =>
      match running.lookup thread with
      | some id => (running, [.edit thread id text outcome.edit])
      | none => (running, [])
  | .finalize => (running.erase thread, [])

def runOps (thread : ThreadId) (outcome : Outcome) (running : Map ThreadId MessageId)
    (ops : List ChatOp) : Map ThreadId MessageId × List ChatCall :=
  ops.foldl (fun acc op =>
    let (running, calls) := runOp thread outcome acc.1 op
    (running, acc.2 ++ calls)) (running, [])

def handleTranscript (kind : ToolCall → ToolKind) (title : ToolCall → String) (router : TopicRouter)
    (folds : Folds) (session : ServerSessionId) (note : Notification) (outcome : Outcome) :
    Folds × List ChatCall :=
  match router.threadOf session with
  | none => (folds, [])
  | some thread =>
      match note with
      | .agent event =>
          let folder := (folds.folders.lookup session).getD {}
          let (folder, ops) := folder.onEvent kind title event.kind
          let (running, calls) := runOps thread outcome folds.running ops
          (⟨folds.folders.insert session folder, running⟩, calls)
      | _ => (folds, [])

def applyTopicAction (router : TopicRouter) (action : TopicAction) (outcome : Outcome) :
    TopicRouter × List ChatCall :=
  match action with
  | .open session name =>
      (match outcome.openThread with
        | some thread => router.bind session thread
        | none => router, [.openThread name outcome.openThread])
  | .close session thread => (router.unbind session, [.closeThread thread outcome.closeThread])
  | .rename thread name => (router, [.renameThread thread name outcome.renameThread])
  | .noop => (router, [])

/-- The router, the folds, the calls made, and the snapshot that was
written, if one was. -/
def handleEvent (kind : ToolCall → ToolKind) (title : ToolCall → String) (router : TopicRouter)
    (folds : Folds) (ev : BridgeEvent) (outcome : Outcome) :
    TopicRouter × Folds × List ChatCall × Option TopicMapSnapshot :=
  let lifecycle (action : TopicAction) (folds : Folds) :
      TopicRouter × Folds × List ChatCall × Option TopicMapSnapshot :=
    if action = .noop then (router, folds, [], none)
    else
      let (router, calls) := applyTopicAction router action outcome
      (router, folds, calls, some router.snapshot)
  match ev with
  | .transcript session note =>
      let (folds, calls) := handleTranscript kind title router folds session note outcome
      (router, folds, calls, none)
  | .sessionCreated info => lifecycle (router.onSessionCreated info.sessionId info.label) folds
  | .sessionClosed session =>
      -- the thread is read before the close unbinds it
      let running := match router.threadOf session with
        | some thread => folds.running.erase thread
        | none => folds.running
      lifecycle (router.onSessionClosed session) ⟨folds.folders.erase session, running⟩
  | .sessionRenamed session label => lifecycle (router.onSessionRenamed session label) folds

/-! ### `command.rs` -/

inductive ChatCommand where
  | new (label : String) (cwd : Option PathBuf)
  | sessions
  | stop
  | mode (mode : PermissionMode)
  | status
  | message (text : String)
  | unknown (text : String)
deriving Repr, DecidableEq

/-- `split_whitespace`. -/
def splitWhitespace (text : String) : List String :=
  ((text.toList.splitOnP isWhitespace).filter fun word => word ≠ []).map String.ofList

def PermissionMode.parse (lower : String → String) (s : String) : Option PermissionMode :=
  match lower s with
  | "readonly" | "read-only" => some .readOnly
  | "autoedit" | "auto-edit" => some .autoEdit
  | "askeachtime" | "ask-each-time" | "ask-each" | "ask" => some .askEachTime
  | "yolo" => some .yolo
  | _ => none

def PermissionMode.shortLabel : PermissionMode → String
  | .readOnly => "read-only"
  | .autoEdit => "auto-edit"
  | .askEachTime => "ask-each"
  | .yolo => "yolo"

namespace ChatCommand

def parseNew (rest : String) : ChatCommand :=
  let tokens := splitWhitespace rest
  match tokens.findIdx? (· == "--cwd") with
  | some pos => .new (" ".intercalate (tokens.take pos)) tokens[pos + 1]?
  | none =>
      match tokens.getLast? with
      | some last =>
          if "/".toList.isPrefixOf last.toList then .new (" ".intercalate tokens.dropLast) (some last)
          else .new (" ".intercalate tokens) none
      | none => .new "" none

def parse (lower : String → String) (text : String) : ChatCommand :=
  let trimmed := trim text
  if ¬ "/".toList.isPrefixOf trimmed.toList then .message trimmed
  else
    let words := splitWhitespace trimmed
    let verb := words.head?.getD ""
    match lower verb with
    | "/new" => parseNew (String.ofList (trimmed.toList.drop verb.length))
    | "/sessions" => .sessions
    | "/stop" => .stop
    | "/status" => .status
    | "/mode" =>
        match words[1]? with
        | some word =>
            match PermissionMode.parse lower word with
            | some parsed => .mode parsed
            | none => .unknown trimmed
        | none => .unknown trimmed
    | _ => .unknown trimmed

end ChatCommand

/-! ### The task: inbound messages -/

structure BridgeConfig where
  allowedUserIds : List Int
  defaultCwd : PathBuf
deriving Repr, DecidableEq

inductive DriverCall where
  | create (label : String) (cwd : PathBuf)
  | adminPrompt (session : ServerSessionId) (text : String)
  | cancel (session : ServerSessionId)
  | setPermissionMode (session : ServerSessionId) (mode : PermissionMode)
deriving Repr, DecidableEq

/-- What the session driver answers; an error is its text. -/
structure DriverReplies where
  create : SessionInfo
  adminPrompt : Option String
  cancel : Option String
  setPermissionMode : Option String
  list : List SessionInfo
deriving Repr, DecidableEq

inductive InboundEffect where
  | driver (call : DriverCall)
  | reply (thread : ThreadId) (text : String)
deriving Repr, DecidableEq

def formatSessions (list : List SessionInfo) (router : TopicRouter) : String :=
  if list = [] then "No active sessions."
  else
    "Sessions:" ++ String.join (list.map fun info =>
      "\n• " ++ info.label ++ " — " ++ match router.threadOf info.sessionId with
        | some thread => "topic " ++ toString thread.id
        | none => "no topic")

def formatStatus (list : List SessionInfo) (session : ServerSessionId) : String :=
  match list.find? fun info => info.sessionId == session with
  | some info =>
      info.label ++ " · mode " ++ info.permissionMode.shortLabel ++ " · " ++ toString info.turns ++
        " turns · " ++ if info.connected then "connected" else "idle"
  | none => "Session not found."

def handleGeneralCommand (config : BridgeConfig) (driver : DriverReplies) (router : TopicRouter)
    (thread : ThreadId) : ChatCommand → List InboundEffect
  | .new label cwd =>
      [.driver (.create label (cwd.getD config.defaultCwd)),
        .driver (.setPermissionMode driver.create.sessionId .readOnly)]
  | .sessions => [.reply thread (formatSessions driver.list router)]
  | _ => [.reply thread "Send messages inside a session's topic, or use /new to start one."]

def handleSessionCommand (driver : DriverReplies) (thread : ThreadId) (session : ServerSessionId) :
    ChatCommand → List InboundEffect
  | .stop => .driver (.cancel session) ::
      (driver.cancel.map fun e => .reply thread ("⚠️ couldn't stop: " ++ e)).toList
  | .mode mode => .driver (.setPermissionMode session mode) ::
      (driver.setPermissionMode.map fun e => .reply thread ("⚠️ couldn't set mode: " ++ e)).toList
  | .status => [.reply thread (formatStatus driver.list session)]
  | .message text => .driver (.adminPrompt session text) ::
      (driver.adminPrompt.map fun e => .reply thread ("⚠️ couldn't send: " ++ e)).toList
  | .new _ _ => [.reply thread "Use the General topic for /new and /sessions."]
  | .sessions => [.reply thread "Use the General topic for /new and /sessions."]
  | .unknown cmd => [.reply thread ("Unknown command: " ++ cmd)]

def handleInbound (lower : String → String) (config : BridgeConfig) (driver : DriverReplies)
    (router : TopicRouter) (msg : InboundMsg) : List InboundEffect :=
  if ¬ config.allowedUserIds.contains msg.fromUser then []
  else
    let text := trim msg.text
    if text = "" then []
    else
      let command := ChatCommand.parse lower text
      match router.sessionOf msg.thread with
      | some session => handleSessionCommand driver msg.thread session command
      | none => handleGeneralCommand config driver router msg.thread command

end Yaldabaoth
