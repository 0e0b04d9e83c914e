import Mathlib.Algebra.GroupWithZero.Nat
import Mathlib.Data.List.DropRight
import Yaldabaoth.Lib.Machine
import Yaldabaoth.Model.CogWire

/-!
# `Yaldabaoth.Model.WakeReader`: the resumable wake stream

`WakeStream` of `transport.rs`, and the task `spawn_wake_reader` of
`cog_runtime.rs` that keeps one open. Each wake is persisted in the cursor
file before it is sent on, and a connection is resumed behind the last
one.

Text is a list of characters, and a reader the lines that are still to be
read from it. What JSON decodes to is a parameter.
-/

set_option autoImplicit false

namespace Yaldabaoth

/-- What `serde_json` makes of the text of an id and of a wake. Of a
`DeliveryWake`, only the id is read here. -/
structure WakeJson where
  decodeId : List Char → Except String UInt64
  decodeWake : List Char → Except String UInt64

/-! ### The stream -/

/-- The fields of one frame, as far as it is read. -/
structure WakeFrame where
  eventName : Option (List Char) := none
  id : Option UInt64 := none
  data : List Char := []
  sawField : Bool := false
deriving Repr, DecidableEq

/-- `reader` is what there is left to read, and `broken` the error that is
met behind it, if it does not just end. -/
structure WakeStream where
  reader : List (List Char)
  broken : Option String
  lastEventId : Option UInt64
deriving Repr, DecidableEq

namespace WakeFrame

variable (json : WakeJson)

def splitField (line : List Char) : List Char × List Char :=
  match line.span (· ≠ ':') with
  | (field, []) => (field, [])
  | (field, _ :: ' ' :: value) => (field, value)
  | (field, _ :: value) => (field, value)

def readField (frame : WakeFrame) (line : List Char) : Except ClientError WakeFrame :=
  let (field, value) := splitField line
  let frame := { frame with sawField := true }
  if field = ['e', 'v', 'e', 'n', 't'] then .ok { frame with eventName := some value }
  else if field = ['i', 'd'] then
    match json.decodeId value with
    | .ok id => .ok { frame with id := some id }
    | .error e => .error (.sse s!"invalid wake SSE id: {e}")
  else if field = ['d', 'a', 't', 'a'] then
    .ok { frame with data := if frame.data = [] then value else frame.data ++ '\n' :: value }
  else if field = ['r', 'e', 't', 'r', 'y'] then .ok frame
  else .error (.sse s!"unknown Cog wake SSE field {String.ofList field}")

/-- A frame that only changes how the caller reconnects. -/
def isControl (frame : WakeFrame) : Bool :=
  frame.eventName.isNone && frame.id.isNone && frame.data.isEmpty

/-- The `Debug` text of the event's name. -/
def debugName : Option (List Char) → String
  | none => "None"
  | some name => s!"Some({(String.ofList name).quote})"

def deliver (frame : WakeFrame) : Except ClientError UInt64 :=
  if frame.eventName ≠ some "delivery-ready".toList then
    .error (.sse s!"unexpected Cog wake SSE event {debugName frame.eventName}")
  else
    match frame.id, json.decodeWake frame.data with
    | none, _ => .error (.sse "Cog wake SSE frame has no id")
    | some _, .error e => .error (.sse s!"invalid Cog wake SSE data: {e}")
    | some id, .ok wakeId =>
        if wakeId ≠ id then .error (.sse "Cog wake SSE id differs from data.wake_id")
        else .ok id

end WakeFrame

namespace WakeStream

variable (json : WakeJson)

def new (reader : List (List Char)) (broken : Option String) : WakeStream where
  reader
  broken
  lastEventId := none

/-- The two loops of `next_wake`, in the middle of a frame: the id of the
wake that comes next, and what is left to read behind it. -/
def readWake (broken : Option String) (frame : WakeFrame) :
    List (List Char) → Except ClientError (Option (UInt64 × List (List Char)))
  | [] =>
      match broken with
      | some e => .error (.sse s!"reading Cog wake SSE failed: {e}")
      | none =>
          if frame.sawField && !frame.isControl then
            (frame.deliver json).map fun id => some (id, [])
          else .ok none
  | read :: rest =>
      let line := read.rdropWhile fun ch => ch = '\r' ∨ ch = '\n'
      if line = [] then
        if frame.sawField then
          if frame.isControl then readWake broken {} rest
          else (frame.deliver json).map fun id => some (id, rest)
        else readWake broken frame rest
      else if line.head? = some ':' then readWake broken frame rest
      else
        match frame.readField json line with
        | .ok frame => readWake broken frame rest
        | .error e => .error e

def nextWake (stream : WakeStream) : Except ClientError (Option (UInt64 × WakeStream)) :=
  (readWake json stream.broken {} stream.reader).map fun wake =>
    wake.map fun (id, rest) => (id, { stream with reader := rest, lastEventId := some id })

end WakeStream

/-! ### The cursor file -/

/-- What `writeln!` writes of a cursor. -/
def cursorText (cursor : UInt64) : List Char :=
  Nat.toDigits 10 cursor.toNat ++ ['\n']

/-- `parse::<u64>`. -/
def parseU64 (text : List Char) : Option UInt64 :=
  let digits := if text.head? = some '+' then text.tail else text
  let value := Nat.ofDigitChars 10 digits 0
  if digits ≠ [] ∧ digits.all Char.isDigit ∧ value < 2 ^ 64 then some (.ofNat value) else none

/-- Why the cursor cannot be read. The texts of these errors are only traced. -/
inductive CursorError where
  | reading
  | decoding
  | notCanonical
deriving Repr, DecidableEq

/-- `read_wake_cursor` of what there is under the path. -/
def readWakeCursor : Option (List Char) → Except CursorError (Option UInt64)
  | none => .ok none
  | some text =>
      let stripped := if text.getLast? = some '\n' then text.dropLast else text
      match parseU64 stripped with
      | none => .error .decoding
      | some value =>
          if Nat.toDigits 10 value.toNat ≠ text.rdropWhile fun ch => ch = '\n' then
            .error .notCanonical
          else .ok (some value)

/-- How a write of the cursor file can go: the rename may be done and not
yet be known to be durable. -/
inductive CursorWrite where
  | done
  | unsynced (error : String)
  | failed (error : String)
deriving Repr, DecidableEq

/-! ### The reader -/

/-- The reader between connections, on one, or gone. On a connection,
`cursor` is what the blocking task will hand back. -/
inductive WakePhase where
  | waiting
  | reading (stream : WakeStream) (cursor : Option UInt64)
  | disabled
deriving Repr, DecidableEq

/-- `lastEventId` is the loop's variable. `persisted` is the wake that
`persist_wake_cursor` wrote last, which no code reads. -/
structure WakeReader where
  file : Option (List Char)
  persisted : Option UInt64
  lastEventId : Option UInt64
  phase : WakePhase
deriving Repr, DecidableEq

namespace WakeReader

variable (json : WakeJson)

def persistWakeCursor (reader : WakeReader) (cursor : UInt64) :
    CursorWrite → WakeReader × Except String Unit
  | .done => ({ reader with file := some (cursorText cursor), persisted := some cursor }, .ok ())
  | .unsynced e =>
      ({ reader with file := some (cursorText cursor), persisted := some cursor }, .error e)
  | .failed e => (reader, .error e)

/-- The loop's variable is read from the file, or the stream is disabled. -/
def rereadCursor (reader : WakeReader) (readable : Bool) : WakeReader :=
  match if readable then readWakeCursor reader.file else .error .reading with
  | .ok cursor => { reader with lastEventId := cursor, phase := .waiting }
  | .error _ => { reader with phase := .disabled }

/-- The file as an earlier reader left it. -/
def spawned (cursor : Option UInt64) (readable : Bool) : WakeReader :=
  rereadCursor ⟨cursor.map cursorText, cursor, none, .waiting⟩ readable

inductive Action where
  /-- `open_wakes` fails. -/
  | refused
  | opened (lines : List (List Char)) (broken : Option String)
  /-- The task asks its stream for one more wake. `write` is how its cursor
  is written, `heard` whether there is someone to send it to, and
  `readable` whether the file can be read if the task ends with an error. -/
  | nextWake (write : CursorWrite) (heard readable : Bool)
  /-- The blocking task panics. -/
  | taskFailed
deriving Repr, DecidableEq

/-- One turn of the blocking task's loop. -/
def nextWake (reader : WakeReader) (stream : WakeStream) (cursor : Option UInt64)
    (write : CursorWrite) (heard readable : Bool) : WakeReader :=
  match stream.nextWake json with
  | .error _ => reader.rereadCursor readable
  | .ok none => { reader with lastEventId := cursor, phase := .waiting }
  | .ok (some (wakeId, stream)) =>
      match reader.persistWakeCursor wakeId write with
      | (reader, .error _) => reader.rereadCursor readable
      | (reader, .ok ()) =>
          if heard then { reader with phase := .reading stream (some wakeId) }
          else { reader with lastEventId := some wakeId, phase := .waiting }

def machine : Machine WakeReader Action where
  start reader := ∃ cursor readable, reader = spawned cursor readable
  step reader
    | .refused => if reader.phase = .waiting then some reader else none
    | .opened lines broken =>
        if reader.phase = .waiting then
          let stream := WakeStream.new lines broken
          some { reader with phase := .reading stream stream.lastEventId }
        else none
    | .nextWake write heard readable =>
        match reader.phase with
        | .reading stream cursor =>
            some (reader.nextWake json stream cursor write heard readable)
        | _ => none
    | .taskFailed =>
        match reader.phase with
        | .reading _ _ => some { reader with phase := .waiting }
        | _ => none

end WakeReader

end Yaldabaoth
