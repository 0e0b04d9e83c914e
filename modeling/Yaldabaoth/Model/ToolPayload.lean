import Mathlib.Logic.Function.Iterate
import Yaldabaoth.Lib.Json

/-!
# `Yaldabaoth.Model.ToolPayload`: what is stored of a tool call

`cap_tool_call_payloads` of `agent.rs` with the parts of a tool call that
it trims, and the update of a call, after which it runs again. What a call
has besides its payloads is `ω`, what an item of its content has besides
texts is `ν`.
-/

set_option autoImplicit false

namespace Yaldabaoth

namespace ToolPayload

/-- `TOOL_PAYLOAD_MAX_CHARS`. -/
def toolPayloadMaxChars : Nat := 65536

/-- The marker that stands for a dropped tail. -/
def truncationMarker (dropped : Nat) : List Char :=
  "\n… (+".toList ++ Nat.toDigits 10 dropped ++ " chars truncated at storage)".toList

def capStringChars (s : String) (maxChars : Nat) : String :=
  if s.length ≤ maxChars then s
  else
    let head := s.toList.take maxChars
    let dropped := s.length - maxChars
    String.ofList (head ++ truncationMarker dropped)

/-- Every caller looks at the length first. -/
def capLong (maxChars : Nat) (s : String) : String :=
  if maxChars < s.length then capStringChars s maxChars else s

def capJsonValueStrings (v : Json) (maxChars : Nat) : Json := v.mapStrings (capLong maxChars)

inductive ToolCallContent (ν : Type) where
  /-- A `Content` with a text block. -/
  | text (text : String) (other : ν)
  | diff (newText : String) (oldText : Option String) (other : ν)
  /-- Other blocks, and terminals. -/
  | other (other : ν)
deriving DecidableEq

structure ToolCall (ν ω : Type) where
  content : List (ToolCallContent ν)
  rawInput : Option Json
  rawOutput : Option Json
  other : ω
deriving DecidableEq

variable {ν ω : Type}

/-- Change every text of an item. -/
def ToolCallContent.mapText (f : String → String) : ToolCallContent ν → ToolCallContent ν
  | .text value rest => .text (f value) rest
  | .diff newText oldText rest => .diff (f newText) (oldText.map f) rest
  | .other value => .other value

def capToolCallPayloads (tc : ToolCall ν ω) : ToolCall ν ω :=
  { tc with
    content := tc.content.map (ToolCallContent.mapText (capLong toolPayloadMaxChars))
    rawInput := tc.rawInput.map fun input => capJsonValueStrings input toolPayloadMaxChars
    rawOutput := tc.rawOutput.map fun output => capJsonValueStrings output toolPayloadMaxChars }

/-- `ToolCallUpdateFields`: what is not there is left as it is. -/
structure ToolCallUpdateFields (ν ω : Type) where
  content : Option (List (ToolCallContent ν))
  rawInput : Option Json
  rawOutput : Option Json
  other : ω → ω

def ToolCall.update (tc : ToolCall ν ω) (fields : ToolCallUpdateFields ν ω) : ToolCall ν ω where
  content := fields.content.getD tc.content
  rawInput := fields.rawInput.or tc.rawInput
  rawOutput := fields.rawOutput.or tc.rawOutput
  other := fields.other tc.other

/-- `ToolCallUpdated`, for a call that is known. -/
def receive (existing : ToolCall ν ω) (fields : ToolCallUpdateFields ν ω) : ToolCall ν ω :=
  capToolCallPayloads (existing.update fields)

/-! ### The strings of a call -/

inductive PayloadField where
  | content
  | rawInput
  | rawOutput
deriving Repr, DecidableEq

def ToolCallContent.strings : ToolCallContent ν → List String
  | .text value _ => [value]
  | .diff newText oldText _ => newText :: oldText.toList
  | .other _ => []

/-- The strings of a field, in order. -/
def ToolCall.strings (tc : ToolCall ν ω) : PayloadField → List String
  | .content => tc.content.flatMap ToolCallContent.strings
  | .rawInput => tc.rawInput.elim [] Json.strings
  | .rawOutput => tc.rawOutput.elim [] Json.strings

/-- An update sets a field. -/
def ToolCallUpdateFields.sets (fields : ToolCallUpdateFields ν ω) : PayloadField → Bool
  | .content => fields.content.isSome
  | .rawInput => fields.rawInput.isSome
  | .rawOutput => fields.rawOutput.isSome

/-- The text is kept whole, or its first characters with the number of those that it lost. -/
def Kept (original stored : String) : Prop :=
  stored = original ∨
    toolPayloadMaxChars < original.length ∧
      stored = String.ofList (original.toList.take toolPayloadMaxChars ++
        truncationMarker (original.length - toolPayloadMaxChars))

end ToolPayload

end Yaldabaoth
