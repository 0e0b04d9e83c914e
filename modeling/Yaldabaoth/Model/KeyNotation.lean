import Yaldabaoth.Lib.Utf8Text
import Yaldabaoth.Model.AgentTranscript
import Yaldabaoth.Model.CharCase
import Yaldabaoth.Model.Keys

/-!
# `Yaldabaoth.Model.KeyNotation`: key presses as text

`keys.rs`, parsing and formatting. The Unicode properties that the standard
library looks up are parameters.
-/

set_option autoImplicit false

namespace Yaldabaoth

open Utf8Text

namespace KeyNotation

open CharCase

structure KeyParseError where
  position : Nat
  reason : String
deriving Repr, DecidableEq

/-! ### Key names -/

/-- The names that both parsers of key names know. -/
def namedKeys : List (List Char × Key) :=
  [("space".toList, .char ' '),
    ("enter".toList, .enter), ("return".toList, .enter),
    ("tab".toList, .tab),
    ("esc".toList, .esc), ("escape".toList, .esc),
    ("backspace".toList, .backspace), ("bs".toList, .backspace),
    ("delete".toList, .delete), ("del".toList, .delete),
    ("insert".toList, .insert), ("ins".toList, .insert),
    ("up".toList, .up),
    ("down".toList, .down),
    ("left".toList, .left),
    ("right".toList, .right),
    ("home".toList, .home),
    ("end".toList, .end),
    ("pageup".toList, .pageUp), ("pgup".toList, .pageUp),
    ("pagedown".toList, .pageDown), ("pgdn".toList, .pageDown), ("pgdown".toList, .pageDown)]

/-- `parse::<u8>`: a sign, digits, and no more than eight bits. -/
def parseU8 (text : List Char) : Option Nat :=
  let digits := if text.head? = some '+' then text.tail else text
  if digits = [] ∨ ¬ digits.all Char.isDigit then none
  else
    let n := digits.foldl (fun acc digit => 10 * acc + (digit.toNat - '0'.toNat)) 0
    if n ≤ 255 then some n else none

def functionKey (name : List Char) : Option Key :=
  if name.head? = some 'f' then
    (parseU8 name.tail).bind fun n =>
      if 1 ≤ n ∧ n ≤ 12 then some (.f (UInt8.ofNat n)) else none
  else none

/-- A name by its lower case, or a single character of the text as it is
written. -/
def parseKeyName (lower written : List Char) (position : Nat) : Except KeyParseError Key :=
  match namedKeys.lookup lower with
  | some key => .ok key
  | none =>
      match functionKey lower with
      | some key => .ok key
      | none =>
          match written with
          | [c] => .ok (.char c)
          | _ => .error ⟨position, "unknown key '" ++ String.ofList written ++ "'"⟩

def parseKeyNameLower (name : List Char) (position : Nat) : Except KeyParseError Key :=
  parseKeyName name name position

/-! ### Combos -/

/-- `splitn`: at most so many parts. -/
def splitn (sep : Char) : Nat → List Char → List (List Char)
  | 0, _ => []
  | 1, text => [text]
  | n + 2, text =>
      match text.dropWhile fun c => c ≠ sep with
      | [] => [text]
      | _ :: after => (text.takeWhile fun c => c ≠ sep) :: splitn sep (n + 1) after

def addModifier (part : List Char) (modifiers : Modifiers) : Option Modifiers :=
  if part = "ctrl".toList ∨ part = "control".toList then some { modifiers with control := true }
  else if part = "alt".toList ∨ part = "meta".toList then some { modifiers with alt := true }
  else if part = "shift".toList then some { modifiers with shift := true }
  else none

/-- The modifiers at the beginning, and how many parts they are. -/
def scanModifiers : List (List Char) → Modifiers → Nat → Modifiers × Nat
  | [], modifiers, i => (modifiers, i)
  | part :: parts, modifiers, i =>
      match addModifier part modifiers with
      | some modifiers => scanModifiers parts modifiers (i + 1)
      | none => (modifiers, i)

def applyShift (code : Key) (modifiers : Modifiers) : Key × Modifiers :=
  if ¬ modifiers.shift then (code, modifiers)
  else if { modifiers with shift := false } = Modifiers.none then
    match code with
    | .char c => (.char (upperFirst c), .none)
    | _ => (code, .none)
  else
    match code with
    | .char c => (.char ((toLowercase c).head?.getD c), modifiers)
    | _ => (code, modifiers)

section parse

variable (cased caseIgnorable alphabetic : Char → Bool)

def parseKeyNameOriginal (token : List Char) (position : Nat) : Except KeyParseError Key :=
  parseKeyName (strToLowercase cased caseIgnorable token) token position

/-- Something like a modifier that is none. -/
def unknownModifier (token first : List Char) : Bool :=
  token.contains '-' && token ≠ ['-'] && 1 < lenUtf8 first && first.all alphabetic

def parseKeyCombo (token : List Char) (position : Nat) : Except KeyParseError KeyPress :=
  let parts := splitn '-' 10 (strToLowercase cased caseIgnorable token)
  let (modifiers, keyPartIndex) := scanModifiers parts .none 0
  if 0 < keyPartIndex then
    let keyName := List.intercalate ['-'] (parts.drop keyPartIndex)
    if parts.length ≤ keyPartIndex ∨ keyName = [] then
      .error ⟨position, "missing key after modifier"⟩
    else do
      let code ← parseKeyNameLower keyName position
      let (code, modifiers) := applyShift code modifiers
      .ok ⟨code, modifiers⟩
  else
    let first := parts.headD []
    if unknownModifier alphabetic token first then
      .error ⟨position, "unknown modifier '" ++ String.ofList first ++ "'"⟩
    else do
      let code ← parseKeyNameOriginal cased caseIgnorable token position
      .ok ⟨code, .none⟩

/-! ### Sequences -/

def splitWhitespace (text : List Char) : List (List Char) :=
  (text.splitOnP isWhitespace).filter fun token => token ≠ []

def parseTokens : List (List Char) → Nat → Except KeyParseError (List KeyPress)
  | [], _ => .ok []
  | token :: tokens, position => do
      let press ← parseKeyCombo cased caseIgnorable alphabetic token position
      let rest ← parseTokens tokens (position + lenUtf8 token + 1)
      .ok (press :: rest)

def parseKeySequence (input : List Char) : Except KeyParseError (List KeyPress) :=
  if input = [] then .error ⟨0, "empty key sequence"⟩
  else parseTokens cased caseIgnorable alphabetic (splitWhitespace input) 0

end parse

/-! ### Formatting -/

def formatKeyCode : Key → List Char
  | .char c => if c = ' ' then "space".toList else [c]
  | .enter => "enter".toList
  | .tab => "tab".toList
  | .backTab => "backtab".toList
  | .esc => "esc".toList
  | .backspace => "backspace".toList
  | .delete => "delete".toList
  | .insert => "insert".toList
  | .up => "up".toList
  | .down => "down".toList
  | .left => "left".toList
  | .right => "right".toList
  | .home => "home".toList
  | .end => "end".toList
  | .pageUp => "pageup".toList
  | .pageDown => "pagedown".toList
  | .f n => 'f' :: Nat.toDigits 10 n.toNat
  | .other => ['?']

def formatKeyCombo (press : KeyPress) : List Char :=
  let parts := (if press.modifiers.control then ["ctrl".toList] else []) ++
    (if press.modifiers.alt then ["alt".toList] else []) ++
    (if press.modifiers.shift then ["shift".toList] else [])
  if parts = [] then formatKeyCode press.key
  else List.intercalate ['-'] parts ++ '-' :: formatKeyCode press.key

def formatKeySequence (keys : List KeyPress) : List Char :=
  List.intercalate [' '] (keys.map formatKeyCombo)

end KeyNotation

end Yaldabaoth
