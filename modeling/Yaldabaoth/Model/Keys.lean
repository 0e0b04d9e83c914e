import Yaldabaoth.Model.Wire

/-!
# `Yaldabaoth.Model.Keys`: keys and presses

`keys.rs`, the types. The bits of `Modifiers` are fields.
-/

set_option autoImplicit false

namespace Yaldabaoth

inductive Key where
  | char (c : Char)
  | enter
  | tab
  | backTab
  | esc
  | backspace
  | delete
  | insert
  | up
  | down
  | left
  | right
  | home
  | «end»
  | pageUp
  | pageDown
  | f (n : UInt8)
  | other
deriving Repr, DecidableEq

structure Modifiers where
  control : Bool := false
  alt : Bool := false
  shift : Bool := false
  platform : Bool := false
deriving Repr, DecidableEq

namespace Modifiers

def none : Modifiers := {}

def isEmpty (m : Modifiers) : Bool := m = none

end Modifiers

structure KeyPress where
  key : Key
  modifiers : Modifiers
deriving Repr, DecidableEq

end Yaldabaoth
