import Reentrant.Fault
import Reentrant.Program

/-! Frames, the report of a frame's end, and its outcome. -/

namespace Reentrant

/-- Frames are numbered in the order of loading; a number is not used twice on one machine. -/
abbrev FrameId := Nat

def FrameId.display (id : FrameId) : String := "#" ++ Decimal.text id

/-- One loaded program with its operands, the top of the stack first. -/
structure Frame where
  id : FrameId
  program : Program
  ip : Nat := 0
  stack : List Value := []
  /-- Where a fault is caught, once armed. -/
  handler : Option Nat := none
  /-- A fault that came from outside and is taken up at the frame's next step. -/
  pendingFault : Option Fault := none
  /-- Waits for a suspended routine and must not be stepped. -/
  blocked : Bool := false
  deriving DecidableEq

/-- How a frame ended; a return without a value is void. -/
inductive Outcome where
  | returned (value : Option Value)
  | faulted (fault : Fault)
  deriving DecidableEq, Inhabited

/-- The report of a frame that has just left the machine. -/
structure Teardown where
  frame : FrameId
  /-- The fault nobody caught, if the frame faulted. -/
  fault : Option Fault
  /-- What was left on its stack, top first. -/
  stack : List Value
  deriving DecidableEq

namespace Teardown

def faulted (t : Teardown) : Bool := t.fault.isSome

def pop (t : Teardown) : Option Value × Teardown :=
  (t.stack.head?, { t with stack := t.stack.tail })

def outcome (t : Teardown) : Outcome :=
  match t.fault with
  | some f => .faulted f
  | none => .returned t.stack.head?

end Teardown

end Reentrant
