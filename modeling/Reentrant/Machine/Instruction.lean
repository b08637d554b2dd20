import Reentrant.Machine

/-!
What one instruction does to the frame that executes it. An instruction that faults keeps whatever
operands it had popped by then.
-/

namespace Reentrant

/-- What follows an instruction. -/
inductive Flow where
  | next
  | ret
  | native (routine : RoutineId)
  | log (v : Value)
  deriving DecidableEq

namespace Fault

def underflow (what : String) : Fault := ⟨stackUnderflow, what ++ " on empty stack"⟩

def operands (what : String) (a b : Value) : Fault :=
  ⟨typeError, "cannot " ++ what ++ " " ++ a.kind.name ++ " and " ++ b.kind.name⟩

def overflowIn (what : String) : Fault := ⟨typeError, "integer overflow in " ++ what⟩

def zeroDivisor : Fault := ⟨divisionByZero, "division by zero"⟩

/-- A target may be the length of the code: the frame then returns. -/
def jumpOutside (target : Nat) (program : String) : Fault :=
  ⟨badJump, "target " ++ Decimal.text target ++ " outside `" ++ program ++ "`"⟩

end Fault

namespace Op

/-- The integer operation of an instruction's name, exact or faulting. -/
def exact (what : String) (z : Int) : Except Fault Value :=
  match int64? z with
  | some n => .ok (.int n)
  | none => .error (.overflowIn what)

/-- The sum of integers or the concatenation of strings. -/
def sum : Value → Value → Except Fault Value
  | .int a, .int b => exact "add" (a.toInt + b.toInt)
  | .str a, .str b => .ok (.str (a ++ b))
  | a, b => .error (.operands "add" a b)

def difference : Value → Value → Except Fault Value
  | .int a, .int b => exact "sub" (a.toInt - b.toInt)
  | a, b => .error (.operands "sub" a b)

def product : Value → Value → Except Fault Value
  | .int a, .int b => exact "mul" (a.toInt * b.toInt)
  | a, b => .error (.operands "mul" a b)

/-- The quotient truncated toward zero. -/
def quotient : Value → Value → Except Fault Value
  | .int a, .int b =>
      if b = 0 then .error .zeroDivisor else exact "div" (a.toInt.tdiv b.toInt)
  | a, b => .error (.operands "div" a b)

end Op

namespace Frame

/-- Runs on the top operand, which is taken from the stack first. -/
def withTop (f : Frame) (go : Frame → Value → Frame × Except Fault Flow) :
    Frame × Except Fault Flow :=
  match f.stack with
  | [] => (f, .error (.underflow "pop"))
  | v :: rest => go { f with stack := rest } v

/-- Replaces the two top operands, the upper one `b`, by what `combine a b` gives. -/
def binary (f : Frame) (combine : Value → Value → Except Fault Value) :
    Frame × Except Fault Flow :=
  f.withTop fun f b => f.withTop fun f a =>
    match combine a b with
    | .ok v => ({ f with stack := v :: f.stack }, .ok .next)
    | .error e => (f, .error e)

/-- Runs only if `target` lies within the code or at its end. -/
def withTarget (f : Frame) (target : Nat) (go : Frame × Except Fault Flow) :
    Frame × Except Fault Flow :=
  if f.program.code.length < target then (f, .error (.jumpOutside target f.program.name)) else go

/-- One instruction, the instruction pointer having moved past it. -/
def execute (f : Frame) : Op → Frame × Except Fault Flow
  | .push v => ({ f with stack := v :: f.stack }, .ok .next)
  | .pop => f.withTop fun f _ => (f, .ok .next)
  | .dup =>
      match f.stack with
      | [] => (f, .error (.underflow "dup"))
      | v :: _ => ({ f with stack := v :: f.stack }, .ok .next)
  | .swap => f.withTop fun f b => f.withTop fun f a =>
      ({ f with stack := a :: b :: f.stack }, .ok .next)
  | .add => f.binary Op.sum
  | .sub => f.binary Op.difference
  | .mul => f.binary Op.product
  | .div => f.binary Op.quotient
  | .eq => f.binary fun a b => .ok (.bool (a = b))
  | .not => f.withTop fun f v => ({ f with stack := .bool (!v.truthy) :: f.stack }, .ok .next)
  | .jump target => f.withTarget target ({ f with ip := target }, .ok .next)
  | .jumpIf target => f.withTarget target <| f.withTop fun f v =>
      (if v.truthy then { f with ip := target } else f, .ok .next)
  | .catchAt target => f.withTarget target ({ f with handler := some target }, .ok .next)
  | .throw => f.withTop fun f v => (f, .error ⟨Fault.thrown, v.display⟩)
  | .native id => (f, .ok (.native id))
  | .log => f.withTop fun f v => (f, .ok (.log v))
  | .ret => (f, .ok .ret)

end Frame

end Reentrant
