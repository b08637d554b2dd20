import Reentrant.Text.Decimal

/-!
Faults: the failures a program can see. A fault unwinds one frame unless that frame armed a handler.
Its code is a stable word that programs and routines can match on.
-/

namespace Reentrant

structure Fault where
  code : String
  message : String
  deriving DecidableEq, Inhabited

namespace Fault

/-- How routines and hosts show a fault; a handler finds the message alone. -/
def display (f : Fault) : String := f.code ++ ": " ++ f.message

/-! ### The codes -/

def stackUnderflow := "STACK_UNDERFLOW"

/-- Too many frames. Operands are not limited. -/
def stackOverflow := "STACK_OVERFLOW"

def typeError := "TYPE_ERROR"
def divisionByZero := "DIVISION_BY_ZERO"
def badJump := "BAD_JUMP"

/-- Thrown by the program itself. -/
def thrown := "THROWN"

/-- A native instruction where no host takes native calls. -/
def noNativeHandler := "NO_NATIVE_HANDLER"

def unknownRoutine := "UNKNOWN_ROUTINE"
def argumentConversion := "ARGUMENT_CONVERSION"

/-- A routine failed by itself. A nested fault that it lets through keeps its own code. -/
def routineFailure := "ROUTINE_FAILURE"

/-- A routine waits for nothing that could resume it. -/
def routineStalled := "ROUTINE_STALLED"

/-- An invocation named a procedure that the library does not have. -/
def unknownProcedure := "UNKNOWN_PROCEDURE"

end Fault

end Reentrant
