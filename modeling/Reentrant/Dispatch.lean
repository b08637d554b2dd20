import Reentrant.Conversion
import Reentrant.Machine.Step

/-!
What a native call comes to, and everything that can go wrong around one. Failures of a routine or of
its arguments turn into a fault on the calling frame; violations of the bridge's own bookkeeping stop
the machine and are never shown to a program.
-/

namespace Reentrant

/-- The result of a native call, delivered to the calling frame: nothing is pushed, a value is
pushed, or a fault is raised. -/
inductive DispatchResult where
  | void
  | value (v : Value)
  | fault (f : Fault)
  deriving DecidableEq, Inhabited

/-- A routine's optional result; an absent one is void. -/
def DispatchResult.ofOption : Option Value → DispatchResult
  | none => .void
  | some v => .value v

/-! ### Failures that become faults -/

inductive RoutineError where
  /-- A nested invocation faulted and the routine let the fault through. -/
  | interpreter (fault : Fault)
  /-- A nested invocation gave a value of the wrong shape. -/
  | conversion (e : ConversionError)
  /-- The routine's own failure, and what it was wrapped in, innermost first. -/
  | host (message : String) (contexts : List String)
  deriving DecidableEq

namespace RoutineError

def ofMessage (m : String) : RoutineError := .host m []

def message : RoutineError → String
  | .interpreter f => f.display
  | .conversion e => e.message
  | .host m contexts => contexts.getLast?.getD m

/-- The message with every cause behind it. -/
def fullMessage : RoutineError → String
  | .host m contexts => ": ".intercalate (contexts.reverse ++ [m])
  | e => e.message

end RoutineError

inductive DispatchError where
  | unknownRoutine (id : RoutineId)
  | argument (routine : String) (index : Nat) (source : ConversionError)
  | arity (routine : String) (expected found : Nat)
  | failed (routine : String) (source : RoutineError)
  deriving DecidableEq

namespace DispatchError

def message : DispatchError → String
  | .unknownRoutine id => "no native routine registered for #" ++ Decimal.text id.toNat
  | .argument routine index source =>
      "argument " ++ Decimal.text index ++ " of `" ++ routine ++ "`: " ++ source.message
  | .arity routine expected found =>
      "`" ++ routine ++ "` takes " ++ Decimal.text expected ++ " arguments, found " ++
        Decimal.text found ++ " on the stack"
  | .failed routine source => "`" ++ routine ++ "` failed: " ++ source.fullMessage

/-- The fault raised on the calling frame. A nested fault that the routine let through is raised as it
is. -/
def toFault : DispatchError → Fault
  | .failed _ (.interpreter f) => f
  | e@(.failed _ _) => ⟨Fault.routineFailure, e.message⟩
  | e@(.unknownRoutine _) => ⟨Fault.unknownRoutine, e.message⟩
  | e@(.argument _ _ _) => ⟨Fault.argumentConversion, e.message⟩
  | e@(.arity _ _ _) => ⟨Fault.argumentConversion, e.message⟩

end DispatchError

/-! ### Violations that stop the machine -/

/-- Misuse of a single-assignment future. -/
inductive FutureError where
  | alreadyResolved
  | alreadyRegistered
  | notReady
  deriving DecidableEq

def FutureError.message : FutureError → String
  | .alreadyResolved => "future already resolved"
  | .alreadyRegistered => "future already has a continuation"
  | .notReady => "future not resolved yet"

inductive BridgeError where
  | future (e : FutureError)
  | duplicateFrame (id : FrameId)
  | sharedFuture (id : FrameId)
  /-- A routine was to be polled inside its own poll. No step returns this: the process ends there. -/
  | reentered
  /-- Routines were resumed inside one another more deeply than `Bridge.nesting` allows. -/
  | nestedTooDeep
  deriving DecidableEq

def BridgeError.message : BridgeError → String
  | .future e => e.message
  | .duplicateFrame id => "frame " ++ FrameId.display id ++ " already has a pending call"
  | .sharedFuture id =>
      "future for frame " ++ FrameId.display id ++ " is already pending under another frame"
  | .reentered => "a routine is polled inside its own poll"
  | .nestedTooDeep => "routines are resumed inside one another too deeply"

/-- What is remembered after one more violation: the first one, but the end of the process before all
others. -/
def BridgeError.remember (before : Option BridgeError) : BridgeError → Option BridgeError
  | .reentered => some .reentered
  | e => before.or (some e)

inductive HookError where
  | bridge (e : BridgeError)
  | access (e : AccessError)
  | other (message : String)
  deriving DecidableEq

def HookError.message : HookError → String
  | .bridge e => e.message
  | .access e => e.message
  | .other m => m

end Reentrant
