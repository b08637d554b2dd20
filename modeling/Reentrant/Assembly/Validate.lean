import Reentrant.Program
import Reentrant.Text.Decimal

/-!
What can be seen of a program's faults before it runs: jumps that leave the code, and native calls
that no routine answers.
-/

namespace Reentrant.Assembly

inductive Flaw where
  | targetPastEnd (target length : Nat)
  | unregistered (id : RoutineId)
  deriving DecidableEq

def Flaw.message : Flaw → String
  | .targetPastEnd target length =>
      "target " ++ Decimal.text target ++ " is past the end (" ++ Decimal.text length ++ ")"
  | .unregistered id => "no routine registered for native #" ++ Decimal.text id.toNat

/-- A flaw and the instruction that has it. -/
structure Finding where
  program : String
  index : Nat
  flaw : Flaw
  deriving DecidableEq

def Finding.display (f : Finding) : String :=
  f.program ++ "[" ++ Decimal.text f.index ++ "]: " ++ f.flaw.message

/-- The flaw of one instruction in code of a given length. -/
def flaw? (known : RoutineId → Bool) (length : Nat) : Op → Option Flaw
  | .jump target => if length < target then some (.targetPastEnd target length) else none
  | .jumpIf target => if length < target then some (.targetPastEnd target length) else none
  | .catchAt target => if length < target then some (.targetPastEnd target length) else none
  | .native id => if known id then none else some (.unregistered id)
  | _ => none

/-- The flawed instructions of a program, first to last. -/
def validate (known : RoutineId → Bool) (p : Program) : List Finding :=
  p.code.zipIdx.filterMap fun (op, index) =>
    (flaw? known p.code.length op).map fun flaw => { program := p.name, index, flaw }

end Reentrant.Assembly
