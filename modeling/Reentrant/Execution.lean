import Reentrant.Assembly.Assemble
import Reentrant.Assembly.Validate
import Reentrant.Builtin
import Reentrant.Settings

/-! Running and checking a source with the built-in routines. -/

namespace Reentrant

inductive ExecutionError where
  | assembly (e : Assembly.AssemblyError)
  | noProcedure (name : String)
  | stopped (e : Halt HookError)
  /-- The run was given up before it ended. -/
  | unfinished

def Assembly.AssemblyError.fullMessage (e : Assembly.AssemblyError) : String :=
  "Failed to assemble program: " ++ e.display

namespace ExecutionError

def message : ExecutionError → String
  | .assembly e => e.fullMessage
  | .noProcedure name => "No procedure named `" ++ name ++ "`"
  | .stopped e => "Interpreter stopped: " ++ e.message HookError.message
  | .unfinished => "Interpreter stopped: the run was given up"

end ExecutionError

structure Report where
  outcome : Outcome
  logged : List Value
  events : List Event
  steps : Nat

namespace Execution

/-- The library of a source whose symbolic routines are the built-in ones. -/
def library (source : String) : Except Assembly.AssemblyError Library :=
  (Assembly.assemble Builtin.registry.symbols source).map Library.ofList

def bridge (l : Library) (settings : Settings) : Bridge Builtin.Waiting :=
  { registry := Builtin.registry, library := l, journal := { enabled := settings.journal } }

/-- What routines printed, in order. -/
def printed (notes : Array Note) : List Value :=
  notes.toList.filterMap fun | .printed v => some v | _ => none

/-- Runs a procedure of a library. What was printed is there also when the run fails. -/
def run (l : Library) (p : Program) (settings : Settings) (fuel : Nat) :
    Except ExecutionError Report × List Value :=
  let m : Machine := { limits := settings.limits }
  let m := (m.loadEntry p).2
  match m.run Bridge.host fuel (bridge l settings) with
  | (none, _, b) => (.error .unfinished, printed b.notes)
  | (some (.error e), _, b) => (.error (.stopped e), printed b.notes)
  | (some (.ok outcome), m, b) =>
      (.ok { outcome, logged := m.logged.toList, events := b.journal.events.toList, steps := m.steps },
        printed b.notes)

/-- Assembles a source and runs its procedure `entry`. -/
def execute (source entry : String) (settings : Settings) (fuel : Nat) :
    Except ExecutionError Report × List Value :=
  match library source with
  | .error e => (.error (.assembly e), [])
  | .ok l =>
      match l.get? entry with
      | none => (.error (.noProcedure entry), [])
      | some p => run l p settings fuel

/-- Assembles a source and validates its procedures, by name. -/
def check (source : String) : Except Assembly.AssemblyError (List Assembly.Finding) :=
  (library source).map fun l =>
    l.programs.flatMap (Assembly.validate Builtin.registry.contains)

end Execution

end Reentrant
