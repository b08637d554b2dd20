import Reentrant.Value

/-! Instructions, programs, and the library of programs that can be named. -/

namespace Reentrant

/-- The number a routine is registered under. -/
abbrev RoutineId := UInt32

/-- An instruction. A target is an index into the code of the same program. -/
inductive Op where
  | push (v : Value)
  | pop
  | dup
  | swap
  | add
  | sub
  | mul
  | div
  | eq
  | not
  | jump (target : Nat)
  | jumpIf (target : Nat)
  /-- Arms the frame's fault handler. -/
  | catchAt (target : Nat)
  /-- Pops a message and faults the frame with it. -/
  | throw
  | native (routine : RoutineId)
  /-- Pops a value and writes it to the log. -/
  | log
  | ret
  deriving DecidableEq, Inhabited

/-- A named procedure; a frame runs one from its first instruction. -/
structure Program where
  name : String
  code : List Op
  deriving DecidableEq, Inhabited

/-- Programs by name, in increasing order of their names. -/
structure Library where
  programs : List Program := []
  deriving DecidableEq, Inhabited

namespace Library

/-- Puts `p` into an ordered list, in place of the program of that name if there is one. -/
def place (p : Program) : List Program → List Program
  | [] => [p]
  | q :: rest =>
      if p.name < q.name then p :: q :: rest
      else if p.name = q.name then p :: rest
      else q :: place p rest

/-- Adds a program; an earlier one of the same name gives way. -/
def insert (l : Library) (p : Program) : Library := ⟨place p l.programs⟩

def ofList (ps : List Program) : Library := ps.foldl insert {}

def get? (l : Library) (name : String) : Option Program :=
  l.programs.find? (·.name == name)

def names (l : Library) : List String := l.programs.map (·.name)

def size (l : Library) : Nat := l.programs.length

end Library

end Reentrant
