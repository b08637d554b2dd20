import Reentrant.Routine

/-! The registry of host routines. Neither a number nor a name is registered twice. -/

namespace Reentrant

inductive RegistryError where
  | duplicateId (id : RoutineId)
  | duplicateName (name : String)
  deriving DecidableEq

def RegistryError.message : RegistryError → String
  | .duplicateId id => "routine id #" ++ Decimal.text id.toNat ++ " is already registered"
  | .duplicateName name => "routine name `" ++ name ++ "` is already registered"

/-- Routines in increasing order of their numbers, and how their suspended states are polled. -/
structure Registry (σ : Type) where
  poll : σ → Poll σ
  routines : List (Routine σ) := []

namespace Registry

variable {σ : Type}

def get? (g : Registry σ) (id : RoutineId) : Option (Routine σ) :=
  g.routines.find? (·.id == id)

def contains (g : Registry σ) (id : RoutineId) : Bool := (g.get? id).isSome

/-- Puts a routine in its place. -/
def place (r : Routine σ) : List (Routine σ) → List (Routine σ)
  | [] => [r]
  | q :: rest => if r.id < q.id then r :: q :: rest else q :: place r rest

/-- Adds a routine, unless its number or its name is taken. -/
def register (g : Registry σ) (r : Routine σ) : Except RegistryError (Registry σ) :=
  if g.contains r.id then .error (.duplicateId r.id)
  else if g.routines.any (·.name == r.name) then .error (.duplicateName r.name)
  else .ok { g with routines := place r g.routines }

def registerAll (g : Registry σ) : List (Routine σ) → Except RegistryError (Registry σ)
  | [] => .ok g
  | r :: rs =>
      match g.register r with
      | .error e => .error e
      | .ok g => g.registerAll rs

/-- The routines as they are listed, in increasing order of their numbers. -/
def descriptors (g : Registry σ) : List Descriptor := g.routines.map (·.descriptor)

/-- The numbers of the routines by name. -/
def symbols (g : Registry σ) : List (String × RoutineId) := g.routines.map fun r => (r.name, r.id)

def size (g : Registry σ) : Nat := g.routines.length

end Registry

end Reentrant
