import Reentrant.Future

/-!
Host routines. A synchronous routine is a function of its arguments. A suspending routine is a state
`σ` that is polled: a poll is a tree of requests to the bridge that ends either with the routine's
result or with the state in which the routine waits to be polled again.
-/

namespace Reentrant

/-- Suspended routines are numbered in the order in which they start. -/
abbrev TaskId := Nat

/-- What a routine lets the outside see. -/
inductive Note where
  /-- A line on standard output. -/
  | printed (v : Value)
  | traced (label : String) (v : Option Value)
  /-- The place of the invocation that was first in a race. -/
  | raced (index : Nat)
  /-- The state of a slot's future. -/
  | inspected (slot : String) (state : Option Outcome)
  | called (caller : FrameId)
  | described (caller : FrameId)
  /-- A step that touched a future directly, and what it was refused with. -/
  | touched (step : String) (refusal : Option FutureError)
  /-- A continuation that the routine itself had registered ran. -/
  | fired (slot : String)
  /-- The routine left its context where others can use it. -/
  | leaked (task : TaskId)
  deriving DecidableEq

/-- What a continuation does that a routine has registered itself. It runs when its future resolves,
outside of the routine's polls or inside one, and may act on any handle and through any routine's
context. -/
inductive Callback where
  | done
  | callerOf (t : TaskId) (k : Option FrameId → Callback)
  | invoke (t : TaskId) (p : Program) (k : FutureId → Callback)
  | invokeNamed (t : TaskId) (procedure : String) (k : Except Fault FutureId → Callback)
  | observe (f : FutureId) (k : Option Outcome → Callback)
  | resolve (f : FutureId) (o : Outcome) (k : Option FutureError → Callback)
  | register (f : FutureId) (c : Callback) (k : Option FutureError → Callback)
  | note (n : Note) (k : Callback)

/-- One poll of a suspending routine with states `σ`. -/
inductive Poll (σ : Type) where
  | ready (result : Except RoutineError DispatchResult)
  | pending (next : σ)
  /-- The routine's own number and the frame that called it. -/
  | context (k : TaskId → FrameId → Poll σ)
  | invoke (p : Program) (k : FutureId → Poll σ)
  | invokeNamed (procedure : String) (k : Except Fault FutureId → Poll σ)
  | observe (f : FutureId) (k : Option Outcome → Poll σ)
  | resolve (f : FutureId) (o : Outcome) (k : Option FutureError → Poll σ)
  | register (f : FutureId) (c : Callback) (k : Option FutureError → Poll σ)
  | note (n : Note) (k : Poll σ)

namespace Poll

variable {σ τ : Type}

/-- The same poll, with its waiting state seen in a larger type. -/
def map (g : σ → τ) : Poll σ → Poll τ
  | .ready r => .ready r
  | .pending s => .pending (g s)
  | .context k => .context fun t c => (k t c).map g
  | .invoke p k => .invoke p fun f => (k f).map g
  | .invokeNamed n k => .invokeNamed n fun r => (k r).map g
  | .observe f k => .observe f fun o => (k o).map g
  | .resolve f o k => .resolve f o fun e => (k e).map g
  | .register f c k => .register f c fun e => (k e).map g
  | .note n k => .note n (k.map g)

def fail (e : RoutineError) : Poll σ := .ready (.error e)

end Poll

/-- A routine's body: done at once, or started and then polled. -/
inductive Body (σ : Type) (ps : List Shape) where
  | sync (run : Arguments ps → List Note × Except RoutineError DispatchResult)
  | suspending (start : Arguments ps → σ)

structure Routine (σ : Type) where
  id : RoutineId
  name : String
  params : List Shape
  body : Body σ params

inductive Mode where
  | sync
  | suspending
  deriving DecidableEq, Inhabited

structure Descriptor where
  id : RoutineId
  name : String
  params : List String
  mode : Mode
  deriving DecidableEq, Inhabited

namespace Routine

variable {σ : Type}

def mode (r : Routine σ) : Mode :=
  match r.body with
  | .sync _ => .sync
  | .suspending _ => .suspending

def arity (r : Routine σ) : Nat := r.params.length

def descriptor (r : Routine σ) : Descriptor :=
  ⟨r.id, r.name, r.params.map Shape.name, r.mode⟩

end Routine

end Reentrant
