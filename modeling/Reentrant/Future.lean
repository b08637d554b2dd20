import Reentrant.Dispatch

/-!
Single-assignment futures. A cell holds the outcome of a nested invocation once there is one, and at
most one continuation, which is handed out to be run exactly when both are there. Cells live in a
store and are shared by their numbers.
-/

namespace Reentrant

/-- Futures are numbered in the order of their creation. -/
abbrev FutureId := Nat

/-- A future whose continuation is described by a `κ`. -/
structure Cell (κ : Type) where
  /-- `none` while pending. -/
  outcome : Option Outcome := none
  waiting : Option κ := none
  /-- Whether a continuation was ever registered. -/
  registered : Bool := false
  deriving DecidableEq

namespace Cell

variable {κ : Type}

def pending (c : Cell κ) : Bool := c.outcome.isNone

/-- Registers the only continuation. On a resolved cell it is to be run at once: the second component
says what to run. -/
def register (c : Cell κ) (k : κ) : Except FutureError (Cell κ × Option κ) :=
  if c.registered then .error .alreadyRegistered
  else
    match c.outcome with
    | none => .ok ({ c with registered := true, waiting := some k }, none)
    | some _ => .ok ({ c with registered := true }, some k)

/-- Stores the outcome and gives up the continuation that waited for it. -/
def resolve (c : Cell κ) (o : Outcome) : Except FutureError (Cell κ × Option κ) :=
  match c.outcome with
  | none => .ok ({ c with outcome := some o, waiting := none }, c.waiting)
  | some _ => .error .alreadyResolved

def result (c : Cell κ) : Except FutureError Outcome :=
  match c.outcome with
  | none => .error .notReady
  | some o => .ok o

end Cell

structure FutureStore (κ : Type) where
  cells : Array (Cell κ) := #[]

namespace FutureStore

variable {κ : Type}

def create (s : FutureStore κ) : FutureId × FutureStore κ :=
  (s.cells.size, ⟨s.cells.push {}⟩)

/-- A number that was never given out stands for a pending future. -/
def get (s : FutureStore κ) (f : FutureId) : Cell κ := s.cells[f]?.getD {}

def set (s : FutureStore κ) (f : FutureId) (c : Cell κ) : FutureStore κ :=
  ⟨s.cells.setIfInBounds f c⟩

def outcome? (s : FutureStore κ) (f : FutureId) : Option Outcome := (s.get f).outcome

/-- Registers a continuation; the one to be run at once, if any, is returned. -/
def register (s : FutureStore κ) (f : FutureId) (k : κ) :
    Except FutureError (FutureStore κ × Option κ) :=
  (Cell.register (s.get f) k).map fun (c, run) => (s.set f c, run)

def resolve (s : FutureStore κ) (f : FutureId) (o : Outcome) :
    Except FutureError (FutureStore κ × Option κ) :=
  (Cell.resolve (s.get f) o).map fun (c, run) => (s.set f c, run)

end FutureStore

end Reentrant
