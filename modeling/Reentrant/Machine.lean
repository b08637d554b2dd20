import Reentrant.Frame

/-!
The machine: a stack of frames of which only the last one loaded is stepped, and the access that a
host has to it between steps.
-/

namespace Reentrant

/-- Bounds on one machine: how deep frames may stand before a new one is faulted as it is loaded, and
how many steps may be taken. -/
structure Limits where
  maxFrames : Nat := 256
  maxSteps : Option Nat := none
  deriving DecidableEq, Inhabited

structure Machine where
  limits : Limits := {}
  /-- The loaded frames, the current one first. -/
  frames : List Frame := []
  steps : Nat := 0
  /-- The frame whose outcome a run reports, and that outcome once the frame is gone. -/
  entry : Option FrameId := none
  exit : Option Outcome := none
  lastFault : Option Fault := none
  /-- What programs wrote to the log, oldest first. -/
  logged : Array Value := #[]
  nextFrame : FrameId := 1

/-- Why a host's access to a frame was refused. -/
inductive AccessError where
  | noActiveFrame
  | unknownFrame (id : FrameId)
  deriving DecidableEq

def AccessError.message : AccessError → String
  | .noActiveFrame => "no active frame"
  | .unknownFrame id => "frame " ++ FrameId.display id ++ " is not loaded"

/-- The fault of a frame that is loaded past the frame limit. -/
def Fault.overflow (maxFrames : Nat) : Fault :=
  ⟨Fault.stackOverflow, "more than " ++ Decimal.text maxFrames ++ " frames"⟩

namespace Machine

/-! ### Frames -/

/-- Loads a program into a new current frame. At the frame limit the frame is loaded all the same but
already faulted, so that whoever waits for it learns of the fault. -/
def load (m : Machine) (p : Program) : FrameId × Machine :=
  let pending := if m.limits.maxFrames ≤ m.frames.length
    then some (Fault.overflow m.limits.maxFrames) else none
  (m.nextFrame,
    { m with
      frames := { id := m.nextFrame, program := p, pendingFault := pending } :: m.frames
      nextFrame := m.nextFrame + 1 })

/-- Loads the frame whose outcome a run reports. -/
def loadEntry (m : Machine) (p : Program) : FrameId × Machine :=
  let (id, m) := m.load p
  (id, { m with entry := some id, exit := none })

def current (m : Machine) : Option FrameId := m.frames.head?.map (·.id)

def frame? (m : Machine) (id : FrameId) : Option Frame := m.frames.find? (·.id == id)

def hasFrame (m : Machine) (id : FrameId) : Bool := (m.frame? id).isSome

def depth (m : Machine) : Nat := m.frames.length

/-- Changes one frame by its number. -/
def modifyFrame (m : Machine) (id : FrameId) (change : Frame → Frame) :
    Except AccessError Machine :=
  if m.hasFrame id then
    .ok { m with frames := m.frames.map fun f => if f.id = id then change f else f }
  else .error (.unknownFrame id)

/-! ### Operands -/

/-- Pops from the current frame. -/
def pop (m : Machine) : Option Value × Machine :=
  match m.frames with
  | [] => (none, m)
  | f :: below =>
      match f.stack with
      | [] => (none, m)
      | v :: rest => (some v, { m with frames := { f with stack := rest } :: below })

/-- Pushes onto the current frame. -/
def push (m : Machine) (v : Value) : Except AccessError Machine :=
  match m.frames with
  | [] => .error .noActiveFrame
  | f :: below => .ok { m with frames := { f with stack := v :: f.stack } :: below }

def pushTo (m : Machine) (id : FrameId) (v : Value) : Except AccessError Machine :=
  m.modifyFrame id fun f => { f with stack := v :: f.stack }

/-! ### Faults and waiting -/

/-- Leaves a fault for a frame's next step; an earlier one that still waits there is kept. -/
def raise (m : Machine) (id : FrameId) (fault : Fault) : Except AccessError Machine :=
  m.modifyFrame id fun f => { f with pendingFault := f.pendingFault.or (some fault) }

def block (m : Machine) (id : FrameId) : Except AccessError Machine :=
  m.modifyFrame id fun f => { f with blocked := true }

def unblock (m : Machine) (id : FrameId) : Except AccessError Machine :=
  m.modifyFrame id fun f => { f with blocked := false }

def isBlocked (m : Machine) (id : FrameId) : Bool :=
  (m.frame? id).any (·.blocked)

/-- Drops every frame without a report and says how many there were. -/
def abort (m : Machine) : Nat × Machine :=
  (m.frames.length, { m with frames := [], entry := none })

end Machine

end Reentrant
