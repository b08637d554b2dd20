import Reentrant.Dispatch

/-! The journal: the bridge's events in the order in which they happen. -/

namespace Reentrant

inductive Event where
  /-- A native instruction reached a registered routine. -/
  | dispatchStarted (caller : FrameId) (routine : String) (id : RoutineId)
  /-- The frame of a nested invocation was loaded. -/
  | frameLoaded (frame : FrameId) (program : String) (caller : FrameId)
  | frameTornDown (frame : FrameId) (faulted : Bool)
  /-- A suspended routine goes on because one of its invocations ended. -/
  | resumed (caller : FrameId) (routine : String)
  | routineFinished (caller : FrameId) (routine : String) (result : DispatchResult)
  deriving DecidableEq, Inhabited

/-- Keeps events only while enabled. -/
structure Journal where
  enabled : Bool := false
  events : Array Event := #[]

namespace Journal

def record (j : Journal) (e : Event) : Journal :=
  if j.enabled then { j with events := j.events.push e } else j

def clear (j : Journal) : Journal := { j with events := #[] }

end Journal

end Reentrant
