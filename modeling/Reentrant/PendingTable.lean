import Reentrant.Future

/-!
The table of pending invocations: for each frame loaded for an invocation, the future that waits for
its end. No frame and no future occurs twice.
-/

namespace Reentrant

/-- Frames and the futures that wait for them, in increasing order of the frames. -/
structure PendingTable where
  entries : List (FrameId × FutureId) := []
  deriving DecidableEq, Inhabited

namespace PendingTable

def contains (t : PendingTable) (frame : FrameId) : Bool := t.entries.any (·.1 == frame)

def place (e : FrameId × FutureId) : List (FrameId × FutureId) → List (FrameId × FutureId)
  | [] => [e]
  | d :: rest => if e.1 < d.1 then e :: d :: rest else d :: place e rest

/-- Enters a frame. A frame that is there already, or a future under another frame, is refused and
leaves the table as it was. -/
def insert (t : PendingTable) (frame : FrameId) (f : FutureId) : Except BridgeError PendingTable :=
  if t.contains frame then .error (.duplicateFrame frame)
  else if t.entries.any (·.2 == f) then .error (.sharedFuture frame)
  else .ok ⟨place (frame, f) t.entries⟩

def remove (t : PendingTable) (frame : FrameId) : Option FutureId × PendingTable :=
  ((t.entries.find? (·.1 == frame)).map (·.2), ⟨t.entries.filter (·.1 != frame)⟩)

/-- Drops every entry and says how many there were. -/
def clear (t : PendingTable) : Nat × PendingTable := (t.entries.length, {})

/-- The frames with a pending invocation, oldest first. -/
def frames (t : PendingTable) : List FrameId := t.entries.map (·.1)

def size (t : PendingTable) : Nat := t.entries.length

end PendingTable

end Reentrant
