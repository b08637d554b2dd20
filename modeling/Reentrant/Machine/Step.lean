import Reentrant.Machine.Instruction

/-!
Stepping. The machine's own part of a step (`Machine.advance`) never touches the host: it ends in a
signal that says what the host is to be told. `Machine.step` adds the host, which is told of every
native call and of every frame that ends, and may change the machine before the next step.
-/

namespace Reentrant

/-- What the machine's own part of a step ends in. -/
inductive Signal where
  /-- Nothing for the host. -/
  | proceed
  /-- No frame is left. -/
  | done
  | call (routine : RoutineId) (caller : FrameId)
  | ended (t : Teardown)

inductive HookSite where
  | native (routine : RoutineId)
  | teardown (frame : FrameId)
  deriving DecidableEq

def HookSite.message : HookSite → String
  | .native id => "native handler failed for #" ++ Decimal.text id.toNat
  | .teardown id => "teardown hook failed for frame " ++ FrameId.display id

/-- What stops a machine. What goes wrong in a program is a fault and never one of these. `ε` is what
a host may fail with. -/
inductive Halt (ε : Type) where
  | stepLimit (limit : Nat)
  | blockedFrame (id : FrameId)
  | access (e : AccessError)
  /-- All frames are gone and none of them was the entry frame. -/
  | noExit
  | hook (site : HookSite) (cause : ε)
  deriving DecidableEq

def Halt.message {ε : Type} (cause : ε → String) : Halt ε → String
  | .stepLimit n => "step limit of " ++ Decimal.text n ++ " exceeded"
  | .blockedFrame id => "frame " ++ FrameId.display id ++
      " is blocked on a native routine but reached the top of the stack"
  | .access e => e.message
  | .noExit => "entry frame did not complete"
  | .hook site e => site.message ++ ": " ++ cause e

/-- A host over a state `ω`, with its two hooks; each works on the machine and its own state, and may
fail after having changed both. -/
structure Host (ω ε : Type) where
  onNative : Option (RoutineId → FrameId → Machine → ω → Except ε Unit × Machine × ω) := none
  onTeardown : Option (Teardown → Machine → ω → Except ε Unit × Machine × ω) := none

inductive Progress where
  | proceed
  | done
  deriving DecidableEq

def Fault.noHost (id : RoutineId) : Fault :=
  ⟨noNativeHandler, "native #" ++ Decimal.text id.toNat ++ " called with no host attached"⟩

namespace Machine

variable {ω ε : Type}

/-! ### The machine's own part -/

/-- Removes the current frame and says how it ended. -/
def finish (m : Machine) (fault : Option Fault) : Signal × Machine :=
  match m.frames with
  | [] => (.done, m)
  | f :: below =>
      let t : Teardown := ⟨f.id, fault, f.stack⟩
      (.ended t,
        { m with
          frames := below
          lastFault := fault.or m.lastFault
          exit := if m.entry = some f.id then some t.outcome else m.exit })

/-- Takes a fault of the current frame to its handler, which runs on the message alone and is no
longer armed, or ends the frame. -/
def unwind (m : Machine) (fault : Fault) : Signal × Machine :=
  match m.frames with
  | [] => (.done, m)
  | f :: below =>
      match f.handler with
      | some target =>
          (.proceed, { m with
            frames := { f with handler := none, stack := [.str fault.message], ip := target } ::
              below })
      | none => m.finish (some fault)

/-- Takes up a pending fault, or ends a frame past the end of its code, or executes one
instruction. -/
def advanceFrame (m : Machine) (f : Frame) (below : List Frame) : Signal × Machine :=
  match f.pendingFault with
  | some fault => { m with frames := { f with pendingFault := none } :: below }.unwind fault
  | none =>
      match f.program.code[f.ip]? with
      | none => m.finish none
      | some op =>
          let (f, result) := Frame.execute { f with ip := f.ip + 1 } op
          let m := { m with frames := f :: below }
          match result with
          | .error fault => m.unwind fault
          | .ok .next => (.proceed, m)
          | .ok .ret => m.finish none
          | .ok (.native id) => (.call id f.id, m)
          | .ok (.log v) => (.proceed, { m with logged := m.logged.push v })

/-- The machine's part of one step. A refused step is not counted. -/
def advance (m : Machine) : Except (Halt ε) Signal × Machine :=
  match m.frames with
  | [] => (.ok .done, m)
  | f :: below =>
      if f.blocked then (.error (.blockedFrame f.id), m)
      else
        match m.limits.maxSteps with
        | none => go f below
        | some limit => if limit ≤ m.steps then (.error (.stepLimit limit), m) else go f below
where
  go (f : Frame) (below : List Frame) : Except (Halt ε) Signal × Machine :=
    let (s, m) := { m with steps := m.steps + 1 }.advanceFrame f below
    (.ok s, m)

/-! ### With a host -/

/-- Passes a hook's failure on, with the place of the call. -/
def atSite (site : HookSite) (r : Except ε Unit × Machine × ω) :
    Except (Halt ε) Progress × Machine × ω :=
  match r with
  | (.ok (), m, w) => (.ok .proceed, m, w)
  | (.error e, m, w) => (.error (.hook site e), m, w)

def report (h : Host ω ε) (t : Teardown) (m : Machine) (w : ω) :
    Except (Halt ε) Progress × Machine × ω :=
  match h.onTeardown with
  | none => (.ok .proceed, m, w)
  | some hook => atSite (.teardown t.frame) (hook t m w)

/-- Tells the host of a native call; without a native hook the call faults. -/
def call (h : Host ω ε) (id : RoutineId) (caller : FrameId) (m : Machine) (w : ω) :
    Except (Halt ε) Progress × Machine × ω :=
  match h.onNative with
  | some hook => atSite (.native id) (hook id caller m w)
  | none =>
      match m.unwind (.noHost id) with
      | (.ended t, m) => report h t m w
      | (.done, m) => (.ok .done, m, w)
      | (_, m) => (.ok .proceed, m, w)

def step (h : Host ω ε) (m : Machine) (w : ω) : Except (Halt ε) Progress × Machine × ω :=
  match m.advance with
  | (.error e, m) => (.error e, m, w)
  | (.ok .proceed, m) => (.ok .proceed, m, w)
  | (.ok .done, m) => (.ok .done, m, w)
  | (.ok (.call id caller), m) => call h id caller m w
  | (.ok (.ended t), m) => report h t m w

/-- How many steps a run is given: far more than anybody waits for. -/
def stepsGiven : Nat := Nat.pow 2 62

/-- Steps until no frame is left. `none` if `fuel` steps do not get there. -/
def drain (h : Host ω ε) : Nat → Machine → ω → Option (Except (Halt ε) Unit) × Machine × ω
  | 0, m, w => (none, m, w)
  | fuel + 1, m, w =>
      match m.step h w with
      | (.ok .proceed, m, w) => drain h fuel m w
      | (.ok .done, m, w) => (some (.ok ()), m, w)
      | (.error e, m, w) => (some (.error e), m, w)

/-- Runs until no frame is left and gives the entry frame's outcome. -/
def run (h : Host ω ε) (fuel : Nat) (m : Machine) (w : ω) :
    Option (Except (Halt ε) Outcome) × Machine × ω :=
  match m.drain h fuel w with
  | (none, m, w) => (none, m, w)
  | (some (.error e), m, w) => (some (.error e), m, w)
  | (some (.ok ()), m, w) =>
      match m.exit with
      | some o => (some (.ok o), m, w)
      | none => (some (.error .noExit), m, w)

end Machine

end Reentrant
