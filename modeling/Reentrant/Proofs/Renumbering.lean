import Reentrant.Bridge

/-!
A machine that has been used before. Once its frames are dropped, what an earlier session leaves in
it are the numbers it has given out, the log and some counts. A session that runs on top of that goes
through the states of a session on a new machine, with every frame number greater by the number of
frames loaded before; nothing in a machine looks at a frame number except to compare it with another
one.
-/

namespace Reentrant

/-! ### What an earlier session leaves -/

/-- By how much the numbers of two sessions differ. -/
structure Shift where
  frames : Nat
  futures : Nat
  tasks : Nat

/-- What an earlier session leaves in a machine and its bridge once both are cleaned up. -/
structure Residue where
  /-- How many frames it loaded. -/
  frames : Nat
  /-- How many task numbers it gave out. -/
  tasks : Nat
  cells : Array (Cell Continuation)
  logged : Array Value
  events : Array Event
  steps : Nat
  lastFault : Option Fault

def Residue.shift (r : Residue) : Shift := ⟨r.frames, r.cells.size, r.tasks⟩

/-! ### Greater frame numbers -/

def Frame.shift (n : Nat) (f : Frame) : Frame := { f with id := f.id + n }

def Teardown.shift (n : Nat) (t : Teardown) : Teardown := { t with frame := t.frame + n }

def Event.shift (n : Nat) : Event → Event
  | .dispatchStarted caller routine id => .dispatchStarted (caller + n) routine id
  | .frameLoaded frame program caller => .frameLoaded (frame + n) program (caller + n)
  | .frameTornDown frame faulted => .frameTornDown (frame + n) faulted
  | .resumed caller routine => .resumed (caller + n) routine
  | .routineFinished caller routine result => .routineFinished (caller + n) routine result

def Signal.shift (n : Nat) : Signal → Signal
  | .proceed => .proceed
  | .done => .done
  | .call routine caller => .call routine (caller + n)
  | .ended t => .ended (t.shift n)

def AccessError.shift (n : Nat) : AccessError → AccessError
  | .noActiveFrame => .noActiveFrame
  | .unknownFrame id => .unknownFrame (id + n)

def BridgeError.shift (n : Nat) : BridgeError → BridgeError
  | .future e => .future e
  | .duplicateFrame id => .duplicateFrame (id + n)
  | .sharedFuture id => .sharedFuture (id + n)
  | .reentered => .reentered
  | .nestedTooDeep => .nestedTooDeep

def HookError.shift (n : Nat) : HookError → HookError
  | .bridge e => .bridge (e.shift n)
  | .access e => .access (e.shift n)
  | .other message => .other message

def HookSite.shift (n : Nat) : HookSite → HookSite
  | .native routine => .native routine
  | .teardown frame => .teardown (frame + n)

/-- `cause` says what becomes of the host's own failures. -/
def Halt.shift {ε : Type} (cause : ε → ε) (n : Nat) : Halt ε → Halt ε
  | .stepLimit limit => .stepLimit limit
  | .blockedFrame id => .blockedFrame (id + n)
  | .access e => .access (e.shift n)
  | .noExit => .noExit
  | .hook site e => .hook (site.shift n) (cause e)

/-- Numbers that are shifted alike are equal as they were before. -/
theorem shift_beq (a b n : Nat) : (a + n == b + n) = (a == b) := by
  rw [Bool.eq_iff_iff, beq_iff_eq, beq_iff_eq, Nat.add_right_cancel_iff]

/-! ### One instruction -/

namespace Frame

/-- The instruction that `go` stands for does not look at the frame's number. -/
def shiftResult (n : Nat) (r : Frame × Except Fault Flow) : Frame × Except Fault Flow :=
  (r.1.shift n, r.2)

theorem withTop_shift (n : Nat) (f : Frame) (go : Frame → Value → Frame × Except Fault Flow)
    (hgo : ∀ f v, go (f.shift n) v = shiftResult n (go f v)) :
    (f.shift n).withTop go = shiftResult n (f.withTop go) := by
  rw [withTop, withTop]
  have hstack : (f.shift n).stack = f.stack := rfl
  rw [hstack]
  cases f.stack with
  | nil => rfl
  | cons v rest => exact hgo { f with stack := rest } v

theorem withTarget_shift (n : Nat) (f : Frame) (target : Nat) {go go' : Frame × Except Fault Flow}
    (hgo : go' = shiftResult n go) :
    (f.shift n).withTarget target go' = shiftResult n (f.withTarget target go) := by
  have hprogram : (f.shift n).program = f.program := rfl
  rw [withTarget, withTarget, hprogram, hgo]
  by_cases h : f.program.code.length < target
  · rw [if_pos h, if_pos h]
    rfl
  · rw [if_neg h, if_neg h]

theorem binary_shift (n : Nat) (f : Frame) (combine : Value → Value → Except Fault Value) :
    (f.shift n).binary combine = shiftResult n (f.binary combine) := by
  refine withTop_shift n f _ fun f b => withTop_shift n f _ fun f a => ?_
  cases combine a b <;> rfl

/-- No instruction looks at the number of its frame. -/
theorem execute_shift (n : Nat) (f : Frame) (op : Op) :
    (f.shift n).execute op = shiftResult n (f.execute op) := by
  cases op with
  | push v => rfl
  | pop => exact withTop_shift n f (fun f _ => (f, .ok .next)) fun _ _ => rfl
  | dup =>
      have hstack : (f.shift n).stack = f.stack := rfl
      simp only [execute, hstack]
      cases f.stack <;> rfl
  | swap =>
      rw [execute, execute]
      exact withTop_shift n f _ fun f b => withTop_shift n f _ fun _ _ => rfl
  | add => exact binary_shift n f Op.sum
  | sub => exact binary_shift n f Op.difference
  | mul => exact binary_shift n f Op.product
  | div => exact binary_shift n f Op.quotient
  | eq => exact binary_shift n f fun a b => .ok (.bool (a = b))
  | not =>
      rw [execute, execute]
      exact withTop_shift n f _ fun _ _ => rfl
  | jump target => exact withTarget_shift n f target rfl
  | jumpIf target =>
      refine withTarget_shift n f target (withTop_shift n f _ fun f v => ?_)
      cases v.truthy <;> rfl
  | catchAt target => exact withTarget_shift n f target rfl
  | throw =>
      rw [execute, execute]
      exact withTop_shift n f _ fun _ _ => rfl
  | native id => rfl
  | log =>
      rw [execute, execute]
      exact withTop_shift n f _ fun _ _ => rfl
  | ret => rfl

end Frame

/-! ### The machine -/

namespace Machine

variable (r : Residue)

/-- The machine as it is when its session runs on what an earlier one left. -/
def onto (m : Machine) : Machine :=
  { m with
    frames := m.frames.map (Frame.shift r.frames)
    steps := r.steps + m.steps
    entry := m.entry.map (· + r.frames)
    lastFault := m.lastFault.or r.lastFault
    logged := r.logged ++ m.logged
    nextFrame := m.nextFrame + r.frames }

/-- What an access comes to, on top of an earlier session. -/
def attemptOnto : Except AccessError Machine → Except AccessError Machine
  | .ok m => .ok (m.onto r)
  | .error e => .error (e.shift r.frames)

theorem load_onto (m : Machine) (p : Program) :
    (m.onto r).load p = ((m.load p).1 + r.frames, (m.load p).2.onto r) := by
  simp only [load, onto, List.length_map, List.map_cons, Frame.shift, Nat.add_right_comm]

theorem hasFrame_onto (m : Machine) (id : FrameId) :
    (m.onto r).hasFrame (id + r.frames) = m.hasFrame id := by
  have hsame : (fun f : Frame => f.id == id + r.frames) ∘ Frame.shift r.frames =
      fun f : Frame => f.id == id := by
    funext f
    exact shift_beq f.id id r.frames
  simp only [hasFrame, frame?, onto, List.find?_map, Option.isSome_map, hsame]

theorem modifyFrame_onto (m : Machine) (id : FrameId) (change : Frame → Frame)
    (hchange : ∀ f, change (f.shift r.frames) = (change f).shift r.frames) :
    (m.onto r).modifyFrame (id + r.frames) change = attemptOnto r (m.modifyFrame id change) := by
  rw [modifyFrame, modifyFrame, hasFrame_onto]
  cases m.hasFrame id with
  | false => rfl
  | true =>
      simp only [if_true, attemptOnto, onto, List.map_map]
      congr 2
      refine List.map_congr_left fun f _ => ?_
      have hid : (f.shift r.frames).id = id + r.frames ↔ f.id = id := Nat.add_right_cancel_iff
      by_cases h : f.id = id
      · rw [Function.comp_apply, Function.comp_apply, if_pos (hid.2 h), if_pos h, hchange]
      · rw [Function.comp_apply, Function.comp_apply, if_neg fun h' => h (hid.1 h'), if_neg h]

theorem pop_onto (m : Machine) : (m.onto r).pop = (m.pop.1, m.pop.2.onto r) := by
  rw [pop, pop]
  have hframes : (m.onto r).frames = m.frames.map (Frame.shift r.frames) := rfl
  rw [hframes]
  cases hm : m.frames with
  | nil => rfl
  | cons f below =>
      have hstack : (f.shift r.frames).stack = f.stack := rfl
      simp only [List.map_cons, hstack]
      cases f.stack <;> rfl

/-! #### The machine's own part of a step -/

/-- What ends in a signal, on top of an earlier session. -/
def signalOnto (s : Signal × Machine) : Signal × Machine := (s.1.shift r.frames, s.2.onto r)

theorem finish_onto (m : Machine) (fault : Option Fault) :
    (m.onto r).finish fault = signalOnto r (m.finish fault) := by
  rw [finish, finish]
  have hframes : (m.onto r).frames = m.frames.map (Frame.shift r.frames) := rfl
  rw [hframes]
  cases m.frames with
  | nil => rfl
  | cons f below =>
      have hentry : m.entry.map (· + r.frames) = some (f.id + r.frames) ↔ m.entry = some f.id := by
        cases m.entry with
        | none => simp
        | some id => simp
      simp only [List.map_cons, signalOnto, Signal.shift, Teardown.shift, onto, Frame.shift,
        Option.or_assoc, hentry, Teardown.outcome]

theorem unwind_onto (m : Machine) (fault : Fault) :
    (m.onto r).unwind fault = signalOnto r (m.unwind fault) := by
  have hfinish := finish_onto r m (some fault)
  have hframes : (m.onto r).frames = m.frames.map (Frame.shift r.frames) := rfl
  rw [unwind, unwind, hframes]
  cases m.frames with
  | nil => rfl
  | cons f below =>
      have hhandler : (f.shift r.frames).handler = f.handler := rfl
      simp only [List.map_cons, hhandler]
      cases f.handler with
      | none => exact hfinish
      | some target => rfl

theorem advanceFrame_onto (m : Machine) (f : Frame) (below : List Frame) :
    (m.onto r).advanceFrame (f.shift r.frames) (below.map (Frame.shift r.frames)) =
      signalOnto r (m.advanceFrame f below) := by
  have hpending : (f.shift r.frames).pendingFault = f.pendingFault := rfl
  have hop : (f.shift r.frames).program.code[(f.shift r.frames).ip]? = f.program.code[f.ip]? := rfl
  rw [advanceFrame, advanceFrame, hpending]
  cases f.pendingFault with
  | some fault =>
      exact unwind_onto r { m with frames := { f with pendingFault := none } :: below } fault
  | none =>
      simp only [hop]
      cases f.program.code[f.ip]? with
      | none => exact finish_onto r m none
      | some op =>
          have hexecute := Frame.execute_shift r.frames
            { f with ip := f.ip + 1, pendingFault := none } op
          simp only [Frame.shift] at hexecute ⊢
          rw [hexecute]
          generalize Frame.execute { f with ip := f.ip + 1, pendingFault := none } op = executed
          obtain ⟨g, fault | (_ | _ | id | v)⟩ := executed
          · exact unwind_onto r { m with frames := g :: below } fault
          · rfl
          · exact finish_onto r { m with frames := g :: below } none
          · rfl
          · simp [Frame.shiftResult, signalOnto, Signal.shift, onto]

/-- Without a step limit the machine's own part of a step does not depend on what was before. -/
theorem advance_onto {ε : Type} (cause : ε → ε) {m : Machine} (hmax : m.limits.maxSteps = none) :
    @advance ε (m.onto r) =
      ((@advance ε m).1.map (Signal.shift r.frames) |>.mapError (Halt.shift cause r.frames),
        (@advance ε m).2.onto r) := by
  have hframes : (m.onto r).frames = m.frames.map (Frame.shift r.frames) := rfl
  have hlimits : (m.onto r).limits = m.limits := rfl
  rw [advance, advance, hframes]
  cases m.frames with
  | nil => rfl
  | cons f below =>
      have hblocked : (f.shift r.frames).blocked = f.blocked := rfl
      simp only [List.map_cons, hblocked]
      cases f.blocked with
      | true => rfl
      | false =>
          have hframe := advanceFrame_onto r { m with steps := m.steps + 1 } f below
          simp only [onto, ← Nat.add_assoc] at hframe
          simp only [Bool.false_eq_true, if_false, hlimits, hmax, advance.go]
          simp only [onto]
          rw [hframe]
          rfl

end Machine

end Reentrant
