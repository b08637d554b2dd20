import Reentrant.Execution
import Reentrant.Proofs.BridgedStep
import Reentrant.Proofs.DirectCalls

/-!
The machine's moves against those of a direct evaluation. Whatever the current frame of a machine is
about to do (go on, call a routine, end), a direct evaluation of the same frame does too. So one step
of the machine is one move, and a fault that waits to be taken up is a move of its own.
-/

namespace Reentrant

open Direct (World Move)

/-! ### Frames without their numbers -/

namespace Frame

/-- What a program can reach of its frame. -/
def bare (f : Frame) : Frame :=
  { id := 0, program := f.program, ip := f.ip, stack := f.stack, handler := f.handler }

theorem withTop_bare (f : Frame) {go : Frame → Value → Frame × Except Fault Flow}
    (hgo : ∀ f v, go (bare f) v = ((go f v).1.bare, (go f v).2)) :
    f.bare.withTop go = ((f.withTop go).1.bare, (f.withTop go).2) := by
  have hstack : f.bare.stack = f.stack := rfl
  rw [withTop, withTop, hstack]
  cases f.stack with
  | nil => rfl
  | cons v rest => exact hgo { f with stack := rest } v

theorem withTarget_bare (f : Frame) (target : Nat) {go go' : Frame × Except Fault Flow}
    (hgo : go' = (go.1.bare, go.2)) :
    f.bare.withTarget target go' = ((f.withTarget target go).1.bare, (f.withTarget target go).2) := by
  have hprogram : f.bare.program = f.program := rfl
  rw [withTarget, withTarget, hprogram]
  by_cases htarget : f.program.code.length < target
  · rw [if_pos htarget, if_pos htarget]
  · rw [if_neg htarget, if_neg htarget]
    exact hgo

theorem binary_bare (f : Frame) (combine : Value → Value → Except Fault Value) :
    f.bare.binary combine = ((f.binary combine).1.bare, (f.binary combine).2) := by
  refine withTop_bare f fun f b => withTop_bare f fun f a => ?_
  cases combine a b <;> rfl

/-- An instruction neither reads nor needs a frame's number. -/
theorem execute_bare (f : Frame) (op : Op) :
    f.bare.execute op = ((f.execute op).1.bare, (f.execute op).2) := by
  cases op with
  | push v => rfl
  | dup =>
      have hstack : f.bare.stack = f.stack := rfl
      rw [execute, execute, hstack]
      cases f.stack <;> rfl
  | pop | not | throw | log =>
      rw [execute, execute]
      refine withTop_bare f ?_
      intro f v
      rfl
  | swap =>
      rw [execute, execute]
      refine withTop_bare f ?_
      intro f b
      refine withTop_bare f ?_
      intro f a
      rfl
  | add | sub | mul | div | eq =>
      rw [execute, execute]
      exact binary_bare f _
  | jump target => exact withTarget_bare f target rfl
  | jumpIf target =>
      refine withTarget_bare f target (withTop_bare f ?_)
      intro f v
      cases v.truthy <;> rfl
  | catchAt target => exact withTarget_bare f target rfl
  | native id => rfl
  | ret => rfl

end Frame

/-! ### What the next step does -/

namespace Direct

open Builtin (Waiting)

/-- What a machine and its bridge have let the outside see. -/
def World.of (m : Machine) (b : Bridge Waiting) : World :=
  ⟨m.logged.toList, Execution.printed b.notes⟩

/-- What the current frame, which has the number `id` and stands above `below`, does in the next
step. -/
inductive Shows (m : Machine) (b : Bridge Waiting) (id : FrameId) (below : List Frame) :
    Move → Prop where
  | proceeds {f g : Frame} {logged : Array Value} (hframes : m.frames = f :: below)
      (hid : g.id = id) (hpending : g.pendingFault = none)
      (hadvance : @Machine.advance HookError m =
        (.ok .proceed, { m with steps := m.steps + 1, frames := g :: below, logged })) :
      Shows m b id below (.proceeds g.bare ⟨logged.toList, Execution.printed b.notes⟩)
  | calls {f g : Frame} {routine : RoutineId} (hframes : m.frames = f :: below)
      (hid : g.id = id) (hpending : g.pendingFault = none)
      (hadvance : @Machine.advance HookError m =
        (.ok (.call routine g.id), { m with steps := m.steps + 1, frames := g :: below })) :
      Shows m b id below (.calls routine g.bare (.of m b))
  | ends {f : Frame} {t : Teardown} {m₁ : Machine} (hframes : m.frames = f :: below)
      (hframe : t.frame = id) (hadvance : @Machine.advance HookError m = (.ok (.ended t), m₁)) :
      Shows m b id below (.ends t.outcome (.of m b))

section Shows

variable {m : Machine} {b : Bridge Waiting} {f g : Frame} {below : List Frame}
  (hframes : m.frames = f :: below)

include hframes

/-- Where a fault is met, the machine unwinds as a direct evaluation does. -/
theorem shows_unwind {id : FrameId} (hid : g.id = id) (hpending : g.pendingFault = none)
    (fault : Fault)
    (hadvance : @Machine.advance HookError m =
      (.ok (({ m with steps := m.steps + 1, frames := g :: below } : Machine).unwind fault).1,
        (({ m with steps := m.steps + 1, frames := g :: below } : Machine).unwind fault).2)) :
    Shows m b id below (unwind g.bare fault (.of m b)) := by
  simp only [Machine.unwind] at hadvance
  simp only [unwind, Frame.bare]
  cases hhandler : g.handler with
  | none =>
      rw [hhandler] at hadvance
      exact .ends (t := ⟨g.id, some fault, g.stack⟩) hframes hid hadvance
  | some target =>
      rw [hhandler] at hadvance
      exact .proceeds
        (g := { g with handler := none, stack := [.str fault.message], ip := target })
        hframes hid hpending hadvance

variable (hblocked : f.blocked = false) (hlimit : m.limits.maxSteps = none)

include hblocked hlimit

/-- Without a step limit the machine does its part of the step. -/
theorem advance_eq :
    @Machine.advance HookError m =
      (.ok (({ m with steps := m.steps + 1 } : Machine).advanceFrame f below).1,
        (({ m with steps := m.steps + 1 } : Machine).advanceFrame f below).2) := by
  have hgo : @Machine.advance.go HookError m f below =
      (.ok (({ m with steps := m.steps + 1 } : Machine).advanceFrame f below).1,
        (({ m with steps := m.steps + 1 } : Machine).advanceFrame f below).2) := rfl
  rw [← hgo, Machine.advance, hframes]
  simp only [hblocked, hlimit, Bool.false_eq_true, if_false]

/-- A fault that waits is taken up. -/
theorem shows_pending {fault : Fault} (hpending : f.pendingFault = some fault) :
    Shows m b f.id below (unwind f.bare fault (.of m b)) := by
  have hadvance := advance_eq hframes hblocked hlimit
  simp only [Machine.advanceFrame, hpending] at hadvance
  exact shows_unwind (g := { f with pendingFault := none }) hframes rfl rfl fault hadvance

/-- Without one, the frame moves. -/
theorem shows_move (hpending : f.pendingFault = none) :
    Shows m b f.id below (move f.bare (.of m b)) := by
  have hadvance := advance_eq hframes hblocked hlimit
  have hcode : f.bare.program.code[f.bare.ip]? = f.program.code[f.ip]? := rfl
  rw [Machine.advanceFrame] at hadvance
  split at hadvance
  · next heq =>
      rw [hpending] at heq
      cases heq
  · rw [move, hcode]
    cases hop : f.program.code[f.ip]? with
    | none =>
        simp only [hop, Machine.finish, hframes] at hadvance
        exact .ends (t := ⟨f.id, none, f.stack⟩) hframes rfl hadvance
    | some op =>
        have hcontinues := Frame.execute_continues { f with ip := f.ip + 1 } op
        have hbare := Frame.execute_bare { f with ip := f.ip + 1 } op
        have hmoved : { f.bare with ip := f.bare.ip + 1 } =
          ({ f with ip := f.ip + 1 } : Frame).bare := rfl
        simp only [hop] at hadvance
        dsimp only
        rw [hmoved, hbare]
        cases hexec : Frame.execute { f with ip := f.ip + 1 } op with
        | mk g result =>
            rw [hexec] at hadvance hcontinues
            have hid : g.id = f.id := hcontinues.id_eq
            have hnone : g.pendingFault = none := hcontinues.pendingFault_eq.trans hpending
            cases result with
            | error fault => exact shows_unwind hframes hid hnone fault hadvance
            | ok flow =>
                cases flow with
                | next => exact .proceeds hframes hid hnone hadvance
                | ret => exact .ends (t := ⟨g.id, none, g.stack⟩) hframes hid hadvance
                | native id => exact .calls hframes hid hnone hadvance
                | log v =>
                    have hlog : (World.of m b).log v =
                        ⟨(m.logged.push v).toList, Execution.printed b.notes⟩ := by
                      rw [Array.toList_push]
                      rfl
                    simp only [hlog]
                    exact .proceeds hframes hid hnone hadvance

end Shows

/-- A frame that was brought the result of its native call. -/
theorem shows_resume {m : Machine} {b : Bridge Waiting} {g : Frame} {below : List Frame}
    {r : DispatchResult} (hframes : m.frames = g.receive r :: below)
    (hlimit : m.limits.maxSteps = none) (hpending : g.pendingFault = none) :
    Shows m b g.id below (resume g.bare (.of m b) r) := by
  have hblocked := Frame.blocked_receive g r
  cases r with
  | void => exact shows_move (f := g.receive .void) hframes hblocked hlimit hpending
  | value v => exact shows_move (f := g.receive (.value v)) hframes hblocked hlimit hpending
  | fault e =>
      refine shows_pending (f := g.receive (.fault e)) hframes hblocked hlimit ?_
      simp only [Frame.receive, hpending, Option.none_or]

/-- A frame that was just loaded. -/
theorem shows_enter {m : Machine} (b : Bridge Waiting) (below : List Frame) {id : FrameId}
    {p : Program} (hframes : m.frames = m.limits.fresh id below.length p :: below)
    (hlimit : m.limits.maxSteps = none) :
    Shows m b id below (enter m.limits.maxFrames below.length p (.of m b)) := by
  rw [enter]
  by_cases hdepth : m.limits.maxFrames ≤ below.length
  · rw [if_pos hdepth]
    exact shows_pending (f := m.limits.fresh id below.length p) hframes rfl hlimit (if_pos hdepth)
  · rw [if_neg hdepth]
    exact shows_move (f := m.limits.fresh id below.length p) hframes rfl hlimit (if_neg hdepth)

end Direct

end Reentrant
