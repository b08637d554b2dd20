import Reentrant.Machine.Step

/-!
What the machine's own part of a step can do. It touches the current frame alone: the frame goes on,
or calls a native routine, or ends and leaves the stack.
-/

namespace Reentrant

/-! ### One instruction -/

namespace Frame

/-- The two frames differ at most in what a program can reach. -/
def Continues (f f' : Frame) : Prop :=
  ∃ ip stack handler, f' = { f with ip, stack, handler }

theorem Continues.id_eq {f f' : Frame} (h : f.Continues f') : f'.id = f.id := by
  obtain ⟨ip, stack, handler, rfl⟩ := h
  rfl

theorem Continues.blocked_eq {f f' : Frame} (h : f.Continues f') : f'.blocked = f.blocked := by
  obtain ⟨ip, stack, handler, rfl⟩ := h
  rfl

theorem Continues.pendingFault_eq {f f' : Frame} (h : f.Continues f') :
    f'.pendingFault = f.pendingFault := by
  obtain ⟨ip, stack, handler, rfl⟩ := h
  rfl

/-- An instruction reaches the instruction pointer, the operands and the handler only. -/
theorem execute_continues (f : Frame) (op : Op) : f.Continues (f.execute op).1 := by
  have hbinary : ∀ combine, f.Continues (f.binary combine).1 := by
    intro combine
    rw [binary, withTop]
    cases hstack : f.stack with
    | nil => exact ⟨f.ip, f.stack, f.handler, rfl⟩
    | cons b rest =>
        simp only [withTop]
        cases rest with
        | nil => exact ⟨f.ip, [], f.handler, rfl⟩
        | cons a rest =>
            simp only
            cases combine a b with
            | ok v => exact ⟨f.ip, v :: rest, f.handler, rfl⟩
            | error e => exact ⟨f.ip, rest, f.handler, rfl⟩
  cases op with
  | push v => exact ⟨f.ip, v :: f.stack, f.handler, rfl⟩
  | add => exact hbinary _
  | sub => exact hbinary _
  | mul => exact hbinary _
  | div => exact hbinary _
  | eq => exact hbinary _
  | _ =>
      simp only [execute, withTop, withTarget]
      repeat' split
      all_goals exact ⟨_, _, _, rfl⟩

/-- Only a native instruction calls a routine, and it leaves the frame as it is. -/
theorem op_of_native {f f' : Frame} {op : Op} {id : RoutineId}
    (h : f.execute op = (f', .ok (.native id))) : op = .native id ∧ f' = f := by
  have hbinary : ∀ combine, (f.binary combine).2 ≠ .ok (.native id) := by
    intro combine
    rw [binary, withTop]
    cases hstack : f.stack with
    | nil => simp
    | cons b rest =>
        simp only [withTop]
        cases rest with
        | nil => simp
        | cons a rest =>
            simp only
            cases combine a b <;> simp
  have hsnd : (f.execute op).2 = .ok (.native id) := by rw [h]
  cases op with
  | native id' =>
      cases h
      exact ⟨rfl, rfl⟩
  | add => exact absurd hsnd (hbinary _)
  | sub => exact absurd hsnd (hbinary _)
  | mul => exact absurd hsnd (hbinary _)
  | div => exact absurd hsnd (hbinary _)
  | eq => exact absurd hsnd (hbinary _)
  | _ =>
      simp only [execute, withTop, withTarget] at hsnd
      repeat' split at hsnd
      all_goals cases hsnd

end Frame

/-! ### The machine's part of a step -/

namespace Machine

variable {ε : Type}

/-- What a counted step may end in, for a current frame `f` above `below`. -/
inductive Advanced (m : Machine) (f : Frame) (below : List Frame) : Signal → Machine → Prop where
  | proceed {g : Frame} (hid : g.id = f.id) (hblocked : g.blocked = f.blocked)
      (logged : Array Value) :
      Advanced m f below .proceed { m with steps := m.steps + 1, frames := g :: below, logged }
  | call {g : Frame} (hid : g.id = f.id) (hblocked : g.blocked = f.blocked)
      (routine : RoutineId) :
      Advanced m f below (.call routine g.id)
        { m with steps := m.steps + 1, frames := g :: below }
  | ended (fault : Option Fault) (stack : List Value) :
      Advanced m f below (.ended ⟨f.id, fault, stack⟩)
        { m with
          steps := m.steps + 1
          frames := below
          lastFault := fault.or m.lastFault
          exit := if m.entry = some f.id then some (Teardown.outcome ⟨f.id, fault, stack⟩)
            else m.exit }

/-- The caller of a native call is the current frame. -/
theorem Advanced.caller_eq {m m' : Machine} {f : Frame} {below : List Frame} {routine : RoutineId}
    {caller : FrameId} (h : m.Advanced f below (.call routine caller) m') : caller = f.id := by
  cases h with
  | call hid => exact hid

/-- When the current frame ends, it leaves the stack. -/
theorem Advanced.of_ended {m m' : Machine} {f : Frame} {below : List Frame} {t : Teardown}
    (h : m.Advanced f below (.ended t) m') :
    t.frame = f.id ∧ m'.frames = below ∧ m'.nextFrame = m.nextFrame ∧ m'.logged = m.logged ∧
      m'.exit = if m.entry = some f.id then some t.outcome else m.exit := by
  cases h with
  | ended fault stack => exact ⟨rfl, rfl, rfl, rfl, rfl⟩

section Advance

variable {m : Machine} {f g : Frame} {below : List Frame} (hid : g.id = f.id)
  (hblocked : g.blocked = f.blocked)

include hid

/-- Ending the current frame. -/
theorem finish_advanced (fault : Option Fault) :
    m.Advanced f below
      (({ m with steps := m.steps + 1, frames := g :: below } : Machine).finish fault).1
      (({ m with steps := m.steps + 1, frames := g :: below } : Machine).finish fault).2 := by
  simp only [finish, hid]
  exact .ended fault g.stack

include hblocked

/-- A fault is handled within the frame, or ends it. -/
theorem unwind_advanced (fault : Fault) :
    m.Advanced f below
      (({ m with steps := m.steps + 1, frames := g :: below } : Machine).unwind fault).1
      (({ m with steps := m.steps + 1, frames := g :: below } : Machine).unwind fault).2 := by
  simp only [unwind]
  cases g.handler with
  | none => exact finish_advanced hid (some fault)
  | some target =>
      exact .proceed (g := { g with handler := none, stack := [.str fault.message], ip := target })
        hid hblocked m.logged

end Advance

/-- Taking up a pending fault, running past the end and executing an instruction all leave the frames
below as they are. -/
theorem advanceFrame_advanced (m : Machine) (f : Frame) (below : List Frame) :
    m.Advanced f below
      (({ m with steps := m.steps + 1, frames := f :: below } : Machine).advanceFrame f below).1
      (({ m with steps := m.steps + 1, frames := f :: below } : Machine).advanceFrame f below).2 := by
  rw [advanceFrame]
  split
  · next fault _ =>
      exact unwind_advanced (f := f) (g := { f with pendingFault := none }) rfl rfl fault
  · cases f.program.code[f.ip]? with
    | none => exact finish_advanced rfl none
    | some op =>
        have hcontinues := Frame.execute_continues { f with ip := f.ip + 1 } op
        dsimp only
        cases hexec : Frame.execute { f with ip := f.ip + 1 } op with
        | mk g result =>
            rw [hexec] at hcontinues
            have hid : g.id = f.id := hcontinues.id_eq
            have hblocked : g.blocked = f.blocked := hcontinues.blocked_eq
            cases result with
            | error fault => exact unwind_advanced hid hblocked fault
            | ok flow =>
                cases flow with
                | next => exact .proceed hid hblocked m.logged
                | ret => exact finish_advanced hid none
                | native id => exact .call hid hblocked id
                | log v => exact .proceed hid hblocked (m.logged.push v)

/-- A machine whose current frame may be stepped is refused a step only by the step limit. -/
theorem advance_cases {m : Machine} {f : Frame} {below : List Frame}
    (hframes : m.frames = f :: below) (hblocked : f.blocked = false) :
    (∃ limit, m.limits.maxSteps = some limit ∧
      @advance ε m = (.error (.stepLimit limit), m)) ∨
    ∃ s m', m.Advanced f below s m' ∧ @advance ε m = (.ok s, m') := by
  have hadvanced := advanceFrame_advanced m f below
  rw [← hframes] at hadvanced
  have hgo : @advance.go ε m f below =
      (.ok (({ m with steps := m.steps + 1 } : Machine).advanceFrame f below).1,
        (({ m with steps := m.steps + 1 } : Machine).advanceFrame f below).2) := rfl
  rw [advance, hframes]
  simp only [hblocked, Bool.false_eq_true, if_false]
  cases hmax : m.limits.maxSteps with
  | none => exact .inr ⟨_, _, hadvanced, hgo⟩
  | some limit =>
      by_cases hlimit : limit ≤ m.steps
      · exact .inl ⟨limit, rfl, if_pos hlimit⟩
      · exact .inr ⟨_, _, hadvanced, (if_neg hlimit).trans hgo⟩

/-! ### Native calls -/

theorem finish_ne_call (m : Machine) (fault : Option Fault) (id : RoutineId) (caller : FrameId) :
    (m.finish fault).1 ≠ .call id caller := by
  unfold finish
  cases m.frames <;> simp

theorem unwind_ne_call (m : Machine) (fault : Fault) (id : RoutineId) (caller : FrameId) :
    (m.unwind fault).1 ≠ .call id caller := by
  unfold unwind
  split
  · simp
  · split
    · simp
    · exact finish_ne_call m _ id caller

theorem advanceFrame_call {m m₁ : Machine} {f : Frame} {below : List Frame} {id : RoutineId}
    {caller : FrameId} (h : m.advanceFrame f below = (.call id caller, m₁)) :
    f.pendingFault = none ∧ f.program.code[f.ip]? = some (.native id) ∧ caller = f.id ∧
      m₁ = { m with frames := { f with ip := f.ip + 1 } :: below } := by
  unfold advanceFrame at h
  split at h
  · exact absurd (congrArg Prod.fst h) (unwind_ne_call _ _ id caller)
  · next hpending =>
      split at h
      · exact absurd (congrArg Prod.fst h) (finish_ne_call _ _ id caller)
      · next op hop =>
          generalize hexec : Frame.execute { f with ip := f.ip + 1 } op = executed at h
          obtain ⟨g, result⟩ := executed
          dsimp only at h
          split at h
          · exact absurd (congrArg Prod.fst h) (unwind_ne_call _ _ id caller)
          · cases h
          · exact absurd (congrArg Prod.fst h) (finish_ne_call _ _ id caller)
          · obtain ⟨rfl, rfl⟩ := Frame.op_of_native hexec
            cases h
            exact ⟨hpending, hop, rfl, rfl⟩
          · cases h

/-- A step that is taken is one of the current frame. -/
theorem advanceFrame_of_advance {m m₁ : Machine} {f : Frame} {below : List Frame}
    (hframes : m.frames = f :: below) {s : Signal} (h : @advance ε m = (.ok s, m₁)) :
    ({ m with steps := m.steps + 1 } : Machine).advanceFrame f below = (s, m₁) := by
  have hgo : @advance.go ε m f below = (.ok s, m₁) →
      ({ m with steps := m.steps + 1 } : Machine).advanceFrame f below = (s, m₁) := by
    intro hgo
    unfold advance.go at hgo
    generalize ({ m with steps := m.steps + 1 } : Machine).advanceFrame f below = r at hgo ⊢
    obtain ⟨s, m'⟩ := r
    cases hgo
    rfl
  unfold advance at h
  rw [hframes] at h
  dsimp only at h
  split at h
  · cases h
  · split at h
    · exact hgo h
    · split at h
      · cases h
      · exact hgo h

/-- A step calls a routine only where the current frame has a native instruction; it moves the
instruction pointer past it. -/
theorem advance_call {m m₁ : Machine} {f : Frame} {below : List Frame}
    (hframes : m.frames = f :: below) {id : RoutineId} {caller : FrameId}
    (h : @advance ε m = (.ok (.call id caller), m₁)) :
    f.pendingFault = none ∧ f.program.code[f.ip]? = some (.native id) ∧ caller = f.id ∧
      m₁ = { m with steps := m.steps + 1, frames := { f with ip := f.ip + 1 } :: below } :=
  advanceFrame_call (advanceFrame_of_advance hframes h)

end Machine

end Reentrant
