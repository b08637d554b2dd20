import Reentrant.Proofs.BuiltinPolls
import Reentrant.Proofs.LaunchedRun
import Reentrant.Proofs.MoveSimulation

/-!
Calls that are split over tasks, futures and frames come to the same as direct calls. When a built-in
has been polled, either its caller has the result, or one procedure stands on top of the caller and
the routine waits for its end. By induction on the fuel of the direct evaluation that procedure is
run to its end, and the step that ends it polls the routine again.

Where a direct evaluation gives up for lack of fuel, the machine has not come to an end either.
-/

namespace Reentrant

/-! ### Runs and their fuel -/

namespace Machine

variable {ω ε : Type}

/-- More fuel changes nothing about a run that has come to an end. -/
theorem drain_add {h : Host ω ε} {fuel : Nat} {m m' : Machine} {w w' : ω}
    {r : Except (Halt ε) Unit} (hdrain : m.drain h fuel w = (some r, m', w')) (more : Nat) :
    m.drain h (fuel + more) w = (some r, m', w') := by
  induction fuel generalizing m w with
  | zero => cases hdrain
  | succ fuel ih =>
      rw [Nat.add_right_comm, drain]
      rw [drain] at hdrain
      cases hstep : m.step h w with
      | mk result state =>
          rw [hstep] at hdrain
          cases result with
          | error e => exact hdrain
          | ok progress =>
              cases progress with
              | proceed => exact ih hdrain
              | done => exact hdrain

/-- A run that does not end does not end with less fuel. -/
theorem drain_none_of_le {h : Host ω ε} {fuel more : Nat} {m : Machine} {w : ω}
    (hnone : (m.drain h more w).1 = none) (hle : fuel ≤ more) : (m.drain h fuel w).1 = none := by
  obtain ⟨rest, rfl⟩ := Nat.exists_eq_add_of_le hle
  cases hdrain : m.drain h fuel w with
  | mk end? state =>
      cases end? with
      | none => rfl
      | some r =>
          rw [drain_add hdrain rest] at hnone
          cases hnone

end Machine

namespace Direct

open Builtin (Waiting)

/-- `n` steps lead from one state of a run to another. -/
inductive Proceeds : Nat → Machine → Bridge Waiting → Machine → Bridge Waiting → Prop where
  | here {m : Machine} {b : Bridge Waiting} : Proceeds 0 m b m b
  | step {n : Nat} {m m₁ m' : Machine} {b b₁ b' : Bridge Waiting}
      (hstep : m.step Bridge.host b = (.ok .proceed, m₁, b₁)) (hrest : Proceeds n m₁ b₁ m' b') :
      Proceeds (n + 1) m b m' b'

namespace Proceeds

variable {n k : Nat} {m m₁ m' : Machine} {b b₁ b' : Bridge Waiting}

theorem trans (hfirst : Proceeds n m b m₁ b₁) (hrest : Proceeds k m₁ b₁ m' b') :
    Proceeds (n + k) m b m' b' := by
  induction hfirst with
  | here =>
      rw [Nat.zero_add]
      exact hrest
  | step hstep _ ih =>
      rw [Nat.add_right_comm]
      exact .step hstep (ih hrest)

theorem one (hstep : m.step Bridge.host b = (.ok .proceed, m', b')) : Proceeds 1 m b m' b' :=
  .step hstep .here

/-- The steps are the first ones of a run. -/
theorem drain (h : Proceeds n m b m' b') (more : Nat) :
    m.drain Bridge.host (n + more) b = m'.drain Bridge.host more b' := by
  induction h with
  | here => rw [Nat.zero_add]
  | step hstep _ ih =>
      rw [Nat.add_right_comm, Machine.drain, hstep]
      exact ih

/-- If the run does not end from a later state on, it does not end. -/
theorem drain_none {fuel fuel' : Nat} (h : Proceeds n m b m' b')
    (hnone : (m'.drain Bridge.host fuel b').1 = none) (hle : fuel' ≤ n + fuel) :
    (m.drain Bridge.host fuel' b).1 = none :=
  Machine.drain_none_of_le (by rw [h.drain]; exact hnone) hle

end Proceeds

/-! ### Between two steps -/

/-- A machine without a step limit and a bridge of the built-in routines, between two steps. -/
structure Stage (l : Library) (maxFrames : Nat) (m : Machine) (b : Bridge Waiting) : Prop where
  aligned : Bridge.Aligned (fun _ => True) m b
  registry : b.registry = Builtin.registry
  library : b.library = l
  limits : m.limits = { maxFrames }

namespace Stage

variable {l : Library} {maxFrames : Nat} {m : Machine} {b : Bridge Waiting}

theorem maxSteps (h : Stage l maxFrames m b) : m.limits.maxSteps = none := by
  rw [h.limits]

theorem maxFrames_eq (h : Stage l maxFrames m b) : m.limits.maxFrames = maxFrames := by
  rw [h.limits]

/-- As long as there are frames, a step proceeds. -/
theorem step (h : Stage l maxFrames m b) {f : Frame} {below : List Frame}
    (hframes : m.frames = f :: below) {s : Signal} {m₁ : Machine}
    (hadvance : @Machine.advance HookError m = (.ok s, m₁)) :
    ∃ m' b', m.step Bridge.host b = (.ok .proceed, m', b') ∧ m.Advanced f below s m₁ ∧
      Bridge.Reaction s m₁ b m' b' ∧ Stage l maxFrames m' b' := by
  have haligned := h.aligned.step.2
  have hstepped := h.aligned.step.1
  generalize hstep : m.step Bridge.host b = result at hstepped haligned
  cases hstepped with
  | done hnil =>
      rw [hframes] at hnil
      cases hnil
  | refused hlimit _ =>
      rw [h.maxSteps] at hlimit
      cases hlimit
  | counted hframes' hadvanced hadvance' hreaction =>
      rw [hframes] at hframes'
      cases hframes'
      rw [hadvance] at hadvance'
      cases hadvance'
      refine ⟨_, _, rfl, hadvanced, hreaction, haligned, ?_, ?_, ?_⟩
      · exact hreaction.keeps_host.1.trans h.registry
      · exact hreaction.keeps_host.2.trans h.library
      · rw [hreaction.keeps.1, ← h.limits]
        cases hadvanced <;> rfl

end Stage

/-! ### What is to be shown -/

/-- The bridge has gone on, with the same tasks and with more futures at most. -/
structure Passed (b b' : Bridge Waiting) : Prop where
  tasks : b'.tasks = b.tasks
  size : b.futures.cells.size ≤ b'.futures.cells.size
  cells : ∀ f < b.futures.cells.size, b'.futures.get f = b.futures.get f

theorem Passed.refl (b : Bridge Waiting) : Passed b b := ⟨rfl, Nat.le_refl _, fun _ _ => rfl⟩

theorem Passed.trans {b b₁ b' : Bridge Waiting} (hfirst : Passed b b₁) (hrest : Passed b₁ b') :
    Passed b b' where
  tasks := hrest.tasks.trans hfirst.tasks
  size := Nat.le_trans hfirst.size hrest.size
  cells f hf := (hrest.cells f (Nat.lt_of_lt_of_le hf hfirst.size)).trans (hfirst.cells f hf)

section Results

variable (l : Library) (maxFrames fuel : Nat)

/-- The current frame, which has the number `id` and stands above `below`, comes to the end that a
direct evaluation gives; if that gives none, the run does not end within the same fuel. -/
def Simulates (m : Machine) (b : Bridge Waiting) (id : FrameId) (below : List Frame) :
    Option (Outcome × World) → Prop
  | none => (m.drain Bridge.host fuel b).1 = none
  | some (o, w) => ∃ n m' b', Proceeds n m b m' b' ∧ Stage l maxFrames m' b' ∧ Passed b b' ∧
      Shows m' b' id below (.ends o w)

/-- The native call that the frame `g` above `below` made on the bridge `b₀` comes to the result that
direct calls give; if they give none, the run does not end within the same fuel. -/
def Yields (b₀ : Bridge Waiting) (g : Frame) (below : List Frame) (m : Machine)
    (b : Bridge Waiting) : Option (DispatchResult × World) → Prop
  | none => (m.drain Bridge.host fuel b).1 = none
  | some (r, w) => ∃ n m' b', Proceeds n m b m' b' ∧ Stage l maxFrames m' b' ∧ Passed b₀ b' ∧
      m'.frames = g.receive r :: below ∧ World.of m' b' = w

end Results

section Later

variable {l : Library} {maxFrames fuel fuel' n : Nat} {m m' : Machine} {b b' : Bridge Waiting}

theorem Simulates.before {id : FrameId} {below : List Frame} {r : Option (Outcome × World)}
    (h : Simulates l maxFrames fuel m' b' id below r) (hproceeds : Proceeds n m b m' b')
    (hpassed : Passed b b') (hle : fuel' ≤ n + fuel) :
    Simulates l maxFrames fuel' m b id below r := by
  match r with
  | none => exact hproceeds.drain_none h hle
  | some (o, w) =>
      obtain ⟨k, m₁, b₁, hrest, hstage, hafter, hshows⟩ := h
      exact ⟨n + k, m₁, b₁, hproceeds.trans hrest, hstage, hpassed.trans hafter, hshows⟩

theorem Yields.before {b₀ : Bridge Waiting} {g : Frame} {below : List Frame}
    {r : Option (DispatchResult × World)} (h : Yields l maxFrames fuel b₀ g below m' b' r)
    (hproceeds : Proceeds n m b m' b') (hle : fuel' ≤ n + fuel) :
    Yields l maxFrames fuel' b₀ g below m b r := by
  match r with
  | none => exact hproceeds.drain_none h hle
  | some (o, w) =>
      obtain ⟨k, m₁, b₁, hrest, hstage, hpassed, hframes, hworld⟩ := h
      exact ⟨n + k, m₁, b₁, hproceeds.trans hrest, hstage, hpassed, hframes, hworld⟩

end Later

/-! ### After a poll -/

/-- The task `y` of the routine that the frame `g` called on the bridge `b₀` waits in the state `s` for
the future `next` alone. -/
structure Suspends (b₀ b : Bridge Waiting) (g : Frame) (routine : String) (next : FutureId)
    (s : Waiting) (y : Task Waiting) : Prop where
  tasks : b.tasks = y :: b₀.tasks
  idle : y.activity = .idle s
  routine : y.routine = routine
  caller : y.caller = g.id
  outstanding : y.outstanding = 1
  waiting : (b.futures.get next).waiting = some (.resume y.id)
  created : next < b.futures.cells.size
  old : b₀.futures.cells.size ≤ next
  cells : ∀ f < b₀.futures.cells.size, b.futures.get f = b₀.futures.get f

theorem Suspends.passed {b₀ b b' : Bridge Waiting} {g : Frame} {routine : String} {next : FutureId}
    {s : Waiting} {y : Task Waiting} (h : Suspends b₀ b g routine next s y) (hpassed : Passed b b') :
    Suspends b₀ b' g routine next s y :=
  { h with
    tasks := hpassed.tasks.trans h.tasks
    waiting := (congrArg Cell.waiting (hpassed.cells next h.created)).trans h.waiting
    created := Nat.lt_of_lt_of_le h.created hpassed.size
    cells := fun f hf => (hpassed.cells f
      (Nat.lt_trans (Nat.lt_of_lt_of_le hf h.old) h.created)).trans (h.cells f hf) }

/-- How things stand after a poll of the routine that the frame `g` above `below` called on the bridge
`b₀`. The number `next` was that of the next future when the poll began. -/
inductive Turned (b₀ : Bridge Waiting) (g : Frame) (below : List Frame) (routine : String)
    (next : FutureId) (m : Machine) (b : Bridge Waiting) : Transcript Waiting → Prop where
  /-- The result has reached the frame. -/
  | ready {r : Except RoutineError DispatchResult} (hpassed : Passed b₀ b)
      (hframes : m.frames = g.receive (Bridge.deliverable routine r) :: below) :
      Turned b₀ g below routine next m b { answer := .ready r }
  /-- The routine waits for the procedure that was loaded onto the frame. -/
  | pending {p : Program} {s : Waiting} {y : Task Waiting}
      (hsuspends : Suspends b₀ b g routine next s y)
      (hframes : m.frames =
        m.limits.fresh (next + 2) (below.length + 1) p :: { g with blocked := true } :: below) :
      Turned b₀ g below routine next m b { programs := [p], answer := .pending s }

theorem receive_blocked (g : Frame) (blocked : Bool) (r : DispatchResult) :
    ({ g with blocked } : Frame).receive r = g.receive r := by
  cases r <;> rfl

/-- What a poll and the flush after it come to. -/
theorem turned_of_polled (b₀ : Bridge Waiting) {b : Bridge Waiting} {m : Machine} {g : Frame}
    {below : List Frame} {blocked : Bool} {x : Task Waiting} {tr : Transcript Waiting}
    {next : FutureId} (hsingle : Single tr) (hsize : b.futures.cells.size = next)
    (hold : b₀.futures.cells.size ≤ next)
    (hcells : ∀ f < b₀.futures.cells.size, b.futures.get f = b₀.futures.get f)
    (hcaller : x.caller = g.id) (houtstanding : x.outstanding = 0)
    (hframes : m.frames = { g with blocked } :: below)
    (hblocked : tr.result? x = none → blocked = true)
    (hnext : m.nextFrame = next + 2) (hlt : g.id < m.nextFrame)
    (hbelow : ∀ f ∈ below, f.id ≠ g.id) :
    Turned b₀ g below x.routine next
        ((m.loadAll tr.programs).answer x.caller (tr.result? x))
        (b.reacted [] x b₀.tasks tr m.nextFrame) tr ∧
      World.of ((m.loadAll tr.programs).answer x.caller (tr.result? x))
        (b.reacted [] x b₀.tasks tr m.nextFrame) = World.of m b := by
  have hfutures := b.futures_reacted [] x b₀.tasks tr m.nextFrame
  have htasks := b.tasks_reacted [] x b₀.tasks tr m.nextFrame
  have hnotes := b.notes_reacted [] x b₀.tasks tr m.nextFrame
  generalize b.reacted [] x b₀.tasks tr m.nextFrame = b' at hfutures htasks hnotes
  have hbelow' := map_answered_of_ne hbelow
  subst hsize
  rw [hcaller, Machine.loadAll_answer m tr.programs hlt]
  rcases hsingle with ⟨r, rfl⟩ | ⟨p, s, rfl⟩
  · have hresult : Transcript.result? ({ answer := .ready r } : Transcript Waiting) x =
        some (Bridge.deliverable x.routine r) := Transcript.result?_of_ready rfl x
    simp only [hresult, Transcript.remaining, List.length_nil, FutureStore.extend_zero,
      List.nil_append, Array.append_empty] at hfutures htasks hnotes
    refine ⟨.ready ⟨htasks, ?_, ?_⟩ ?_, ?_⟩
    · rw [hfutures]
      exact hold
    · rw [hfutures]
      exact hcells
    · simp only [hresult, hframes, Limits.freshAll, List.nil_append, List.map_cons, hbelow',
        Frame.answered, if_true, receive_blocked]
    · simp only [World.of, hnotes]
  · have hresult : Transcript.result? ({ programs := [p], answer := .pending s } :
        Transcript Waiting) x = none :=
      (Transcript.result?_of_pending rfl x).trans (if_neg (Nat.succ_ne_zero _))
    have hcreated : b.futures.cells.size < b'.futures.cells.size := by
      rw [hfutures, FutureStore.size_extend]
      exact Nat.lt_succ_self _
    simp only [hresult, Transcript.remaining, List.nil_append, List.length_singleton,
      Array.append_empty] at hfutures htasks hnotes
    refine ⟨.pending ⟨htasks, rfl, rfl, hcaller, ?_, ?_, hcreated, hold, ?_⟩ ?_, ?_⟩
    · simp only [Transcript.waiting, houtstanding, List.length_singleton]
    · rw [hfutures,
        FutureStore.get_extend_of_ge _ _ _ (Nat.le_refl _) (Nat.lt_succ_self _)]
      rfl
    · intro f hf
      rw [hfutures, FutureStore.get_extend_of_lt _ _ _ (Nat.lt_of_lt_of_le hf hold)]
      exact hcells f hf
    · obtain rfl := hblocked hresult
      simp only [hresult, hframes, Limits.freshAll, List.nil_append, List.map_cons, hbelow', hnext,
        List.length_cons, List.singleton_append, Frame.answered]
    · simp only [World.of, hnotes]

/-- The end of the procedure that a routine waits for resumes the routine, which is polled on the
procedure's outcome. -/
theorem turned_of_ends {l : Library} {maxFrames : Nat} {m : Machine} {b₀ b : Bridge Waiting}
    {g : Frame} {below : List Frame} {routine : String} {next : FutureId} {s : Waiting}
    {y : Task Waiting} {o : Outcome} {w : World} (hstage : Stage l maxFrames m b)
    (hshows : Shows m b (next + 2) ({ g with blocked := true } :: below) (.ends o w))
    (hsuspends : Suspends b₀ b g routine next s y) (hawaits : awaits s = some next) :
    ∃ m' b', m.step Bridge.host b = (.ok .proceed, m', b') ∧ Stage l maxFrames m' b' ∧
      World.of m' b' = w ∧ ∃ look t caller next', look next = some o ∧ look next' = none ∧
        Turned b₀ g below routine next' m' b'
          ((Builtin.poll s).transcript look l t caller next') := by
  cases hshows with
  | @ends f t m₁ hframes hframe hadvance =>
      obtain ⟨m', b', hstep, hadvanced, hreaction, hstage'⟩ := hstage.step hframes hadvance
      refine ⟨m', b', hstep, hstage', ?_⟩
      obtain ⟨-, hframes₁, hnext₁, hlogged₁, -⟩ := hadvanced.of_ended
      have hnumber : t.frame - 2 = next := by rw [hframe, Nat.add_sub_cancel]
      have hheard : b.futures.resumes y.id t.frame = true := by
        rw [FutureStore.resumes_iff, hnumber, hframe]
        exact ⟨Nat.le_add_left 2 next, hsuspends.waiting⟩
      obtain ⟨es, s', hidle, hcaller, hm', hb'⟩ := hreaction.of_heard hsuspends.tasks hheard
      obtain rfl := Activity.idle.inj (hsuspends.idle.symm.trans hidle)
      rw [hnumber, hstage.registry, hstage.library] at hm' hb'
      have hsize := b.futures.size_resolved next t.outcome
      have hresolved : (b.futures.resolved next t.outcome).outcome? next = some t.outcome := by
        rw [FutureStore.outcome?, FutureStore.get_resolved_self _ hsuspends.created]
      have hpending := (b.futures.resolved next t.outcome).outcome?_of_ge (Nat.le_of_eq hsize)
      have hsingle := single_poll (l := l) (t := y.id) (c := y.caller) s hpending
        (fun f hf => by
          obtain rfl := Option.some.inj (hawaits.symm.trans hf)
          rw [hresolved]
          exact Option.some_ne_none _)
      have hbelow : ∀ h ∈ below, h.id ≠ g.id := by
        intro h hh
        have hdescending := hstage.aligned.ledger.descending
        rw [hframes, List.map_cons, List.map_cons, List.pairwise_cons, List.pairwise_cons]
          at hdescending
        exact Nat.ne_of_lt (hdescending.2.1 h.id (List.mem_map_of_mem hh))
      have hold := Nat.le_trans hsuspends.old (Nat.le_of_lt hsuspends.created)
      have hcells : ∀ f < b₀.futures.cells.size,
          (b.futures.resolved next t.outcome).get f = b₀.futures.get f := by
        intro f hf
        rw [FutureStore.get_resolved_of_ne _ (Nat.ne_of_gt (Nat.lt_of_lt_of_le hf hsuspends.old))]
        exact hsuspends.cells f hf
      obtain ⟨hturned, hworld⟩ := turned_of_polled b₀
        (b := (b.closed t next es).record (.resumed y.caller y.routine))
        (x := { y with outstanding := y.outstanding - 1 }) hsingle hsize hold hcells
        hsuspends.caller (by rw [hsuspends.outstanding]) hframes₁ (fun _ => rfl)
        (hnext₁.trans hstage.aligned.next) (hsuspends.caller ▸ hcaller) hbelow
      subst hm' hb'
      refine ⟨hworld.trans ?_, _, y.id, y.caller, _, hresolved, hpending, ?_⟩
      · rw [World.of, World.of, hlogged₁]
        rfl
      · rw [← hsuspends.routine]
        exact hturned

section Calls

variable {l : Library} {maxFrames : Nat} {m : Machine} {b : Bridge Waiting} {f g : Frame}
  {below : List Frame} {native : RoutineId} (hstage : Stage l maxFrames m b)
  (hframes : m.frames = f :: below)
  (hadvance : @Machine.advance HookError m =
    (.ok (.call native g.id), { m with steps := m.steps + 1, frames := g :: below }))

include hstage hframes hadvance

/-- A native call that is over at once brings its result to the frame. -/
theorem received_of_calls {result : DispatchResult} {notes : List Note} {spent : Nat}
    {rest : List Value}
    (hintake : Builtin.registry.intake native g.stack = (.settled result notes spent, rest)) :
    ∃ m' b', m.step Bridge.host b = (.ok .proceed, m', b') ∧ Stage l maxFrames m' b' ∧
      Passed b b' ∧ m'.frames = ({ g with stack := rest } : Frame).receive result :: below ∧
      World.of m' b' = (World.of m b).note notes := by
  obtain ⟨m', b', hstep, -, hreaction, hstage'⟩ := hstage.step hframes hadvance
  have hanswer := hreaction.of_call rfl
  rw [hstage.registry, hintake] at hanswer
  obtain ⟨rfl, rfl⟩ := hanswer
  refine ⟨_, _, hstep, hstage', ⟨rfl, Nat.le_refl _, fun _ _ => rfl⟩, rfl, ?_⟩
  rw [World.of, World.of, World.note, ← printed_append]
  rfl

/-- A native call that starts a routine polls it. -/
theorem turned_of_calls {routine : String} {s : Waiting} {rest : List Value}
    (hintake : Builtin.registry.intake native g.stack = (.begun routine s, rest)) :
    ∃ m' b', m.step Bridge.host b = (.ok .proceed, m', b') ∧ Stage l maxFrames m' b' ∧
      World.of m' b' = World.of m b ∧ ∃ look t caller next, look next = none ∧
        Turned b { g with stack := rest } below routine next m' b'
          ((Builtin.poll s).transcript look l t caller next) := by
  obtain ⟨m', b', hstep, hadvanced, hreaction, hstage'⟩ := hstage.step hframes hadvance
  have hanswer := hreaction.of_call rfl
  rw [hstage.registry, hstage.library, hintake] at hanswer
  obtain ⟨hlt, rfl, rfl⟩ := hanswer
  refine ⟨_, _, hstep, hstage', ?_⟩
  have hlook := b.futures.outcome?_of_ge (Nat.le_refl _)
  have hsingle := single_poll (l := l) (t := b.nextTask) (c := g.id) s hlook
    (fun f hf => by
      rw [awaits_of_begun hintake] at hf
      cases hf)
  have hbelow : ∀ h ∈ below, h.id ≠ g.id := by
    rw [hadvanced.caller_eq]
    exact hstage.aligned.ne_top hframes
  obtain ⟨hturned, hworld⟩ := turned_of_polled b
    (b := { b with
      registry := Builtin.registry
      library := l
      journal := b.journal.recordAll (Bridge.startEvents Builtin.registry native g.id)
      nextTask := b.nextTask + 1 })
    (m := { m with
      steps := m.steps + 1
      frames := { g with stack := rest, blocked := _ } :: below })
    (g := { g with stack := rest })
    (x := { id := b.nextTask, caller := g.id, routine, activity := .idle s }) hsingle rfl
    (Nat.le_refl _) (fun _ _ => rfl) rfl rfl rfl Option.isNone_iff_eq_none.2 hstage.aligned.next
    hlt hbelow
  exact ⟨hworld, _, b.nextTask, g.id, _, hlook, hturned⟩

end Calls

/-! ### The built-in routines -/

theorem Turned.yields {l : Library} {maxFrames fuel : Nat} {b₀ b : Bridge Waiting} {g : Frame}
    {below : List Frame} {routine : String} {next : FutureId} {m : Machine} {w : World}
    {r : Except RoutineError DispatchResult}
    (h : Turned b₀ g below routine next m b { answer := .ready r })
    (hstage : Stage l maxFrames m b) (hworld : World.of m b = w) :
    Yields l maxFrames fuel b₀ g below m b (some (Bridge.deliverable routine r, w)) := by
  cases h with
  | ready hpassed hframes => exact ⟨0, m, b, .here, hstage, hpassed, hframes, hworld⟩

section Routines

variable {l : Library} {maxFrames fuel : Nat} {run : Program → World → Option (Outcome × World)}
  {b₀ : Bridge Waiting} {g : Frame} {below : List Frame} {routine : String}
  (hrun : ∀ {m : Machine} {b : Bridge Waiting} {id : FrameId} {p : Program},
    Stage l maxFrames m b →
    m.frames = m.limits.fresh id (below.length + 1) p :: { g with blocked := true } :: below →
    Simulates l maxFrames fuel m b id ({ g with blocked := true } :: below) (run p (.of m b)))

include hrun

/-- A routine that asks for a procedure goes on when the procedure has come to the end that a direct
call comes to. -/
theorem yields_withProcedure {s : FutureId → Waiting} (hawaits : ∀ f, awaits (s f) = some f)
    {name : String} {k : Outcome → World → Option (DispatchResult × World)}
    {look : FutureId → Option Outcome} {t : TaskId} {caller : FrameId} {next : FutureId}
    {m : Machine} {b : Bridge Waiting} (hlook : look next = none) (hstage : Stage l maxFrames m b)
    (hturned : Turned b₀ g below routine next m b
      ((Builtin.ask name fun f => Builtin.poll (s f)).transcript look l t caller next))
    (hk : ∀ o w look t caller next' m b, look next = some o → look next' = none →
      Stage l maxFrames m b → World.of m b = w →
      Turned b₀ g below routine next' m b
        ((Builtin.poll (s next)).transcript look l t caller next') →
      Yields l maxFrames fuel b₀ g below m b (k o w)) :
    Yields l maxFrames fuel b₀ g below m b (withProcedure l run name (.of m b) k) := by
  rw [transcript_ask hawaits hlook] at hturned
  rw [withProcedure]
  cases hget : l.get? name with
  | none =>
      rw [hget] at hturned
      exact hturned.yields hstage rfl
  | some p =>
      rw [hget] at hturned
      dsimp only at hturned ⊢
      cases hturned with
      | pending hsuspends hframes =>
          have hsimulates := hrun hstage hframes
          cases hresult : run p (.of m b) with
          | none =>
              rw [hresult] at hsimulates
              exact hsimulates
          | some result =>
              rw [hresult] at hsimulates
              obtain ⟨n, m₁, b₁, hproceeds, hstage₁, hpassed, hshows⟩ := hsimulates
              obtain ⟨m', b', hstep, hstage', hworld, look', t', caller', next', ho, hnext,
                hturned'⟩ := turned_of_ends hstage₁ hshows (hsuspends.passed hpassed) (hawaits next)
              exact (hk _ _ look' t' caller' next' m' b' ho hnext hstage' hworld hturned').before
                (hproceeds.trans (.one hstep)) (by omega)

/-- A built-in that starts comes to the result that it comes to with direct calls. -/
theorem yields_perform {s : Waiting} {c : Call} (hstarts : starting s = some c)
    (hreport : s = .sumThenReport → routine = "sum_then_report") {look : FutureId → Option Outcome}
    {t : TaskId} {caller : FrameId} {next : FutureId} {m : Machine} {b : Bridge Waiting} (hlook : look next = none) (hstage : Stage l maxFrames m b)
    (hturned : Turned b₀ g below routine next m b
      ((Builtin.poll s).transcript look l t caller next)) :
    Yields l maxFrames fuel b₀ g below m b (perform l run (.of m b) c) := by
  cases s with
  | invoke name =>
      cases hstarts
      refine yields_withProcedure hrun (s := .invoked) (fun _ => rfl) hlook hstage hturned ?_
      intro o w look t caller next' m b ho hnext hstage hworld hturned
      rw [Builtin.poll, Builtin.finishInvoke, transcript_receive _ _ _ ho] at hturned
      rcases o with (_ | v) | fault <;> exact hturned.yields hstage hworld
  | tryInvoke name =>
      cases hstarts
      refine yields_withProcedure hrun (s := .tried) (fun _ => rfl) hlook hstage hturned ?_
      intro o w look t caller next' m b ho hnext hstage hworld hturned
      rw [transcript_tried _ ho] at hturned
      rcases o with (_ | v) | fault <;> exact hturned.yields hstage hworld
  | sumThenReport =>
      cases hstarts
      obtain rfl := hreport rfl
      refine yields_withProcedure hrun (s := .answered) (fun _ => rfl) hlook hstage hturned ?_
      intro o w look t caller next' m b ho hnext hstage hworld hturned
      rw [transcript_answered _ ho] at hturned
      cases o with
      | faulted fault => exact hturned.yields hstage hworld
      | returned v =>
          dsimp only
          rw [tenLess_eq]
          exact hturned.yields hstage hworld
  | callBoth =>
      cases hstarts
      refine yields_withProcedure hrun (s := .calledFirst) (fun _ => rfl) hlook hstage hturned ?_
      intro o w look t caller next' m b ho hnext hstage hworld hturned
      rw [Builtin.poll, Builtin.finishFirst, transcript_receive _ _ _ ho] at hturned
      cases o with
      | faulted fault => exact hturned.yields hstage hworld
      | returned v =>
          subst hworld
          refine yields_withProcedure hrun (s := .calledSecond) (fun _ => rfl) hnext hstage hturned
            ?_
          intro o w look t caller next' m b ho hnext hstage hworld hturned
          rw [Builtin.poll, Builtin.finishSecond, transcript_receive _ _ _ ho] at hturned
          cases o <;> exact hturned.yields hstage hworld
  | invoked f => cases hstarts
  | tried f => cases hstarts
  | answered f => cases hstarts
  | calledFirst f => cases hstarts
  | calledSecond f => cases hstarts

end Routines

/-! ### Evaluations -/

theorem Shows.simulates {l : Library} {maxFrames fuel : Nat} {m : Machine} {b : Bridge Waiting}
    {id : FrameId} {below : List Frame} {o : Outcome} {w : World}
    (h : Shows m b id below (.ends o w)) (hstage : Stage l maxFrames m b) :
    Simulates l maxFrames fuel m b id below (some (o, w)) :=
  ⟨0, m, b, .here, hstage, .refl b, h⟩

section Fuel

variable {l : Library} {maxFrames fuel : Nat}
  (ih : ∀ {m : Machine} {b : Bridge Waiting} {id : FrameId} {below : List Frame} {move : Move},
    Stage l maxFrames m b → Shows m b id below move →
    Simulates l maxFrames fuel m b id below (evaluate l maxFrames fuel below.length move))

include ih

/-- Once the result of its native call has reached the frame, the frame goes on. -/
theorem resume_simulates {n : Nat} {m m' : Machine} {b b' : Bridge Waiting} {g : Frame}
    {below : List Frame} {result : DispatchResult} (hproceeds : Proceeds (n + 1) m b m' b')
    (hstage : Stage l maxFrames m' b') (hpassed : Passed b b')
    (hframes : m'.frames = g.receive result :: below) (hpending : g.pendingFault = none) :
    Simulates l maxFrames (fuel + 1) m b g.id below
      (evaluate l maxFrames fuel below.length (resume g.bare (.of m' b') result)) := by
  have hnext := shows_resume (b := b') hframes hstage.maxSteps hpending
  exact (ih hstage hnext).before hproceeds hpassed (by omega)

/-- A procedure that was loaded onto the frame `g` comes to the end of a direct call. -/
theorem procedure_simulates {m : Machine} {b : Bridge Waiting} {g : Frame} {below : List Frame}
    {id : FrameId} {p : Program} (hstage : Stage l maxFrames m b)
    (hframes : m.frames = m.limits.fresh id (below.length + 1) p :: g :: below) :
    Simulates l maxFrames fuel m b id (g :: below)
      (evaluate l maxFrames fuel (below.length + 1)
        (enter maxFrames (below.length + 1) p (.of m b))) := by
  have hshows := shows_enter b (g :: below) hframes hstage.maxSteps
  rw [hstage.maxFrames_eq] at hshows
  exact ih hstage hshows

/-- A native call, whatever it comes to. -/
theorem calls_simulates {m : Machine} {b : Bridge Waiting} {f g : Frame} {below : List Frame}
    {id : RoutineId} (hstage : Stage l maxFrames m b) (hframes : m.frames = f :: below)
    (hpending : g.pendingFault = none)
    (hadvance : @Machine.advance HookError m =
      (.ok (.call id g.id), { m with steps := m.steps + 1, frames := g :: below })) :
    Simulates l maxFrames (fuel + 1) m b g.id below
      (evaluate l maxFrames (fuel + 1) below.length (.calls id g.bare (.of m b))) := by
  rw [evaluate]
  cases hintake : Builtin.registry.intake id g.bare.stack with
  | mk intake rest =>
      cases intake with
      | settled result notes spent =>
          obtain ⟨m', b', hstep, hstage', hpassed, hframes', hworld⟩ :=
            received_of_calls hstage hframes hadvance hintake
          rw [native_of_settled _ _ _ hintake]
          dsimp only
          rw [← hworld]
          exact resume_simulates ih (g := { g with stack := rest }) (.one hstep) hstage' hpassed
            hframes' hpending
      | begun routine s =>
          obtain ⟨m', b', hstep, hstage', hworld, look, t, caller, next, hlook, hturned⟩ :=
            turned_of_calls hstage hframes hadvance hintake
          let run := fun p w => evaluate l maxFrames fuel (below.length + 1)
            (enter maxFrames (below.length + 1) p w)
          obtain ⟨c, hstarts, hreport, hnative⟩ :=
            native_of_begun l run (.of m b) hintake
          have hyields : Yields l maxFrames fuel b { g with stack := rest } below m' b'
              (perform l run (.of m' b') c) :=
            yields_perform (procedure_simulates ih) hstarts hreport hlook hstage' hturned
          rw [hworld] at hyields
          rw [hnative]
          cases hresult : perform l run (.of m b) c with
          | none =>
              rw [hresult] at hyields
              exact (Proceeds.one hstep).drain_none hyields (by omega)
          | some result =>
              rw [hresult] at hyields
              obtain ⟨n, m₂, b₂, hproceeds, hstage₂, hpassed, hframes₂, hworld₂⟩ := hyields
              dsimp only
              rw [← hworld₂]
              exact resume_simulates ih (g := { g with stack := rest }) (.step hstep hproceeds)
                hstage₂ hpassed hframes₂ hpending

end Fuel

/-- The current frame comes to the end that a direct evaluation of its next move comes to. -/
theorem evaluate_simulates {l : Library} {maxFrames : Nat} (fuel : Nat) {m : Machine}
    {b : Bridge Waiting} {id : FrameId} {below : List Frame} {move : Move}
    (hstage : Stage l maxFrames m b) (hshows : Shows m b id below move) :
    Simulates l maxFrames fuel m b id below (evaluate l maxFrames fuel below.length move) := by
  induction fuel generalizing m b id below move with
  | zero =>
      cases move with
      | ends o w => exact hshows.simulates hstage
      | proceeds f w => rfl
      | calls routine f w => rfl
  | succ fuel ih =>
      cases hshows with
      | ends hframes hframe hadvance =>
          exact Shows.simulates (.ends hframes hframe hadvance) hstage
      | @proceeds f g logged hframes hid hpending hadvance =>
          obtain ⟨m', b', hstep, -, hreaction, hstage'⟩ := hstage.step hframes hadvance
          cases hreaction
          have hnext := shows_move (f := g) (b := b) rfl (hstage'.aligned.unblocked_top rfl)
            hstage'.maxSteps hpending
          rw [hid] at hnext
          exact (ih hstage' hnext).before (.one hstep) (.refl b) (by omega)
      | calls hframes hid hpending hadvance =>
          subst hid
          exact calls_simulates ih hstage hframes hpending hadvance

end Direct

end Reentrant
