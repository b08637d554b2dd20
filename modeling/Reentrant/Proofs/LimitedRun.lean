import Reentrant.Proofs.InvocationOutcome

/-!
Limits only cut a run off. The step limit is looked at before a step and nowhere else, and the frame
limit only where a frame is loaded; so a machine under other limits goes through the same states as
long as it may take the step and loads its frames alike. Neither the machine's own part of a step nor
the bridge passes the limits on in any other way.
-/

namespace Reentrant

variable {σ : Type}

/-! ### The same machine under other limits -/

namespace Machine

def under (m : Machine) (l : Limits) : Machine := { m with limits := l }

/-- What a step or a part of it comes to, with the machine under other limits. -/
def relimit {α β : Type} (l : Limits) (r : α × Machine × β) : α × Machine × β :=
  (r.1, r.2.1.under l, r.2.2)

/-- The next `n` frames would be loaded alike, none of them faulted unless the frame limits agree. -/
def LoadsAlike (m : Machine) (l : Limits) (n : Nat) : Prop :=
  l.maxFrames = m.limits.maxFrames ∨
    ∀ k < n, m.depth + k < l.maxFrames ∧ m.depth + k < m.limits.maxFrames

/-- Both limits allow the next step, or they have the same step limit. -/
def AllowsAlike (m : Machine) (l : Limits) : Prop :=
  l.maxSteps = m.limits.maxSteps ∨
    (∀ limit, l.maxSteps = some limit → m.steps < limit) ∧
      ∀ limit, m.limits.maxSteps = some limit → m.steps < limit

variable {m : Machine} {l : Limits} {n : Nat}

theorem load_under (h : m.LoadsAlike l (n + 1)) (p : Program) :
    (m.under l).load p = ((m.load p).1, (m.load p).2.under l) ∧ (m.load p).2.LoadsAlike l n := by
  have hfresh : l.fresh m.nextFrame m.frames.length p =
      m.limits.fresh m.nextFrame m.frames.length p := by
    rcases h with h | h
    · simp only [Limits.fresh, h]
    · have hroom := h 0 (Nat.succ_pos n)
      simp only [depth] at hroom
      rw [Limits.fresh, Limits.fresh, if_neg (by omega), if_neg (by omega)]
  constructor
  · rw [load_eq, load_eq]
    simp only [under, hfresh]
  · rw [load_eq]
    refine h.imp_right fun h k hk => ?_
    have hroom := h (k + 1) (Nat.succ_lt_succ hk)
    simp only [depth, List.length_cons] at hroom ⊢
    omega

theorem LoadsAlike.of_depth (h : m.LoadsAlike l n) {m' : Machine} (hdepth : m'.depth = m.depth)
    (hlimits : m'.limits = m.limits) : m'.LoadsAlike l n := by
  rw [LoadsAlike, hdepth, hlimits]
  exact h

theorem modifyFrame_under (m : Machine) (l : Limits) (id : FrameId) (change : Frame → Frame) :
    (m.under l).modifyFrame id change = (m.modifyFrame id change).map (·.under l) := by
  have hhas : (m.under l).hasFrame id = m.hasFrame id := rfl
  rw [modifyFrame, modifyFrame, hhas]
  by_cases h : m.hasFrame id = true
  · rw [if_pos h, if_pos h]
    rfl
  · rw [if_neg h, if_neg h]
    rfl

theorem pop_under (m : Machine) (l : Limits) :
    (m.under l).pop = (m.pop.1, m.pop.2.under l) := by
  have hframes : (m.under l).frames = m.frames := rfl
  rw [pop, pop, hframes]
  cases m.frames with
  | nil => rfl
  | cons f below =>
      cases h : f.stack with
      | nil => simp only [h]
      | cons v rest =>
          simp only [h]
          rfl

/-! ### The machine's own part of a step -/

theorem finish_under (m : Machine) (l : Limits) (fault : Option Fault) :
    (m.under l).finish fault = ((m.finish fault).1, (m.finish fault).2.under l) := by
  have hframes : (m.under l).frames = m.frames := rfl
  rw [finish, finish, hframes]
  cases m.frames <;> rfl

theorem unwind_under (m : Machine) (l : Limits) (fault : Fault) :
    (m.under l).unwind fault = ((m.unwind fault).1, (m.unwind fault).2.under l) := by
  have hframes : (m.under l).frames = m.frames := rfl
  rw [unwind, unwind, hframes]
  cases m.frames with
  | nil => rfl
  | cons f below =>
      cases h : f.handler with
      | none =>
          simp only [h]
          exact finish_under m l _
      | some target =>
          simp only [h]
          rfl

theorem advanceFrame_under (m : Machine) (l : Limits) (f : Frame) (below : List Frame) :
    (m.under l).advanceFrame f below =
      ((m.advanceFrame f below).1, (m.advanceFrame f below).2.under l) := by
  rw [advanceFrame, advanceFrame]
  cases f.pendingFault with
  | some fault => exact unwind_under { m with frames := _ :: below } l fault
  | none =>
      cases f.program.code[f.ip]? with
      | none => exact finish_under m l none
      | some op =>
          dsimp only
          generalize Frame.execute { f with ip := f.ip + 1, pendingFault := none } op = executed
          obtain ⟨g, fault | (_ | _ | id | v)⟩ := executed
          · exact unwind_under { m with frames := g :: below } l fault
          · rfl
          · exact finish_under { m with frames := g :: below } l none
          · rfl
          · rfl

theorem advance_under {ε : Type} {m : Machine} {l : Limits} (h : m.AllowsAlike l) :
    @advance ε (m.under l) = ((@advance ε m).1, (@advance ε m).2.under l) := by
  have hgo : ∀ f below, @advance.go ε (m.under l) f below =
      ((@advance.go ε m f below).1, (@advance.go ε m f below).2.under l) := by
    intro f below
    have hframe : ({ m.under l with steps := m.steps + 1 } : Machine).advanceFrame f below = _ :=
      advanceFrame_under { m with steps := m.steps + 1 } l f below
    simp only [advance.go]
    exact congrArg (fun r : Signal × Machine => (Except.ok r.1, r.2)) hframe
  have hunder : (m.under l).frames = m.frames := rfl
  rw [advance, advance, hunder]
  cases hframes : m.frames with
  | nil => rfl
  | cons f below =>
      dsimp only
      cases hblocked : f.blocked with
      | true => rfl
      | false =>
          simp only [Bool.false_eq_true, if_false]
          have hown : (m.under l).limits.maxSteps = l.maxSteps := rfl
          have hsteps : (m.under l).steps = m.steps := rfl
          rw [hown, hsteps]
          rcases h with h | ⟨hl, hm⟩
          · rw [h]
            cases m.limits.maxSteps with
            | none => exact hgo f below
            | some limit =>
                by_cases hlimit : limit ≤ m.steps
                · simp only [if_pos hlimit]
                · simp only [if_neg hlimit]
                  exact hgo f below
          · have hown' := fun limit h => Nat.not_le.2 (hl limit h)
            have hm' := fun limit h => Nat.not_le.2 (hm limit h)
            cases hlmax : l.maxSteps <;> cases hmmax : m.limits.maxSteps <;>
              simp only [hlmax, hmmax, Option.some.injEq, forall_eq'] at hown' hm' <;>
              simp only [hown', hm', if_false] <;> exact hgo f below

end Machine

/-! ### The bridge's part -/

namespace Bridge

open Machine (relimit)

variable {m : Machine} {l : Limits}

theorem loadAll_under {is : List Invocation} (h : m.LoadsAlike l is.length) (b : Bridge σ) :
    loadAll is (m.under l) b = relimit l (loadAll is m b) := by
  induction is generalizing m b with
  | nil => rfl
  | cons i rest ih =>
      obtain ⟨hload, halike⟩ := Machine.load_under h i.program
      simp only [loadAll, hload]
      cases PendingTable.insert _ _ _ with
      | error e => rfl
      | ok table => exact ih halike _

theorem deliver_under (c : Completion) (m : Machine) (l : Limits) :
    deliver c (m.under l) = (deliver c m).map (·.under l) := by
  have hunblock := m.modifyFrame_under l c.caller fun f => { f with blocked := false }
  rw [deliver, deliver, Machine.unblock, Machine.unblock, hunblock]
  cases m.modifyFrame c.caller _ with
  | error e => rfl
  | ok m =>
      cases c.result with
      | void => rfl
      | value v => exact m.modifyFrame_under l c.caller _
      | fault f => exact m.modifyFrame_under l c.caller _

theorem deliverAll_under (cs : List Completion) (m : Machine) (l : Limits) :
    deliverAll cs (m.under l) = ((deliverAll cs m).1, (deliverAll cs m).2.under l) := by
  induction cs generalizing m with
  | nil => rfl
  | cons c rest ih =>
      simp only [deliverAll, deliver_under]
      cases deliver c m with
      | error e => rfl
      | ok m => exact ih m

theorem flush_under {b : Bridge σ} (h : m.LoadsAlike l b.outbox.length) :
    flush (m.under l) b = relimit l (flush m b) := by
  simp only [flush]
  cases b.fatal with
  | some e => rfl
  | none =>
      simp only [loadAll_under h]
      generalize loadAll b.outbox m _ = loaded
      obtain ⟨e | ⟨⟩, m', b'⟩ := loaded
      · rfl
      · simp only [relimit, deliverAll_under]

theorem popArguments_under (m : Machine) (n : Nat) (l : Limits) :
    popArguments (m.under l) n = ((popArguments m n).1, (popArguments m n).2.under l) := by
  have hgo : ∀ n taken (m : Machine), popArguments.go n taken (m.under l) =
      ((popArguments.go n taken m).1, (popArguments.go n taken m).2.under l) := by
    intro n
    induction n with
    | zero => exact fun taken m => rfl
    | succ n ih =>
        intro taken m
        simp only [popArguments.go, Machine.pop_under]
        rcases m.pop with ⟨_ | v, m'⟩
        · rfl
        · exact ih (v :: taken) m'
  exact hgo n [] m

theorem call_under (id : RoutineId) (caller : FrameId) (m : Machine) (b : Bridge σ) (l : Limits) :
    call id caller (m.under l) b = relimit l (call id caller m b) := by
  simp only [call]
  cases b.registry.get? id with
  | none => rfl
  | some r =>
      simp only [popArguments_under]
      rcases popArguments m r.arity with ⟨found | args, m'⟩ <;> rfl

/-- Popping operands touches no limit and no number of frames. -/
theorem popArguments_keeps (m : Machine) (n : Nat) :
    (popArguments m n).2.depth = m.depth ∧ (popArguments m n).2.limits = m.limits := by
  have hpop : ∀ m : Machine, m.pop.2.depth = m.depth ∧ m.pop.2.limits = m.limits := by
    intro m
    rw [Machine.pop, Machine.depth, Machine.depth]
    cases hframes : m.frames with
    | nil => simp [hframes]
    | cons f below => cases hstack : f.stack <;> simp [hframes, hstack]
  have hgo : ∀ n taken (m : Machine), (popArguments.go n taken m).2.depth = m.depth ∧
      (popArguments.go n taken m).2.limits = m.limits := by
    intro n
    induction n with
    | zero => exact fun taken m => ⟨rfl, rfl⟩
    | succ n ih =>
        intro taken m
        have hkeeps := hpop m
        simp only [popArguments.go]
        generalize m.pop = popped at hkeeps ⊢
        obtain ⟨_ | v, m'⟩ := popped
        · exact hkeeps
        · have hrest := ih (v :: taken) m'
          exact ⟨hrest.1.trans hkeeps.1, hrest.2.trans hkeeps.2⟩
  exact hgo n [] m

theorem call_keeps (id : RoutineId) (caller : FrameId) (m : Machine) (b : Bridge σ) :
    (call id caller m b).2.1.depth = m.depth ∧ (call id caller m b).2.1.limits = m.limits := by
  simp only [call]
  cases b.registry.get? id with
  | none => exact ⟨rfl, rfl⟩
  | some r =>
      have hkeeps := popArguments_keeps m r.arity
      dsimp only
      generalize popArguments m r.arity = popped at hkeeps ⊢
      obtain ⟨found | args, m'⟩ := popped <;> exact hkeeps

/-- The host's answer to a native call, as long as it loads its frames alike. -/
theorem dispatch_under {id : RoutineId} {caller : FrameId} {b : Bridge σ}
    (h : m.LoadsAlike l (queued (.call id caller) m b).length) :
    dispatch id caller (m.under l) b = relimit l (dispatch id caller m b) := by
  have hkeeps := call_keeps id caller m b
  rw [queued] at h
  rw [dispatch, dispatch, call_under]
  generalize call id caller m b = called at h hkeeps ⊢
  obtain ⟨e | waits, m', b'⟩ := called
  · have halike : m'.LoadsAlike l (b'.finish caller (b'.routineName id)
        (.fault e.toFault)).outbox.length := h.of_depth hkeeps.1 hkeeps.2
    exact flush_under halike
  · cases waits with
    | false => exact flush_under (h.of_depth hkeeps.1 hkeeps.2)
    | true =>
        have hblock : (m'.under l).block caller = _ := m'.modifyFrame_under l caller _
        simp only [relimit, hblock]
        rw [Machine.block, Machine.modifyFrame]
        by_cases hhas : m'.hasFrame caller = true
        · simp only [hhas, if_true, Except.map]
          apply flush_under
          refine h.of_depth ?_ hkeeps.2
          rw [← hkeeps.1, Machine.depth, Machine.depth, List.length_map]
        · simp only [hhas, Bool.false_eq_true, if_false, Except.map]

/-- The host's answer to the end of a frame. -/
theorem complete_under {t : Teardown} {b : Bridge σ}
    (h : m.LoadsAlike l (queued (.ended t) m b).length) :
    complete t (m.under l) b = relimit l (complete t m b) := by
  simp only [queued, settled] at h
  simp only [complete]
  generalize (b.record (.frameTornDown t.frame t.faulted)).table.remove t.frame = found at h ⊢
  obtain ⟨_ | f, table⟩ := found
  · exact flush_under h
  · dsimp only at h ⊢
    generalize settle _ _ _ _ = resolved at h ⊢
    obtain ⟨_ | e, b'⟩ := resolved
    · exact flush_under h
    · exact flush_under (b := b'.fail (.future e)) h

end Bridge

/-! ### Steps and runs -/

namespace Machine

variable {m : Machine} {l : Limits} {b : Bridge σ}

/-- A step that is allowed alike and loads its frames alike is the same step. -/
theorem step_under (hallows : m.AllowsAlike l)
    (hloads : ∀ s m₁, @advance HookError m = (.ok s, m₁) →
      m₁.LoadsAlike l (Bridge.queued s m₁ b).length) :
    (m.under l).step Bridge.host b = relimit l (m.step Bridge.host b) := by
  have hat : ∀ site (r : Except HookError Unit × Machine × Bridge σ),
      atSite site (relimit l r) = relimit l (atSite site r) := by
    rintro site ⟨_ | _, m', b'⟩ <;> rfl
  rw [step, step, advance_under hallows]
  generalize @advance HookError m = advanced at hloads ⊢
  obtain ⟨e | s, m₁⟩ := advanced
  · rfl
  · have halike := hloads s m₁ rfl
    cases s with
    | proceed => rfl
    | done => rfl
    | call id caller =>
        dsimp only
        rw [call, call, Bridge.host]
        dsimp only
        rw [Bridge.dispatch_under halike, hat]
    | ended t =>
        dsimp only
        rw [report, report, Bridge.host]
        dsimp only
        rw [Bridge.complete_under halike, hat]

/-- A refused step and a step that is taken both leave the limits. -/
theorem limits_of_advance {m m₁ : Machine} {s : Signal}
    (h : @advance HookError m = (.ok s, m₁)) : m₁.limits = m.limits := by
  cases hframes : m.frames with
  | nil =>
      rw [advance, hframes] at h
      cases h
      rfl
  | cons f below =>
      have hadvanced := advanceFrame_advanced m f below
      rw [← hframes, advanceFrame_of_advance hframes h] at hadvanced
      have hcases : m.Advanced f below s m₁ := hadvanced
      cases hcases <;> rfl

/-- At the step limit a step is refused, and nothing changes. -/
theorem advance_of_limit {f : Frame} {below : List Frame} (hframes : m.frames = f :: below)
    (hblocked : f.blocked = false) {limit : Nat} (hmax : m.limits.maxSteps = some limit)
    (hlimit : limit ≤ m.steps) : @advance HookError m = (.error (.stepLimit limit), m) := by
  rw [advance, hframes]
  simp only [hblocked, Bool.false_eq_true, if_false, hmax]
  exact if_pos hlimit

theorem steps_answer (m : Machine) (ps : List Program) (caller : FrameId)
    (r : Option DispatchResult) : ((m.loadAll ps).answer caller r).steps = m.steps := by
  rw [loadAll_eq]
  cases r <;> rfl

end Machine

/-- What the bridge does in a step is not counted. -/
theorem Bridge.Reaction.keeps_steps {s : Signal} {m m' : Machine} {b b' : Bridge σ}
    (h : Reaction s m b m' b') : m'.steps = m.steps := by
  cases h with
  | begun => exact Machine.steps_answer _ _ _ _
  | resumed => exact Machine.steps_answer _ _ _ _
  | untold => rfl
  | settled => rfl
  | left => rfl
  | unheard => rfl

namespace Launch

open Machine (relimit)

/-- The same launch under other limits. -/
def withLimits (c : Launch σ) (l : Limits) : Launch σ := { c with limits := l }

def withSteps (c : Launch σ) (maxSteps : Option Nat) : Launch σ :=
  c.withLimits { c.limits with maxSteps }

def withFrames (c : Launch σ) (maxFrames : Nat) : Launch σ :=
  c.withLimits { c.limits with maxFrames }

def run (c : Launch σ) (fuel : Nat) : Option (Except (Halt HookError) Outcome) × Machine × Bridge σ :=
  c.machine.run Bridge.host fuel c.bridge

/-- After `n` steps, and not before, no frame is left. -/
def Drains (c : Launch σ) (n : Nat) : Prop :=
  (c.after n).1.frames = [] ∧ ∀ k < n, (c.after k).1.frames ≠ []

/-- How many frames are there when the invocations issued in the step after `n` steps are about to be
loaded. -/
def standing (c : Launch σ) (n : Nat) : Nat := (@Machine.advance HookError (c.after n).1).2.depth

/-- No frame is ever loaded while as many frames are there as the frame limit says, or more. The entry
frame is loaded onto none, an invocation also onto those that were issued before it in the step. -/
structure NeverFull (c : Launch σ) : Prop where
  entry : 0 < c.limits.maxFrames
  invocations : ∀ n k, k < (c.issued n).length → c.standing n + k < c.limits.maxFrames

variable {c : Launch σ} {l : Limits}

/-! #### The same states -/

section Alike

/-- The entry frame is loaded alike. -/
def StartsAlike (c : Launch σ) (l : Limits) : Prop :=
  l.maxFrames = c.limits.maxFrames ∨ 0 < l.maxFrames ∧ 0 < c.limits.maxFrames

/-- The step after `n` steps is taken alike and loads its frames alike. -/
structure StepsAlike (c : Launch σ) (l : Limits) (n : Nat) : Prop where
  allows : (c.after n).1.AllowsAlike l
  loads : l.maxFrames = (c.after n).1.limits.maxFrames ∨ ∀ k, k < (c.issued n).length →
    c.standing n + k < l.maxFrames ∧ c.standing n + k < (c.after n).1.limits.maxFrames

theorem machine_withLimits (h : c.StartsAlike l) :
    (c.withLimits l).machine = c.machine.under l := by
  have hload := Machine.load_under (m := { limits := c.limits }) (l := l) (n := 0)
    (h.imp_right fun h k hk => by
      obtain rfl := Nat.lt_one_iff.1 hk
      exact h) c.program
  have hentry := congrArg (fun r : FrameId × Machine =>
    ({ r.2 with entry := some r.1, exit := none } : Machine)) hload.1
  exact hentry

theorem step_withLimits {n : Nat} (h : c.StepsAlike l n) :
    ((c.after n).1.under l).step Bridge.host (c.after n).2 =
      relimit l ((c.after n).1.step Bridge.host (c.after n).2) := by
  refine Machine.step_under h.allows fun s m₁ hadvance => ?_
  have hissued : c.issued n = Bridge.queued s m₁ (c.after n).2 := by
    rw [issued, hadvance]
  have hstanding : c.standing n = m₁.depth := by
    rw [standing, hadvance]
  have hloads := h.loads
  rw [hissued, hstanding, ← Machine.limits_of_advance hadvance] at hloads
  exact hloads

/-- As long as the steps are alike, so are the states. -/
theorem after_withLimits (hstart : c.StartsAlike l) {n : Nat} (h : ∀ k < n, c.StepsAlike l k) :
    (c.withLimits l).after n = ((c.after n).1.under l, (c.after n).2) := by
  induction n with
  | zero => exact Prod.ext (machine_withLimits hstart) rfl
  | succ n ih =>
      have hstep := step_withLimits (h n (Nat.lt_succ_self n))
      rw [after, ih fun k hk => h k (Nat.lt_succ_of_lt hk)]
      exact congrArg Prod.snd hstep

theorem result_withLimits (hstart : c.StartsAlike l) {n : Nat} (h : ∀ k ≤ n, c.StepsAlike l k) :
    (c.withLimits l).result n = c.result n := by
  have hstep := congrArg Prod.fst (step_withLimits (h n (Nat.le_refl n)))
  rw [result, after_withLimits hstart fun k hk => h k (Nat.le_of_lt hk)]
  exact hstep

end Alike

/-! #### Runs -/

theorem drain_succ (c : Launch σ) (fuel k : Nat) :
    (c.after k).1.drain Bridge.host (fuel + 1) (c.after k).2 =
      match c.result k with
      | .ok .proceed => (c.after (k + 1)).1.drain Bridge.host fuel (c.after (k + 1)).2
      | .ok .done => (some (.ok ()), c.after (k + 1))
      | .error e => (some (.error e), c.after (k + 1)) := by
  rw [Machine.drain, result, after]
  rcases (c.after k).1.step Bridge.host (c.after k).2 with ⟨_ | _ | _, m, b⟩ <;> rfl

/-- A run goes on from where its first steps have led. -/
theorem drain_of_proceeds {n : Nat} (h : ∀ k < n, c.result k = .ok .proceed) (fuel : Nat) :
    c.machine.drain Bridge.host (n + fuel) c.bridge =
      (c.after n).1.drain Bridge.host fuel (c.after n).2 := by
  induction n generalizing fuel with
  | zero =>
      rw [Nat.zero_add]
      rfl
  | succ n ih =>
      rw [Nat.add_right_comm, Nat.add_assoc, ih (fun k hk => h k (Nat.lt_succ_of_lt hk)), drain_succ,
        h n (Nat.lt_succ_self n)]

theorem drain_withLimits (hstart : c.StartsAlike l) (h : ∀ k, c.StepsAlike l k) (fuel k : Nat) :
    ((c.withLimits l).after k).1.drain Bridge.host fuel ((c.withLimits l).after k).2 =
      relimit l ((c.after k).1.drain Bridge.host fuel (c.after k).2) := by
  induction fuel generalizing k with
  | zero =>
      rw [after_withLimits hstart fun k _ => h k]
      rfl
  | succ fuel ih =>
      rw [drain_succ, drain_succ, result_withLimits hstart fun k _ => h k]
      rcases c.result k with e | _ | _
      · simp only [after_withLimits hstart fun k _ => h k, relimit]
      · exact ih (k + 1)
      · simp only [after_withLimits hstart fun k _ => h k, relimit]

theorem run_withLimits (hstart : c.StartsAlike l) (h : ∀ k, c.StepsAlike l k) (fuel : Nat) :
    (c.withLimits l).run fuel = relimit l (c.run fuel) := by
  have hdrain := drain_withLimits hstart h fuel 0
  simp only [after] at hdrain
  rw [run, run, Machine.run, Machine.run, hdrain]
  rcases c.machine.drain Bridge.host fuel c.bridge with ⟨_ | e | ⟨⟩, m, b⟩
  · rfl
  · rfl
  · have hexit : (m.under l).exit = m.exit := rfl
    simp only [relimit, hexit]
    cases m.exit <;> rfl

/-! #### Counted steps -/

section Kept

variable {keep : σ → Prop} (hkeep : c.registry.KeepsTo keep) (hmax : c.limits.maxSteps = none)

include hkeep hmax

/-- Without a step limit every step with a frame on the stack is taken and counted. -/
theorem counts {n : Nat} (hframes : (c.after n).1.frames ≠ []) :
    c.result n = .ok .proceed ∧ (c.after (n + 1)).1.steps = (c.after n).1.steps + 1 := by
  have hstepped := stepped_after hkeep n
  have hlimits := limits_after hkeep n
  generalize c.result n = r, (c.after (n + 1)).1 = m', (c.after (n + 1)).2 = b' at hstepped
  cases hstepped with
  | done hnil => exact absurd hnil hframes
  | refused hlimit hadvance =>
      rw [hlimits, hmax] at hlimit
      cases hlimit
  | counted hstack hadvanced hadvance hreaction =>
      refine ⟨rfl, ?_⟩
      rw [hreaction.keeps_steps]
      cases hadvanced <;> rfl

theorem steps_after {n : Nat} (hframes : ∀ k < n, (c.after k).1.frames ≠ []) :
    (c.after n).1.steps = n := by
  induction n with
  | zero => rfl
  | succ n ih =>
      rw [(counts hkeep hmax (hframes n (Nat.lt_succ_self n))).2,
        ih fun k hk => hframes k (Nat.lt_succ_of_lt hk)]

/-- A step limit that is not reached yet makes no difference. -/
theorem stepsAlike_withSteps {n limit : Nat} (hlimit : n < limit)
    (hframes : ∀ k < n, (c.after k).1.frames ≠ []) :
    c.StepsAlike { c.limits with maxSteps := some limit } n where
  allows := by
    rw [Machine.AllowsAlike, steps_after hkeep hmax hframes, limits_after hkeep, hmax]
    refine Or.inr ⟨fun limit' h => ?_, fun limit' h => ?_⟩
    · cases h
      exact hlimit
    · cases h
  loads := Or.inl (by rw [limits_after hkeep])

/-- Up to the limit, the run with a step limit is the run without. -/
theorem after_withSteps {n limit : Nat} (hlimit : n ≤ limit)
    (hframes : ∀ k < n, (c.after k).1.frames ≠ []) :
    (c.withSteps (some limit)).after n =
      ((c.after n).1.under { c.limits with maxSteps := some limit }, (c.after n).2) := by
  refine after_withLimits (l := { c.limits with maxSteps := some limit }) (Or.inl rfl) fun k hk => ?_
  apply stepsAlike_withSteps hkeep hmax (Nat.lt_of_lt_of_le hk hlimit)
  exact fun j hj => hframes j (Nat.lt_trans hj hk)

theorem result_withSteps {n limit : Nat} (hlimit : n < limit)
    (hframes : ∀ k ≤ n, (c.after k).1.frames ≠ []) :
    (c.withSteps (some limit)).result n = .ok .proceed := by
  have hsame : (c.withSteps (some limit)).result n = c.result n := by
    refine result_withLimits (l := { c.limits with maxSteps := some limit }) (Or.inl rfl)
      fun k hk => ?_
    apply stepsAlike_withSteps hkeep hmax (Nat.lt_of_le_of_lt hk hlimit)
    exact fun j hj => hframes j (Nat.le_trans (Nat.le_of_lt hj) hk)
  rw [hsame]
  exact (counts hkeep hmax (hframes n (Nat.le_refl n))).1

/-- A run that drains within its step limit ends as it does without. -/
theorem run_of_drains {n : Nat} (h : c.Drains n) :
    ∃ o, (∀ fuel, n < fuel → c.run fuel = (some (.ok o), c.after n)) ∧
      ∀ limit fuel, n ≤ limit → n < fuel →
        (c.withSteps (some limit)).run fuel = (some (.ok o), (c.withSteps (some limit)).after n) := by
  have haligned := aligned_after hkeep n
  obtain ⟨o, ho⟩ := Option.isSome_iff_exists.1 (haligned.exit.2 h.1)
  -- both runs go on for `n` steps and then find no frame
  have hends : ∀ c' : Launch σ, (∀ k < n, c'.result k = .ok .proceed) →
      (c'.after n).1.frames = [] → (c'.after n).1.exit = some o → ∀ fuel, n < fuel →
      c'.run fuel = (some (.ok o), c'.after n) := by
    intro c' hproceeds hnil hexit fuel hfuel
    obtain ⟨rest, rfl⟩ := Nat.exists_eq_add_of_lt hfuel
    have hstep : (c'.after n).1.step Bridge.host (c'.after n).2 =
        (.ok .done, (c'.after n).1, (c'.after n).2) := by
      rw [Machine.step, Machine.advance, hnil]
    have hdrain : c'.machine.drain Bridge.host (n + rest + 1) c'.bridge =
        (some (.ok ()), (c'.after n).1, (c'.after n).2) := by
      rw [Nat.add_assoc, drain_of_proceeds hproceeds, Machine.drain, hstep]
    rw [run, Machine.run, hdrain]
    simp only [hexit]
  refine ⟨o, hends c (fun k hk => (counts hkeep hmax (h.2 k hk)).1) h.1 ho, ?_⟩
  intro limit fuel hlimit
  have hafter := after_withSteps hkeep hmax hlimit h.2
  apply hends
  · intro k hk
    apply result_withSteps hkeep hmax (Nat.lt_of_lt_of_le hk hlimit)
    exact fun j hj => h.2 j (Nat.lt_of_le_of_lt hj hk)
  · rw [hafter]
    exact h.1
  · rw [hafter]
    exact ho

/-- At its step limit a run stands still. -/
theorem stands_at_limit {limit : Nat} (hframes : ∀ k ≤ limit, (c.after k).1.frames ≠ []) {k : Nat}
    (hk : limit ≤ k) :
    (c.withSteps (some limit)).after k = (c.withSteps (some limit)).after limit ∧
      (c.withSteps (some limit)).result k = .error (.stepLimit limit) := by
  have hafter := after_withSteps hkeep hmax (Nat.le_refl limit)
    fun j hj => hframes j (Nat.le_of_lt hj)
  have hsteps := steps_after hkeep hmax fun j (hj : j < limit) => hframes j (Nat.le_of_lt hj)
  have hstep : ((c.withSteps (some limit)).after limit).1.step Bridge.host
      ((c.withSteps (some limit)).after limit).2 =
        (.error (.stepLimit limit), (c.withSteps (some limit)).after limit) := by
    cases hstack : (c.after limit).1.frames with
    | nil => exact absurd hstack (hframes limit (Nat.le_refl limit))
    | cons f below =>
        have hblocked := (aligned_after hkeep limit).unblocked_top hstack
        have hadvance := Machine.advance_of_limit
          (m := (c.after limit).1.under { c.limits with maxSteps := some limit })
          hstack hblocked rfl (Nat.le_of_eq hsteps.symm)
        rw [hafter, Machine.step, hadvance]
  have hstill : (c.withSteps (some limit)).after k = (c.withSteps (some limit)).after limit := by
    induction hk with
    | refl => rfl
    | @step k _ ih =>
        rw [after, ih]
        exact congrArg Prod.snd hstep
  refine ⟨hstill, ?_⟩
  rw [result, hstill]
  exact congrArg Prod.fst hstep

theorem run_at_limit {limit : Nat} (hframes : ∀ k ≤ limit, (c.after k).1.frames ≠ []) {fuel : Nat}
    (hfuel : limit < fuel) :
    (c.withSteps (some limit)).run fuel =
      (some (.error (.stepLimit limit)), (c.withSteps (some limit)).after limit) := by
  obtain ⟨rest, rfl⟩ := Nat.exists_eq_add_of_lt hfuel
  have hproceeds : ∀ k < limit, (c.withSteps (some limit)).result k = .ok .proceed := by
    intro k hk
    apply result_withSteps hkeep hmax hk
    exact fun j hj => hframes j (Nat.le_of_lt (Nat.lt_of_le_of_lt hj hk))
  have hrefused := (stands_at_limit hkeep hmax hframes (Nat.le_refl limit)).2
  have hstill := (stands_at_limit hkeep hmax hframes (Nat.le_succ limit)).1
  rw [run, Machine.run, Nat.add_assoc, drain_of_proceeds hproceeds, drain_succ, hrefused]
  simp only [hstill]

end Kept

/-! #### Frames -/

/-- A frame limit that is never reached makes no difference where a greater one does not. -/
theorem NeverFull.stepsAlike (h : c.NeverFull) (hc : ∀ n, (c.after n).1.limits = c.limits)
    {maxFrames : Nat} (hle : c.limits.maxFrames ≤ maxFrames) (n : Nat) :
    c.StepsAlike { c.limits with maxFrames } n where
  allows := Or.inl (by rw [hc])
  loads := by
    refine Or.inr fun k hk => ?_
    have hroom := h.invocations n k hk
    rw [hc]
    exact ⟨Nat.lt_of_lt_of_le hroom hle, hroom⟩

/-- Once it has drained a run loads no frame. -/
theorem NeverFull.of_drains {n : Nat} (h : c.Drains n) (hentry : 0 < c.limits.maxFrames)
    (hroom : ∀ j < n, ∀ k < (c.issued j).length, c.standing j + k < c.limits.maxFrames) :
    c.NeverFull where
  entry := hentry
  invocations := by
    intro j k hk
    by_cases hj : j < n
    · exact hroom j hj k hk
    · have hnil : (c.after j).1.frames = [] := by
        clear hk
        induction Nat.le_of_not_lt hj with
        | refl => exact h.1
        | @step j hle ih =>
            have hframes := ih (Nat.not_lt.2 hle)
            rw [after, Machine.step, Machine.advance, hframes]
            exact hframes
      rw [issued, Machine.advance, hnil] at hk
      exact absurd hk (Nat.not_lt_zero k)

/-- Before `n` steps no frame is missing, if the run does not drain within them. -/
theorem frames_of_drains_later {n : Nat} (h : ∀ k, c.Drains k → n < k) :
    ∀ k ≤ n, (c.after k).1.frames ≠ [] := by
  intro k
  induction k using Nat.strongRecOn with
  | ind k ih =>
      intro hk hnil
      exact absurd (h k ⟨hnil, fun j hj => ih j hj (Nat.le_trans (Nat.le_of_lt hj) hk)⟩)
        (Nat.not_lt.2 hk)

/-- Limits only cut a run off. -/
theorem limits_cut_off (c : Launch σ) (hc : c.registry.WellBehaved) :
    (∀ n, (c.withSteps none).Drains n →
      ((c.withSteps none).after n).1.steps = n ∧
      ∃ o, (∀ fuel, n < fuel →
          (c.withSteps none).run fuel = (some (.ok o), (c.withSteps none).after n)) ∧
        ∀ limit fuel, n ≤ limit → n < fuel →
          (c.withSteps (some limit)).run fuel =
            (some (.ok o),
              ((c.withSteps none).after n).1.under { c.limits with maxSteps := some limit },
              ((c.withSteps none).after n).2)) ∧
    (∀ limit, (∀ n, (c.withSteps none).Drains n → limit < n) →
      (∀ fuel, limit < fuel →
        (c.withSteps (some limit)).run fuel =
          (some (.error (.stepLimit limit)),
            ((c.withSteps none).after limit).1.under { c.limits with maxSteps := some limit },
            ((c.withSteps none).after limit).2)) ∧
      ∀ k, limit ≤ k →
        (c.withSteps (some limit)).result k = .error (.stepLimit limit) ∧
        (c.withSteps (some limit)).after k =
          (((c.withSteps none).after limit).1.under { c.limits with maxSteps := some limit },
            ((c.withSteps none).after limit).2)) ∧
    (c.NeverFull → ∀ maxFrames, c.limits.maxFrames ≤ maxFrames →
      (∀ n, (c.withFrames maxFrames).after n =
          ((c.after n).1.under { c.limits with maxFrames }, (c.after n).2) ∧
        (c.withFrames maxFrames).result n = c.result n) ∧
      ∀ fuel, (c.withFrames maxFrames).run fuel =
        ((c.run fuel).1, (c.run fuel).2.1.under { c.limits with maxFrames }, (c.run fuel).2.2)) := by
  obtain ⟨keep, hkeep⟩ := hc
  have hfree : (c.withSteps none).registry.KeepsTo keep := hkeep
  refine ⟨fun n hdrains => ?_, fun limit hlonger => ?_, fun hnever maxFrames hle => ?_⟩
  · refine ⟨steps_after hfree rfl hdrains.2, ?_⟩
    obtain ⟨o, hunlimited, hlimited⟩ := run_of_drains hfree rfl hdrains
    refine ⟨o, hunlimited, fun limit fuel hlimit hfuel => ?_⟩
    have hafter := after_withSteps hfree rfl hlimit hdrains.2
    exact (hlimited limit fuel hlimit hfuel).trans (congrArg (Prod.mk _) hafter)
  · have hframes := frames_of_drains_later hlonger
    have hafter := after_withSteps hfree rfl (Nat.le_refl limit)
      fun k hk => hframes k (Nat.le_of_lt hk)
    constructor
    · intro fuel hfuel
      exact (run_at_limit hfree rfl hframes hfuel).trans (congrArg (Prod.mk _) hafter)
    · intro k hk
      have hstands := stands_at_limit hfree rfl hframes hk
      exact ⟨hstands.2, hstands.1.trans hafter⟩
  · have hstart : c.StartsAlike { c.limits with maxFrames } :=
      Or.inr ⟨Nat.lt_of_lt_of_le hnever.entry hle, hnever.entry⟩
    have halike := hnever.stepsAlike (limits_after hkeep) hle
    refine ⟨fun n => ⟨?_, ?_⟩, run_withLimits hstart halike⟩
    · exact after_withLimits hstart fun k _ => halike k
    · exact result_withLimits hstart fun k _ => halike k

theorem limits_cut_off_callBoth :
    (callBoth.Drains 5 ∧
      ((callBoth.withSteps (some 5)).run 6).1 = some (.ok (.returned none))) ∧
    ((callBoth.withSteps (some 3)).run 4).1 = some (.error (.stepLimit 3)) ∧
    (callBoth.NeverFull ∧ ((callBoth.withFrames 300).run 6).1 = (callBoth.run 6).1) := by
  obtain ⟨hends, hstops, hframes⟩ := callBoth.limits_cut_off Builtin.wellBehaved
  have hdrains : callBoth.Drains 5 := ⟨by rfl, by decide⟩
  have hnever : callBoth.NeverFull := .of_drains hdrains (by decide) (by decide)
  obtain ⟨-, o, hrun, hlimited⟩ := hends 5 hdrains
  have ho : some (Except.ok o) = some (Except.ok (.returned none)) :=
    (congrArg Prod.fst (hrun 6 (by decide))).symm.trans (by rfl)
  refine ⟨⟨hdrains, ?_⟩, ?_, hnever, ?_⟩
  · rw [hlimited 5 6 (by decide) (by decide)]
    exact ho
  · rw [(hstops 3 ?_).1 4 (by decide)]
    intro n hn
    apply Nat.lt_of_not_le
    intro hle
    exact hdrains.2 n (by omega) hn.1
  · rw [(hframes hnever 300 (by decide)).2 6]

end Launch

end Reentrant
