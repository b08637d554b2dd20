import Reentrant.Proofs.HostSession
import Reentrant.Proofs.LimitedRun
import Reentrant.Proofs.RenumberedBridge

/-!
Cleaning up. A machine whose frames are dropped and a bridge that abandons what it holds are as good
as new, whatever has been done with them before: what is run next runs as it would on a new machine
with a new bridge, but for the numbers of its frames.
-/

namespace Reentrant

variable {σ : Type}

/-! ### Runs -/

namespace Machine

open Bridge (Follows Onto)

variable {r : Residue} {alike : σ → σ → Prop} {b b' : Bridge σ}

/-- By how much the frame numbers in a failure differ. -/
def haltOnto (r : Residue) : Halt HookError → Halt HookError :=
  Halt.shift (HookError.shift r.frames) r.frames

theorem atSite_onto (site : HookSite) {x x' : Except HookError Unit × Machine × Bridge σ}
    (h : Follows r alike (HookError.shift r.frames) x x') :
    Follows r alike (haltOnto r) (atSite site x) (atSite (site.shift r.frames) x') := by
  obtain ⟨hresult, hmachine, hbridge⟩ := h
  obtain ⟨result', m', b'⟩ := x'
  obtain ⟨e | _, m, b⟩ := x <;> cases hresult <;> exact ⟨rfl, hmachine, hbridge⟩

/-- Without a step limit, a step on top of an earlier session is the step on a new machine. -/
theorem step_onto {m : Machine} (hmax : m.limits.maxSteps = none) (h : b.Onto r alike b') :
    Follows r alike (haltOnto r) (m.step Bridge.host b) ((m.onto r).step Bridge.host b') := by
  rw [step, step, advance_onto r (HookError.shift r.frames) hmax]
  rcases @advance HookError m with ⟨e | _ | _ | ⟨id, caller⟩ | t, m₁⟩
  · exact ⟨rfl, rfl, h⟩
  · exact ⟨rfl, rfl, h⟩
  · exact ⟨rfl, rfl, h⟩
  · exact atSite_onto (.native id) (h.dispatch id caller m₁)
  · exact atSite_onto (.teardown t.frame) (h.complete t m₁)

/-- What a run comes to on a new machine and bridge, and what it comes to on top of an earlier
session. -/
structure RunsOnto {α : Type} (r : Residue) (alike : σ → σ → Prop)
    (x x' : Option (Except (Halt HookError) α) × Machine × Bridge σ) : Prop where
  result : x'.1 = x.1.map (·.mapError (haltOnto r))
  machine : x'.2.1 = x.2.1.onto r
  bridge : x.2.2.Onto r alike x'.2.2

theorem drain_onto (fuel : Nat) {m : Machine} (hmax : m.limits.maxSteps = none)
    (h : b.Onto r alike b') :
    RunsOnto r alike (m.drain Bridge.host fuel b) ((m.onto r).drain Bridge.host fuel b') := by
  induction fuel generalizing m b b' with
  | zero => exact ⟨rfl, rfl, h⟩
  | succ fuel ih =>
      have hstep := step_onto hmax h
      have hlimits := (m.keeps_step b).limits
      rw [drain, drain]
      generalize m.step Bridge.host b = x at hstep hlimits ⊢
      generalize (m.onto r).step Bridge.host b' = x' at hstep ⊢
      obtain ⟨hresult, hmachine, hbridge⟩ := hstep
      obtain ⟨result', m₁', b₁'⟩ := x'
      obtain ⟨e | _ | _, m₁, b₁⟩ := x <;> cases hresult <;> obtain rfl : m₁' = m₁.onto r := hmachine
      · exact ⟨rfl, rfl, hbridge⟩
      · exact ih (hlimits ▸ hmax) hbridge
      · exact ⟨rfl, rfl, hbridge⟩

theorem run_onto (fuel : Nat) {m : Machine} (hmax : m.limits.maxSteps = none)
    (h : b.Onto r alike b') :
    RunsOnto r alike (m.run Bridge.host fuel b) ((m.onto r).run Bridge.host fuel b') := by
  have hdrain := drain_onto fuel hmax h
  rw [run, run]
  generalize m.drain Bridge.host fuel b = x at hdrain ⊢
  generalize (m.onto r).drain Bridge.host fuel b' = x' at hdrain ⊢
  obtain ⟨hresult, hmachine, hbridge⟩ := hdrain
  obtain ⟨result', m₁', b₁'⟩ := x'
  obtain ⟨_ | e | _, m₁, b₁⟩ := x <;> cases hresult <;> obtain rfl : m₁' = m₁.onto r := hmachine
  · exact ⟨rfl, rfl, hbridge⟩
  · exact ⟨rfl, rfl, hbridge⟩
  · have hexit : (m₁.onto r).exit = m₁.exit := rfl
    simp only [Except.mapError, hexit]
    cases m₁.exit <;> exact ⟨rfl, rfl, hbridge⟩

end Machine

/-! ### Cleaning up -/

/-- What a session has left in its machine and its bridge, apart from what a cleanup takes away. -/
def residue (s : Machine × Bridge σ) : Residue where
  frames := s.1.nextFrame - 1
  tasks := s.2.nextTask - 1
  cells := s.2.futures.cells
  logged := s.1.logged
  events := s.2.journal.events
  steps := s.1.steps
  lastFault := s.1.lastFault

namespace Launch

variable (c : Launch σ) (moves : List HostMove)

/-- The machine and the bridge do not get in each other's way. -/
theorem session_cleanup {order : List HostMove}
    (horder : order = [.abort, .abandon] ∨ order = [.abandon, .abort]) :
    c.session (moves ++ order) =
      ((c.session moves).1.abort.2, (c.session moves).2.abandon.2) := by
  rw [session_append]
  rcases horder with rfl | rfl <;> rfl

/-- A program that is loaded after a cleanup stands there as on a new machine. -/
theorem loadEntry_abort (p : Program) :
    ((c.session moves).1.abort.2.loadEntry p).2 =
      ({ c with program := p } : Launch σ).machine.onto (residue (c.session moves)) := by
  obtain ⟨hlimits, hnumbers⟩ := (c.session_keeps moves).1
  have hnext : 1 + ((c.session moves).1.nextFrame - 1) = (c.session moves).1.nextFrame :=
    Nat.add_sub_cancel' hnumbers
  have hnext' :
      1 + 1 + ((c.session moves).1.nextFrame - 1) = (c.session moves).1.nextFrame + 1 := by
    rw [Nat.add_right_comm, hnext]
  simp [Machine.loadEntry, Machine.load, Machine.abort, machine, Machine.onto, residue,
    Frame.shift, hlimits, hnext, hnext']

/-- A bridge that has abandoned what it held is like a new one. -/
theorem bridge_onto_abandon {alike : σ → σ → Prop} (p : Program)
    (hblind : c.registry.Blind (residue (c.session moves)).shift alike) :
    ({ c with program := p } : Launch σ).bridge.Onto (residue (c.session moves)) alike
      (c.session moves).2.abandon.2 := by
  obtain ⟨hsetup, hnumbers⟩ := (c.session_keeps moves).2
  exact {
    blind := hblind
    registry := congrArg Bridge.Setup.registry hsetup
    library := congrArg Bridge.Setup.library hsetup
    futures := .initial _
    table := rfl
    tasks := .nil
    outbox := rfl
    completions := rfl
    journal := by
      have henabled : (c.session moves).2.journal.enabled = c.journal :=
        congrArg Bridge.Setup.journaling hsetup
      simp [Bridge.abandon, Journal.onto, residue, bridge, ← henabled]
    nextTask := (Nat.add_sub_cancel' hnumbers).symm
    fatal := rfl
    nesting := congrArg Bridge.Setup.nesting hsetup }

end Launch

/-! ### The built-in routines -/

namespace Builtin

/-- A built-in that waits for the same under shifted numbers. -/
def Waiting.shift (n : Nat) : Waiting → Waiting
  | .invoke procedure => .invoke procedure
  | .invoked f => .invoked (f + n)
  | .tryInvoke procedure => .tryInvoke procedure
  | .tried f => .tried (f + n)
  | .sumThenReport => .sumThenReport
  | .answered f => .answered (f + n)
  | .callBoth => .callBoth
  | .calledFirst f => .calledFirst (f + n)
  | .calledSecond f => .calledSecond (f + n)

/-- `s'` is `s` under shifted numbers. -/
def Waiting.Shifted (d : Shift) (s s' : Waiting) : Prop := s' = s.shift d.futures

section Alike

variable {d : Shift}

theorem ask_alike {k k' : FutureId → Poll Waiting}
    (hk : ∀ f, (k f).Alike d (Waiting.Shifted d) (k' (f + d.futures))) (procedure : String) :
    (ask procedure k).Alike d (Waiting.Shifted d) (ask procedure k') :=
  .invokeNamed procedure (fun _ => .ready _) hk

theorem receive_alike {k k' : Option Value → Poll Waiting}
    (hk : ∀ v, (k v).Alike d (Waiting.Shifted d) (k' v)) {waiting waiting' : Waiting}
    (hwaiting : waiting.Shifted d waiting') (f : FutureId) :
    (receive f waiting k).Alike d (Waiting.Shifted d) (receive (f + d.futures) waiting' k') := by
  refine .observe f fun o => ?_
  match o with
  | none => exact .pending hwaiting
  | some (.returned v) => exact hk v
  | some (.faulted fault) => exact .ready _

end Alike

/-- A built-in does not look at the numbers of its futures. -/
theorem blind (d : Shift) : registry.Blind d (Waiting.Shifted d) where
  starts q hq start hstart xs := by
    simp only [registry, routines, List.mem_cons, List.not_mem_nil, or_false] at hq
    rcases hq with rfl | rfl | rfl | rfl | rfl | rfl | rfl <;> cases hstart <;> rfl
  polls s s' hs := by
    obtain rfl : s' = s.shift d.futures := hs
    have hinvoke : ∀ f,
        (finishInvoke f).Alike d (Waiting.Shifted d) (finishInvoke (f + d.futures)) := by
      refine fun f => receive_alike (fun v => ?_) rfl f
      exact .ready _
    have htry : ∀ f, (finishTry f).Alike d (Waiting.Shifted d) (finishTry (f + d.futures)) := by
      refine fun f => .observe f fun o => ?_
      match o with
      | none => exact .pending rfl
      | some (.returned v) => exact .ready _
      | some (.faulted fault) => exact .ready _
    have hanswer : ∀ f,
        (finishAnswer f).Alike d (Waiting.Shifted d) (finishAnswer (f + d.futures)) := by
      refine fun f => receive_alike (fun v => ?_) rfl f
      cases Shape.int.read v <;> exact .ready _
    have hsecond : ∀ f,
        (finishSecond f).Alike d (Waiting.Shifted d) (finishSecond (f + d.futures)) := by
      refine fun f => receive_alike (fun v => ?_) rfl f
      exact .ready _
    have hfirst : ∀ f,
        (finishFirst f).Alike d (Waiting.Shifted d) (finishFirst (f + d.futures)) := by
      refine fun f => receive_alike (fun v => ?_) rfl f
      exact ask_alike hsecond _
    cases s with
    | invoke procedure => exact ask_alike hinvoke procedure
    | invoked f => exact hinvoke f
    | tryInvoke procedure => exact ask_alike htry procedure
    | tried f => exact htry f
    | sumThenReport => exact ask_alike hanswer _
    | answered f => exact hanswer f
    | callBoth => exact ask_alike hfirst _
    | calledFirst f => exact hfirst f
    | calledSecond f => exact hsecond f

theorem oblivious : registry.Oblivious := fun d => ⟨_, blind d⟩

end Builtin

/-! ### As good as new -/

/-- Without a step limit, a run of well-behaved routines that is over was not stopped. -/
theorem Launch.run_unstopped {c : Launch σ} {keep : σ → Prop} (hkeep : c.registry.KeepsTo keep)
    (hmax : c.limits.maxSteps = none) (fuel : Nat) :
    (c.run fuel).1 = none ∨ ∃ o, (c.run fuel).1 = some (.ok o) := by
  rw [run, Machine.run]
  cases hdrain : c.machine.drain Bridge.host fuel c.bridge with
  | mk end? state =>
      obtain ⟨m, b⟩ := state
      cases end? with
      | none => exact .inl rfl
      | some ended =>
          obtain ⟨n, hafter, hlast⟩ := c.drain_after fuel 0 hdrain
          rcases hlast with ⟨hdone, rfl⟩ | ⟨e, herror, -⟩
          · have hexit := (aligned_after hkeep (n + 1)).exit.2 (frames_of_done hkeep hdone)
            obtain ⟨o, ho⟩ := Option.isSome_iff_exists.1 hexit
            rw [hafter] at ho
            replace ho : m.exit = some o := ho
            simp only [ho]
            exact .inr ⟨o, rfl⟩
          · rcases result_cases hkeep n with hresult | hresult | ⟨limit, hlimit, -⟩
            · rw [hresult] at herror
              cases herror
            · rw [hresult] at herror
              cases herror
            · rw [hmax] at hlimit
              cases hlimit

/-- Dropping the frames of the machine and abandoning what the bridge holds, in either order, takes
that away and nothing else: no hook of any host is called, no future is resolved, no task is polled,
nothing is recorded. A program that is loaded and run next then comes to what it comes to on a new
machine with a new bridge; it logs the same, and its events are the same but for the numbers of the
frames, which are greater by as many as had been loaded before. This is so in every state that a
host can bring about between two steps. -/
theorem Launch.cleanup_starts_afresh (c : Launch σ) (hc : c.registry.WellBehaved)
    (hnumbers : c.registry.Oblivious) (hmax : c.limits.maxSteps = none) (moves : List HostMove)
    (order : List HostMove) (horder : order = [.abort, .abandon] ∨ order = [.abandon, .abort]) :
    let s := c.session moves
    let cleaned := c.session (moves ++ order)
    (∀ (ω ε : Type) (h : Host ω ε) (w : ω),
      Operation.perform h (s.1, w) (.access .abort) = (cleaned.1, w)) ∧
    cleaned.1 = { s.1 with frames := [], entry := none } ∧
    cleaned.2 =
      { s.2 with table := {}, tasks := [], outbox := [], completions := [], fatal := none } ∧
    cleaned.2.pending = 0 ∧ cleaned.2.suspended = 0 ∧ cleaned.1.depth = 0 ∧
    ∀ p fuel,
      let fresh := ({ c with program := p } : Launch σ).run fuel
      let again := (cleaned.1.loadEntry p).2.run Bridge.host fuel cleaned.2
      again.1 = fresh.1 ∧ again.2.1.logged = s.1.logged ++ fresh.2.1.logged ∧
        again.2.2.journal.events =
          s.2.journal.events ++ fresh.2.2.journal.events.map (Event.shift (s.1.nextFrame - 1)) := by
  intro s cleaned
  have hcleaned : cleaned = (s.1.abort.2, s.2.abandon.2) := c.session_cleanup moves horder
  rw [hcleaned]
  refine ⟨fun _ _ _ _ => rfl, rfl, rfl, rfl, rfl, rfl, fun p fuel => ?_⟩
  obtain ⟨alike, hblind⟩ := hnumbers (residue s).shift
  have hruns := Machine.run_onto fuel (m := ({ c with program := p } : Launch σ).machine) hmax
    (c.bridge_onto_abandon moves p hblind)
  rw [← c.loadEntry_abort moves p] at hruns
  refine ⟨?_, congrArg Machine.logged hruns.machine, congrArg Journal.events hruns.bridge.journal⟩
  -- a run that is over was not stopped, so no number stands in what it comes to
  obtain ⟨keep, hkeep⟩ := hc
  refine hruns.result.trans ?_
  rcases Launch.run_unstopped (c := { c with program := p }) hkeep hmax fuel with
    hfresh | ⟨o, hfresh⟩
  · exact (congrArg _ hfresh).trans hfresh.symm
  · exact (congrArg _ hfresh).trans hfresh.symm

namespace Launch

def journaledCallBoth : Launch Builtin.Waiting := { callBoth with journal := true }

/-- A host loads the program and steps it once: `call_both` waits for its first procedure. -/
def callBothMoves : List HostMove :=
  [.operate (.access (.loadEntry callBoth.program)), .operate .step]

/-- `call_both` is dropped while it waits, and called again. -/
theorem cleanup_starts_afresh_callBoth :
    (journaledCallBoth.session callBothMoves).2.table.frames = [2] ∧
    (journaledCallBoth.session callBothMoves).2.suspended = 1 ∧
    (journaledCallBoth.session (callBothMoves ++ [.abort, .abandon])).2.suspended = 0 ∧
    (((journaledCallBoth.session (callBothMoves ++ [.abort, .abandon])).1.loadEntry
      callBoth.program).2.run Bridge.host 10
        (journaledCallBoth.session (callBothMoves ++ [.abort, .abandon])).2).1 =
      some (.ok (.returned none)) := by
  obtain ⟨-, -, -, -, hsuspended, -, hruns⟩ := journaledCallBoth.cleanup_starts_afresh
    Builtin.wellBehaved Builtin.oblivious rfl callBothMoves [.abort, .abandon] (.inl rfl)
  have hfresh : (({ journaledCallBoth with program := callBoth.program } :
      Launch Builtin.Waiting).run 10).1 = some (.ok (.returned none)) := by rfl
  exact ⟨by decide, by decide, hsuspended, (hruns callBoth.program 10).1.trans hfresh⟩

end Launch

end Reentrant
