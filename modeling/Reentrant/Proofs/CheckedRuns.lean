import Reentrant.Proofs.CheckOrder
import Reentrant.Proofs.LaunchedRun

/-!
Runs of checked sources. Where a check finds nothing, no foreseen fault ever occurs: none is raised by
an instruction, the dispatcher refuses no call, and the built-in routines only pass on faults that
occurred before. Where it finds something, the step that gets there fails as foreseen.
-/

namespace Reentrant

variable {σ : Type}

/-! ### Faults that routines pass on -/

/-- Not a foreseen fault. -/
def DispatchResult.Unforeseen (r : DispatchResult) : Prop := ∀ e, r = .fault e → e.Unforeseen

/-- Not the outcome of a frame that a foreseen fault has ended. -/
def Outcome.Unforeseen (o : Outcome) : Prop := ∀ e, o = .faulted e → e.Unforeseen

theorem DispatchResult.unforeseen_fault {e : Fault} (h : e.Unforeseen) :
    (DispatchResult.fault e).Unforeseen := by
  intro e' he'
  cases he'
  exact h

/-- A failure of the routine itself is none of the foreseen faults. -/
theorem DispatchError.unforeseen_failed (routine : String) {e : RoutineError}
    (h : ∀ fault, e = .interpreter fault → fault.Unforeseen) :
    (DispatchError.failed routine e).toFault.Unforeseen := by
  cases e with
  | interpreter fault => exact h fault rfl
  | conversion e => exact Fault.unforeseen_of_code Fault.routineFailure rfl (by decide)
  | host message contexts => exact Fault.unforeseen_of_code Fault.routineFailure rfl (by decide)

/-- The poll runs procedures of the library alone, and comes to no foreseen fault as long as it is
shown none. -/
def Poll.PassesOn : Poll σ → Prop
  | .ready r => ∀ routine, (Bridge.deliverable routine r).Unforeseen
  | .pending _ => True
  | .context k => ∀ t caller, (k t caller).PassesOn
  | .invoke _ _ => False
  | .invokeNamed _ k => ∀ r, (∀ e, r = .error e → e.Unforeseen) → (k r).PassesOn
  | .observe _ k => ∀ o : Option Outcome, (∀ o', o = some o' → o'.Unforeseen) → (k o).PassesOn
  | .resolve _ _ _ => False
  | .register _ _ _ => False
  | .note _ k => k.PassesOn

/-- A call of a registered routine comes to no foreseen fault, as long as none is shown to it. -/
structure Registry.PassesOn (g : Registry σ) : Prop where
  polls : ∀ s, (g.poll s).PassesOn
  settles : ∀ id stack result notes spent rest, g.contains id = true →
    g.intake id stack = (.settled result notes spent, rest) → result.Unforeseen

theorem Library.mem_of_get? {l : Library} {name : String} {p : Program} (h : l.get? name = some p) :
    p ∈ l.programs :=
  List.mem_of_find?_eq_some h

/-- What such a poll asks for and comes to. -/
theorem Poll.PassesOn.transcript {q : Poll σ} (hq : q.PassesOn) {look : FutureId → Option Outcome}
    (hlook : ∀ f o, look f = some o → o.Unforeseen) (l : Library) (t : TaskId) (caller : FrameId)
    (next : FutureId) :
    (∀ p ∈ (q.transcript look l t caller next).programs, p ∈ l.programs) ∧
      ∀ r, (q.transcript look l t caller next).answer = .ready r →
        ∀ routine, (Bridge.deliverable routine r).Unforeseen := by
  induction q generalizing next with
  | ready r =>
      refine ⟨by simp [Poll.transcript], fun r' hr' => ?_⟩
      cases hr'
      exact hq
  | pending s => exact ⟨by simp [Poll.transcript], fun r hr => by cases hr⟩
  | context k ih => exact ih _ _ (hq t caller) next
  | invoke p k => exact hq.elim
  | invokeNamed name k ih =>
      simp only [Poll.transcript]
      cases hget : l.get? name with
      | none =>
          refine ih _ (hq _ fun e he => ?_) next
          cases he
          exact Fault.unforeseen_of_code Fault.unknownProcedure rfl (by decide)
      | some p =>
          obtain ⟨hprograms, hanswer⟩ := ih (.ok next) (hq _ fun e he => by cases he) (next + 1)
          exact ⟨List.forall_mem_cons.2 ⟨Library.mem_of_get? hget, hprograms⟩, hanswer⟩
  | observe f k ih => exact ih _ (hq _ (hlook f)) next
  | resolve f o k => exact hq.elim
  | register f slot k => exact hq.elim
  | note n k ih => exact ih hq next

/-- The result of a task whose poll passes faults on. -/
theorem Transcript.result?_unforeseen {tr : Transcript σ}
    (hanswer : ∀ r, tr.answer = .ready r → ∀ routine, (Bridge.deliverable routine r).Unforeseen)
    {x : Task σ} {r : DispatchResult} (h : tr.result? x = some r) : r.Unforeseen := by
  unfold result? at h
  split at h
  · next r' ha =>
      cases h
      exact hanswer r' ha x.routine
  · split at h
    · cases h
      exact DispatchResult.unforeseen_fault
        (Fault.unforeseen_of_code Fault.routineStalled rfl (by decide))
    · cases h

namespace Builtin

theorem passesOn_fail {e : Fault} (h : e.Unforeseen) :
    (Poll.fail (.interpreter e) : Poll Waiting).PassesOn := by
  intro routine
  refine DispatchResult.unforeseen_fault (DispatchError.unforeseen_failed routine fun fault heq => ?_)
  cases heq
  exact h

theorem passesOn_value (v : Value) : (Poll.ready (.ok (.value v)) : Poll Waiting).PassesOn :=
  fun _ e he => by cases he

theorem ask_passesOn {k : FutureId → Poll Waiting} (hk : ∀ f, (k f).PassesOn) (procedure : String) :
    (ask procedure k).PassesOn := by
  intro r hr
  match r with
  | .ok f => exact hk f
  | .error fault => exact passesOn_fail (hr fault rfl)

theorem receive_passesOn {k : Option Value → Poll Waiting} (hk : ∀ v, (k v).PassesOn)
    (waiting : Waiting) (f : FutureId) : (receive f waiting k).PassesOn := by
  intro o ho
  match o with
  | none => trivial
  | some (.returned v) => exact hk v
  | some (.faulted fault) => exact passesOn_fail (ho _ rfl fault rfl)

theorem finishInvoke_passesOn (f : FutureId) : (finishInvoke f).PassesOn := by
  refine receive_passesOn (k := fun v => .ready (.ok (.ofOption v))) (fun v => ?_) _ f
  intro routine e he
  cases v <;> cases he

theorem finishTry_passesOn (f : FutureId) : (finishTry f).PassesOn := by
  intro o _
  match o with
  | none => trivial
  | some (.returned v) => exact passesOn_value _
  | some (.faulted fault) => exact passesOn_value _

/-- A failure of the routine's own. -/
theorem deliverable_host (routine message : String) (contexts : List String) :
    (Bridge.deliverable routine (.error (.host message contexts))).Unforeseen :=
  DispatchResult.unforeseen_fault (DispatchError.unforeseen_failed routine fun _ h => by cases h)

theorem finishAnswer_passesOn (f : FutureId) : (finishAnswer f).PassesOn := by
  refine receive_passesOn (fun v => ?_) _ f
  cases Shape.int.read v with
  | error e =>
      intro routine
      exact DispatchResult.unforeseen_fault
        (DispatchError.unforeseen_failed routine fun _ h => by cases h)
  | ok answer =>
      intro routine
      dsimp only [report]
      cases int64? (answer.toInt - 10) with
      | none => exact deliverable_host _ _ _
      | some n => exact fun e he => by cases he

theorem finishSecond_passesOn (f : FutureId) : (finishSecond f).PassesOn :=
  receive_passesOn (k := fun _ => .ready (.ok .void)) (fun _ _ e he => by cases he) _ f

theorem finishFirst_passesOn (f : FutureId) : (finishFirst f).PassesOn :=
  receive_passesOn (k := fun _ => ask "call_b" finishSecond)
    (fun _ => ask_passesOn finishSecond_passesOn _) _ f

/-- The built-in routines come to no foreseen fault of their own. -/
theorem poll_passesOn (s : Waiting) : (poll s).PassesOn := by
  cases s with
  | invoke procedure => exact ask_passesOn finishInvoke_passesOn procedure
  | invoked f => exact finishInvoke_passesOn f
  | tryInvoke procedure => exact ask_passesOn finishTry_passesOn procedure
  | tried f => exact finishTry_passesOn f
  | sumThenReport => exact ask_passesOn finishAnswer_passesOn _
  | answered f => exact finishAnswer_passesOn f
  | callBoth => exact ask_passesOn finishFirst_passesOn _
  | calledFirst f => exact finishFirst_passesOn f
  | calledSecond f => exact finishSecond_passesOn f

/-- The synchronous built-ins fail as routines do. -/
theorem sync_unforeseen {r : Routine Waiting} (hr : r ∈ registry.routines)
    {run : Arguments r.params → List Note × Except RoutineError DispatchResult}
    (hbody : r.body = .sync run) (xs : Arguments r.params) :
    (Bridge.deliverable r.name (run xs).2).Unforeseen := by
  simp only [registry, routines, List.mem_cons, List.not_mem_nil, or_false] at hr
  rcases hr with rfl | rfl | rfl | rfl | rfl | rfl | rfl
  · cases hbody
    exact fun e he => by cases he
  · cases hbody
    obtain ⟨a, b, _⟩ := xs
    dsimp only [add]
    cases int64? (a.toInt + b.toInt) with
    | none => exact deliverable_host _ _ _
    | some n => exact fun e he => by cases he
  · cases hbody
    exact fun e he => by cases he
  all_goals cases hbody

/-- A call of a registered routine that is over at once. -/
theorem settled_unforeseen {native : RoutineId} (hknown : registry.contains native = true)
    {stack rest : List Value} {result : DispatchResult} {notes : List Note} {spent : Nat}
    (h : registry.intake native stack = (.settled result notes spent, rest)) :
    result.Unforeseen := by
  obtain ⟨r, hget⟩ := Option.isSome_iff_exists.1 hknown
  have hargument : ∀ e : Fault, e.code = Fault.argumentConversion →
      (DispatchResult.fault e).Unforeseen := fun e he =>
    DispatchResult.unforeseen_fault (Fault.unforeseen_of_code _ he (by decide))
  rw [Registry.intake, hget] at h
  dsimp only at h
  split at h
  · cases h
    exact hargument _ rfl
  · unfold Routine.intake at h
    split at h
    · cases h
      exact hargument _ rfl
    · cases h
      exact hargument _ rfl
    · next run xs hbody _ =>
        cases h
        exact sync_unforeseen (List.mem_of_find?_eq_some hget) hbody xs
    · cases h

theorem passesOn : registry.PassesOn where
  polls := poll_passesOn
  settles _ _ _ _ _ _ hknown h := settled_unforeseen hknown h

end Builtin

/-! ### States without foreseen faults -/

namespace Bridge

/-- Every frame runs a procedure of the library, and no foreseen fault is to be found anywhere. -/
structure Unfaulted (m : Machine) (b : Bridge σ) : Prop where
  programs : ∀ f ∈ m.frames, f.program ∈ b.library.programs
  pending : ∀ f ∈ m.frames, ∀ e, f.pendingFault = some e → e.Unforeseen
  lastFault : ∀ e, m.lastFault = some e → e.Unforeseen
  exit : ∀ o, m.exit = some o → o.Unforeseen
  futures : ∀ f o, b.futures.outcome? f = some o → o.Unforeseen

/-- A frame that is brought a result. -/
theorem pending_receive {f : Frame} {r : DispatchResult}
    (hf : ∀ e, f.pendingFault = some e → e.Unforeseen) (hr : r.Unforeseen) :
    ∀ e, (f.receive r).pendingFault = some e → e.Unforeseen := by
  cases r with
  | void => exact hf
  | value v => exact hf
  | fault fault =>
      intro e he
      dsimp only [Frame.receive] at he
      cases hpending : f.pendingFault with
      | none =>
          rw [hpending] at he
          cases he
          exact hr _ rfl
      | some e' =>
          rw [hpending] at he
          cases he
          exact hf _ hpending

theorem program_receive (f : Frame) (r : DispatchResult) : (f.receive r).program = f.program := by
  cases r <;> rfl

theorem program_answered (caller : FrameId) (r : Option DispatchResult) (f : Frame) :
    (f.answered caller r).program = f.program := by
  cases r with
  | none => rfl
  | some r =>
      rw [Frame.answered]
      split
      · exact program_receive f r
      · rfl

theorem pending_answered {f : Frame} {caller : FrameId} {r : Option DispatchResult}
    (hf : ∀ e, f.pendingFault = some e → e.Unforeseen) (hr : ∀ r', r = some r' → r'.Unforeseen) :
    ∀ e, (f.answered caller r).pendingFault = some e → e.Unforeseen := by
  cases r with
  | none => exact hf
  | some r =>
      rw [Frame.answered]
      split
      · exact pending_receive hf (hr r rfl)
      · exact hf

end Bridge

/-- All that can be wrong with a frame that has just been loaded is that it is one too many. -/
theorem Limits.pending_fresh (l : Limits) (id : FrameId) (depth : Nat) (p : Program) :
    ∀ e, (l.fresh id depth p).pendingFault = some e → e.Unforeseen := by
  intro e he
  dsimp only [fresh] at he
  split at he
  · cases he
    exact Fault.unforeseen_of_code Fault.stackOverflow rfl (by decide)
  · cases he

namespace Bridge

variable {m m' : Machine} {b b' : Bridge σ}

/-- A poll that passes faults on, and the flush that follows. -/
theorem Unfaulted.reacted (h : Unfaulted m b) (pre post : List (Task σ)) (x : Task σ)
    {tr : Transcript σ} (hprograms : ∀ p ∈ tr.programs, p ∈ b.library.programs)
    (hanswer : ∀ r, tr.answer = .ready r → ∀ routine, (deliverable routine r).Unforeseen)
    (hcaller : x.caller < m.nextFrame) (id : FrameId) :
    Unfaulted ((m.loadAll tr.programs).answer x.caller (tr.result? x))
      (b.reacted pre x post tr id) := by
  have hresult : ∀ r, tr.result? x = some r → r.Unforeseen := fun r hr =>
    Transcript.result?_unforeseen hanswer hr
  rw [Machine.loadAll_answer _ _ hcaller, reacted_eq]
  refine ⟨fun f hf => ?_, fun f hf => ?_, h.lastFault, h.exit, ?_⟩
  · rcases List.mem_append.1 hf with hf | hf
    · obtain ⟨id', depth', p, hp, rfl⟩ := Limits.exists_of_mem_freshAll hf
      exact hprograms p hp
    · obtain ⟨g, hg, rfl⟩ := List.mem_map.1 hf
      rw [program_answered]
      exact h.programs g hg
  · rcases List.mem_append.1 hf with hf | hf
    · obtain ⟨id', depth', p, -, rfl⟩ := Limits.exists_of_mem_freshAll hf
      exact Limits.pending_fresh _ id' depth' p
    · obtain ⟨g, hg, rfl⟩ := List.mem_map.1 hf
      exact pending_answered (h.pending g hg) hresult
  · dsimp only
    rw [FutureStore.outcome?_extend _ _ (Transcript.outcome_cell tr x.id)]
    exact h.futures

/-- A native call of a registered routine. -/
theorem Unfaulted.called (h : Unfaulted m b) {f : Frame} {below : List Frame}
    (hframes : m.frames = f :: below) {native : RoutineId} (hpasses : b.registry.PassesOn)
    (hknown : b.registry.contains native = true)
    (hreaction : Reaction (.call native f.id) m b m' b') : Unfaulted m' b' := by
  have hcall := hreaction.of_call hframes
  have hprograms := h.programs
  have hpending := h.pending
  rw [hframes, List.forall_mem_cons] at hprograms hpending
  cases hintake : b.registry.intake native f.stack with
  | mk intake rest =>
      rw [hintake] at hcall
      cases intake with
      | settled result notes spent =>
          obtain ⟨rfl, rfl⟩ := hcall
          have hresult := hpasses.settles _ _ _ _ _ _ hknown hintake
          refine ⟨?_, ?_, h.lastFault, h.exit, h.futures⟩
          · rw [List.forall_mem_cons, program_receive]
            exact hprograms
          · rw [List.forall_mem_cons]
            exact ⟨pending_receive (f := { f with stack := rest }) hpending.1 hresult, hpending.2⟩
      | begun routine s =>
          obtain ⟨hlt, rfl, rfl⟩ := hcall
          obtain ⟨hasked, hanswer⟩ := (hpasses.polls s).transcript h.futures b.library b.nextTask
            f.id b.futures.cells.size
          let x : Task σ := { id := b.nextTask, caller := f.id, routine, activity := .idle s }
          have hstarted : ∀ blocked, Unfaulted
              ({ m with frames := { f with stack := rest, blocked } :: below } : Machine)
              ({ b with
                journal := b.journal.recordAll (startEvents b.registry native f.id)
                nextTask := b.nextTask + 1 } : Bridge σ) := by
            intro blocked
            refine ⟨?_, ?_, h.lastFault, h.exit, h.futures⟩
            · rw [List.forall_mem_cons]
              exact hprograms
            · rw [List.forall_mem_cons]
              exact hpending
          exact (hstarted _).reacted [] b.tasks x hasked hanswer hlt m.nextFrame

end Bridge

/-- The outcomes once a future has been resolved. -/
theorem FutureStore.outcome?_resolved {κ : Type} (s : FutureStore κ) {f g : FutureId}
    {o o' : Outcome} (h : (s.resolved f o).outcome? g = some o') :
    o' = o ∨ s.outcome? g = some o' := by
  by_cases hfg : f = g
  · subst hfg
    by_cases hlt : f < s.cells.size
    · rw [outcome?, get_resolved_self s hlt] at h
      cases h
      exact .inl rfl
    · rw [outcome?, get_of_ge _ (by rw [size_resolved]; exact Nat.le_of_not_lt hlt)] at h
      cases h
  · rw [outcome?, get_resolved_of_ne s hfg] at h
    exact .inr h

namespace Bridge

variable {m m' : Machine} {b b' : Bridge σ}

/-- The end of a frame that no foreseen fault has ended. -/
theorem Unfaulted.ended (h : Unfaulted m b) {t : Teardown} (ht : t.outcome.Unforeseen)
    (hpasses : b.registry.PassesOn) (hreaction : Reaction (.ended t) m b m' b') :
    Unfaulted m' b' := by
  have hfutures : ∀ f o, (b.futures.resolved (t.frame - 2) t.outcome).outcome? f = some o →
      o.Unforeseen := by
    intro f o ho
    rcases FutureStore.outcome?_resolved _ ho with rfl | ho
    · exact ht
    · exact h.futures f o ho
  have hclosed : ∀ es, Unfaulted m (b.closed t (t.frame - 2) es) := fun es =>
    ⟨h.programs, h.pending, h.lastFault, h.exit, hfutures⟩
  cases hreaction with
  | left => exact ⟨h.programs, h.pending, h.lastFault, h.exit, h.futures⟩
  | @unheard _ _ _ es => exact hclosed es
  | @resumed _ _ _ es pre post y z s tr _ _ _ _ _ _ hz htr _ hcaller =>
      subst hz htr
      obtain ⟨hasked, hanswer⟩ := (hpasses.polls s).transcript hfutures b.library y.id y.caller
        b.futures.cells.size
      have hresumed : Unfaulted m ((b.closed t (t.frame - 2) es).record
          (.resumed y.caller y.routine)) :=
        ⟨h.programs, h.pending, h.lastFault, h.exit, hfutures⟩
      exact hresumed.reacted pre post { y with outstanding := y.outstanding - 1 } hasked hanswer
        hcaller m.nextFrame

/-- What the current frame raises, where nothing flawed is found in its program. -/
theorem Unfaulted.raised (h : Unfaulted m b) {f : Frame} (hf : f ∈ m.frames)
    {known : RoutineId → Bool} (hvalid : Assembly.validate known f.program = []) {e : Fault}
    (hraised : f.raised = some e) : e.Unforeseen := by
  unfold Frame.raised at hraised
  split at hraised
  · next fault hpending =>
      cases hraised
      exact h.pending f hf _ hpending
  · split at hraised
    · cases hraised
    · next op hop =>
        split at hraised
        · next fault hexec =>
            cases hraised
            rcases Frame.execute_error _ op hexec with hunforeseen | ⟨target, htarget, hout, -⟩
            · exact hunforeseen
            · refine absurd ?_ (Assembly.unflawed_of_valid hvalid hop)
              exact Assembly.flaw?_isSome_iff.2 (.inl ⟨target, htarget, hout⟩)
        · cases hraised

/-- The step of an unfaulted state, where no procedure is found flawed. -/
theorem Unfaulted.step (h : Unfaulted m b) (hpasses : b.registry.PassesOn)
    (hvalid : ∀ p ∈ b.library.programs, Assembly.validate b.registry.contains p = [])
    {r : Except (Halt HookError) Progress} (hstep : Stepped m b (r, m', b')) :
    Unfaulted m' b' := by
  cases hstep with
  | done => exact h
  | refused => exact h
  | @counted f below s m₁ _ _ hframes hadvanced hadvance hreaction =>
      have hf : f ∈ m.frames := hframes ▸ List.mem_cons_self
      have hraised : ∀ e, f.raised = some e → e.Unforeseen := fun e =>
        h.raised hf (hvalid _ (h.programs f hf))
      obtain ⟨hstay, hended⟩ := Machine.leaves_of_advance hframes hadvance
      have hbelow : ∀ g ∈ below, g ∈ m.frames := fun g hg => hframes ▸ List.mem_cons_of_mem _ hg
      have hprograms : ∀ g ∈ m₁.frames, g.program ∈ b.library.programs := by
        intro g hg
        rcases hstay g hg with hg | ⟨hprogram, -⟩
        · exact h.programs g (hbelow g hg)
        · rw [hprogram]
          exact h.programs f hf
      have hpending : ∀ g ∈ m₁.frames, ∀ e, g.pendingFault = some e → e.Unforeseen := by
        intro g hg e he
        rcases hstay g hg with hg | ⟨-, hnone⟩
        · exact h.pending g (hbelow g hg) e he
        · rw [hnone] at he
          cases he
      cases hadvanced with
      | proceed =>
          cases hreaction
          exact ⟨hprograms, hpending, h.lastFault, h.exit, h.futures⟩
      | @call g hid hblocked native =>
          have hop := (Machine.advance_call hframes hadvance).2.1
          have hknown : b.registry.contains native = true := by
            refine Bool.not_eq_false _ ▸ fun hunknown => ?_
            refine Assembly.unflawed_of_valid (hvalid _ (h.programs f hf)) hop ?_
            exact Assembly.flaw?_isSome_iff.2 (.inr ⟨native, rfl, hunknown⟩)
          have hcalled : Unfaulted ({ m with steps := m.steps + 1, frames := g :: below }) b :=
            ⟨hprograms, hpending, h.lastFault, h.exit, h.futures⟩
          exact hcalled.called rfl hpasses hknown hreaction
      | ended fault stack =>
          have hfault : ∀ e, fault = some e → e.Unforeseen := fun e he =>
            hraised e ((hended _ rfl).symm.trans he)
          have houtcome : (Teardown.outcome ⟨f.id, fault, stack⟩).Unforeseen := by
            intro e he
            cases fault with
            | none => cases he
            | some e' =>
                cases he
                exact hfault _ rfl
          refine Unfaulted.ended ⟨hprograms, hpending, ?_, ?_, h.futures⟩ houtcome hpasses hreaction
          · intro e he
            cases fault with
            | none => exact h.lastFault e he
            | some e' =>
                cases he
                exact hfault _ rfl
          · intro o ho
            dsimp only at ho
            split at ho
            · cases ho
              exact houtcome
            · exact h.exit o ho

end Bridge

/-! ### Runs of checked sources -/

/-- The run of a procedure of a library with the built-in routines. -/
def Execution.launch (l : Library) (p : Program) (settings : Settings) : Launch Builtin.Waiting where
  registry := Builtin.registry
  library := l
  limits := settings.limits
  journal := settings.journal
  program := p

namespace Launch

/-- Neither in the state after `n` steps nor in the step that follows does a foreseen fault occur. -/
structure NoForeseenFault (c : Launch σ) (n : Nat) : Prop where
  pending : ∀ f ∈ (c.after n).1.frames, ∀ e, f.pendingFault = some e → e.Unforeseen
  raised : ∀ f below, (c.after n).1.frames = f :: below → ∀ e, f.raised = some e → e.Unforeseen
  ended : ∀ t, c.ending n = some t → ∀ e, t.fault = some e → e.Unforeseen
  lastFault : ∀ e, (c.after n).1.lastFault = some e → e.Unforeseen
  outcomes : ∀ f e, (c.after n).2.futures.outcome? f = some (.faulted e) → e.Unforeseen
  exit : ∀ e, (c.after n).1.exit = some (.faulted e) → e.Unforeseen

section Kept

variable {keep : σ → Prop} {c : Launch σ} (hkeep : c.registry.KeepsTo keep)
  (hpasses : c.registry.PassesOn) (hprogram : c.program ∈ c.library.programs)
  (hvalid : ∀ p ∈ c.library.programs, Assembly.validate c.registry.contains p = [])

include hkeep hpasses hprogram hvalid

theorem unfaulted_after (n : Nat) : Bridge.Unfaulted (c.after n).1 (c.after n).2 := by
  induction n with
  | zero =>
      refine ⟨?_, ?_, fun e he => (by cases he), fun o ho => (by cases ho), fun f o ho => ?_⟩
      · intro f hf
        obtain rfl := List.mem_singleton.1 hf
        exact hprogram
      · intro f hf
        obtain rfl := List.mem_singleton.1 hf
        exact c.limits.pending_fresh 1 0 c.program
      · rw [FutureStore.outcome?, FutureStore.get_of_ge _ (Nat.zero_le _)] at ho
        cases ho
  | succ n ih =>
      obtain ⟨hregistry, hlibrary⟩ := host_after hkeep n
      refine ih.step (hregistry ▸ hpasses) ?_ (stepped_after hkeep n)
      rw [hregistry, hlibrary]
      exact hvalid

theorem noForeseenFault (n : Nat) : c.NoForeseenFault n := by
  have h := unfaulted_after hkeep hpasses hprogram hvalid n
  have hlibrary := (host_after hkeep n).2
  have hraised : ∀ f below, (c.after n).1.frames = f :: below → ∀ e, f.raised = some e →
      e.Unforeseen := by
    intro f below hframes e
    have hf : f ∈ (c.after n).1.frames := hframes ▸ List.mem_cons_self
    exact h.raised hf (hvalid _ (hlibrary ▸ h.programs f hf))
  refine ⟨h.pending, hraised, fun t ht e he => ?_, h.lastFault, fun f e he => h.futures f _ he e rfl,
    fun e he => h.exit _ he e rfl⟩
  unfold ending at ht
  split at ht
  · next hadvance =>
      cases ht
      cases hframes : (c.after n).1.frames with
      | nil =>
          rw [Machine.advance, hframes] at hadvance
          cases hadvance
      | cons f below =>
          have hfault := (Machine.leaves_of_advance hframes hadvance).ended _ rfl
          exact hraised f below hframes e (hfault.symm.trans he)
  · cases ht

end Kept

/-- The outcome of a finished run is that of a state the run has gone through. -/
theorem exit_of_run (c : Launch σ) {fuel : Nat} {m : Machine} {b : Bridge σ} {o : Outcome}
    (h : c.machine.run Bridge.host fuel c.bridge = (some (.ok o), m, b)) :
    ∃ n, (c.after n).1.exit = some o := by
  unfold Machine.run at h
  cases hdrain : c.machine.drain Bridge.host fuel c.bridge with
  | mk end? state =>
      obtain ⟨m', b'⟩ := state
      rw [hdrain] at h
      rcases end? with _ | e | ⟨⟩
      · cases h
      · cases h
      · obtain ⟨n, hafter, -⟩ := c.drain_after fuel 0 hdrain
        refine ⟨n + 1, ?_⟩
        rw [hafter]
        dsimp only at h ⊢
        split at h
        · next hexit =>
            cases h
            exact hexit
        · cases h

end Launch

namespace Execution

/-- The report of a run is about the entry frame of its launch. -/
theorem exit_of_execute {source entry : String} {settings : Settings} {fuel : Nat} {l : Library}
    {p : Program} (hl : library source = .ok l) (hp : l.get? entry = some p) {report : Report}
    (h : (execute source entry settings fuel).1 = .ok report) :
    ∃ n, ((launch l p settings).after n).1.exit = some report.outcome := by
  have hexecute : execute source entry settings fuel = run l p settings fuel := by
    unfold execute
    rw [hl]
    dsimp only
    rw [hp]
  rw [hexecute] at h
  cases hrun : (launch l p settings).machine.run Bridge.host fuel (launch l p settings).bridge with
  | mk end? state =>
      obtain ⟨m, b⟩ := state
      have hmachine : (launch l p settings).machine =
          (({ limits := settings.limits } : Machine).loadEntry p).2 := rfl
      have hbridge : (launch l p settings).bridge = bridge l settings := rfl
      unfold run at h
      dsimp only at h
      rw [← hmachine, ← hbridge, hrun] at h
      rcases end? with _ | e | o
      · cases h
      · cases h
      · cases h
        exact (launch l p settings).exit_of_run hrun

/-- A source in which a check finds nothing has nothing flawed in it. -/
theorem valid_of_check {source : String} (h : check source = .ok []) :
    ∃ l, library source = .ok l ∧
      ∀ p ∈ l.programs, Assembly.validate Builtin.registry.contains p = [] := by
  unfold check at h
  cases hl : library source with
  | error e =>
      rw [hl] at h
      cases h
  | ok l =>
      rw [hl] at h
      exact ⟨l, rfl, List.flatMap_eq_nil_iff.1 (Except.ok.inj h)⟩

/-- What is found in a source is what fails. Where a check finds nothing, no foreseen fault occurs in
any state of a run of any procedure. An instruction is found in a program exactly if the step that
gets there fails as foreseen, whatever operands and handler the frame has. Findings come in the order
of the procedures' names and of the instructions. -/
theorem check_foresees :
    (∀ source, check source = .ok [] → ∃ l, library source = .ok l ∧
      ∀ entry p settings, l.get? entry = some p →
        (∀ n, (launch l p settings).NoForeseenFault n) ∧
        ∀ fuel report, (execute source entry settings fuel).1 = .ok report →
          report.outcome.Unforeseen) ∧
    (∀ (m : Machine) (b : Bridge σ) f below, m.frames = f :: below → f.pendingFault = none →
      f.blocked = false → (∀ limit, m.limits.maxSteps = some limit → m.steps < limit) →
      (((Assembly.validate b.registry.contains f.program).map (·.index)).count f.ip = 1 ↔
        b.FailsForeseen m)) ∧
    (∀ known p, (Assembly.validate known p).Pairwise fun x y => x.index < y.index) ∧
    ∀ source ps, Assembly.assemble Builtin.registry.symbols source = .ok ps →
      ∃ fs, check source = .ok fs ∧ fs.Pairwise Assembly.Finding.Before ∧
        ∀ x, x ∈ fs ↔ ∃ p ∈ ps, x ∈ Assembly.validate Builtin.registry.contains p := by
  refine ⟨fun source hcheck => ?_, fun m b f below hframes hpending hblocked hlimit =>
      Bridge.reported_once_iff hframes hpending hblocked hlimit,
    Assembly.validate_increasing, fun source ps => check_of_assemble⟩
  obtain ⟨l, hl, hvalid⟩ := valid_of_check hcheck
  refine ⟨l, hl, fun entry p settings hp => ?_⟩
  obtain ⟨keep, hkeep⟩ := Builtin.wellBehaved
  have hquiet : ∀ n, (launch l p settings).NoForeseenFault n :=
    Launch.noForeseenFault (c := launch l p settings) hkeep Builtin.passesOn
      (Library.mem_of_get? hp) hvalid
  refine ⟨hquiet, fun fuel report hreport e he => ?_⟩
  obtain ⟨n, hn⟩ := exit_of_execute hl hp hreport
  exact (hquiet n).exit e (hn.trans (congrArg some he))

/-- A result that can be compared by value. -/
theorem ok_of_toOption {α ε : Type} {r : Except ε α} {a : α} (h : r.toOption = some a) :
    r = .ok a := by
  cases r with
  | error e => cases h
  | ok b => exact congrArg Except.ok (Option.some.inj h)

/-- A procedure that jumps to itself for ever. -/
def looping : Library := { programs := [⟨"main", [.push (.int 5), .jump 1]⟩] }

theorem library_looping :
    library "proc main\npush 5\nhere:\njump here\nend\n" = .ok looping :=
  ok_of_toOption (by decide +kernel)

/-- Two procedures with three flaws. -/
def flawed : List Program := [⟨"b", [.jump 2]⟩, ⟨"a", [.catchAt 7, .native 99]⟩]

theorem assemble_flawed :
    Assembly.assemble Builtin.registry.symbols
      "proc b\njump 2\nend\nproc a\ncatch 7\nnative 99\nend\n" = .ok flawed :=
  ok_of_toOption (by decide +kernel)

/-- A frame that is about to jump past the end of its program. -/
def astray : Frame := { id := 1, program := ⟨"b", [.jump 2]⟩ }

theorem check_foresees_flawed :
    (∀ n, (launch looping ⟨"main", [.push (.int 5), .jump 1]⟩ {}).NoForeseenFault n) ∧
      Bridge.FailsForeseen { frames := [astray] } (bridge looping {}) ∧
      ∃ fs, check "proc b\njump 2\nend\nproc a\ncatch 7\nnative 99\nend\n" = .ok fs ∧
        fs.map (fun x => (x.program, x.index)) = [("a", 0), ("a", 1), ("b", 0)] ∧
        fs.Pairwise Assembly.Finding.Before := by
  have hcheck : check "proc main\npush 5\nhere:\njump here\nend\n" = .ok [] := by
    unfold check
    rw [library_looping]
    rfl
  have hflawed : check "proc b\njump 2\nend\nproc a\ncatch 7\nnative 99\nend\n" =
      .ok ((Library.ofList flawed).programs.flatMap
        (Assembly.validate Builtin.registry.contains)) := by
    unfold check library
    rw [assemble_flawed]
    rfl
  obtain ⟨hsound, hcomplete, -, horder⟩ := @check_foresees Builtin.Waiting
  obtain ⟨l, hl, hruns⟩ := hsound _ hcheck
  obtain rfl : looping = l := Except.ok.inj (library_looping.symm.trans hl)
  obtain ⟨fs, hfs, hpairwise, -⟩ := horder _ flawed assemble_flawed
  refine ⟨(hruns "main" _ {} rfl).1, ?_, fs, hfs, ?_, hpairwise⟩
  · exact (hcomplete { frames := [astray] } (bridge looping {}) astray [] rfl rfl rfl
      (fun limit hlimit => by cases hlimit)).1 (by decide)
  · rw [Except.ok.inj (hfs.symm.trans hflawed)]
    decide

end Execution

end Reentrant
