import Reentrant.Proofs.FlushEffect

/-!
What the bridge makes of a native call and of a frame's end, as long as the polled routine is
restrained. Both come to at most one poll, to the loading of the programs it asked for and to at most
one result for the calling frame.
-/

namespace Reentrant

variable {σ : Type}

/-! ### Taking up a native call -/

/-- What a native call comes to before any routine is polled. -/
inductive Intake (σ : Type) where
  /-- It is over: a synchronous routine has run, or the call was refused. A refused suspending routine
  has spent a task number. -/
  | settled (result : DispatchResult) (notes : List Note) (spent : Nat)
  /-- The suspending routine of that name starts. -/
  | begun (routine : String) (state : σ)

/-- A routine on operands that were popped for it. -/
def Routine.intake (r : Routine σ) (args : List Value) : Intake σ :=
  match r.body, Arguments.read r.params args with
  | .sync _, .error (index, e) =>
      .settled (.fault (DispatchError.argument r.name index e).toFault) [] 0
  | .suspending _, .error (index, e) =>
      .settled (.fault (DispatchError.argument r.name index e).toFault) [] 1
  | .sync run, .ok xs => .settled (Bridge.deliverable r.name (run xs).2) (run xs).1 0
  | .suspending start, .ok xs => .begun r.name (start xs)

/-- A native call of `id` on a frame with operands `stack`, and the operands that it leaves there. -/
def Registry.intake (g : Registry σ) (id : RoutineId) (stack : List Value) :
    Intake σ × List Value :=
  match g.get? id with
  | none => (.settled (.fault (DispatchError.unknownRoutine id).toFault) [] 0, stack)
  | some r =>
      if stack.length < r.arity then
        (.settled (.fault (DispatchError.arity r.name r.arity stack.length).toFault) [] 0, [])
      else (r.intake (stack.take r.arity).reverse, stack.drop r.arity)

/-- When a suspending routine starts. -/
theorem Registry.begun_of_intake {g : Registry σ} {id : RoutineId} {stack rest : List Value}
    {routine : String} {s : σ} (h : g.intake id stack = (.begun routine s, rest)) :
    ∃ r start xs, g.get? id = some r ∧ ¬stack.length < r.arity ∧ r.body = .suspending start ∧
      Arguments.read r.params (stack.take r.arity).reverse = .ok xs ∧ r.name = routine ∧
      start xs = s ∧ stack.drop r.arity = rest := by
  rw [intake] at h
  cases hget : g.get? id with
  | none =>
      rw [hget] at h
      cases h
  | some r =>
      rw [hget] at h
      simp only at h
      by_cases harity : stack.length < r.arity
      · rw [if_pos harity] at h
        cases h
      · rw [if_neg harity, Routine.intake] at h
        cases hread : Arguments.read r.params (stack.take r.arity).reverse with
        | error e => cases hbody : r.body <;> simp [hbody, hread] at h
        | ok xs =>
            cases hbody : r.body with
            | sync run => simp [hbody, hread] at h
            | suspending start =>
                simp only [hbody, hread, Prod.mk.injEq, Intake.begun.injEq] at h
                exact ⟨r, start, xs, rfl, harity, hbody, hread, h.1.1, h.1.2, h.2⟩

/-- A routine that starts does so in a state that is kept to. -/
theorem Registry.KeepsTo.keep_of_begun {g : Registry σ} {keep : σ → Prop} (hg : g.KeepsTo keep)
    {id : RoutineId} {stack rest : List Value} {routine : String} {s : σ}
    (h : g.intake id stack = (.begun routine s, rest)) : keep s := by
  obtain ⟨r, start, xs, hget, -, hbody, -, -, rfl, -⟩ := Registry.begun_of_intake h
  exact hg.starts r (List.mem_of_find?_eq_some hget) start hbody xs

/-- The future `f` once it holds the outcome `o`. -/
def FutureStore.resolved {κ : Type} (s : FutureStore κ) (f : FutureId) (o : Outcome) :
    FutureStore κ :=
  s.set f { s.get f with outcome := some o, waiting := none }

theorem FutureStore.size_resolved {κ : Type} (s : FutureStore κ) (f : FutureId) (o : Outcome) :
    (s.resolved f o).cells.size = s.cells.size :=
  Array.size_setIfInBounds

namespace Bridge

theorem popArguments_go {m : Machine} {f : Frame} {below : List Frame}
    (hframes : m.frames = f :: below) (n : Nat) (taken : List Value) :
    popArguments.go n taken m =
      if f.stack.length < n then
        (.error (taken.length + f.stack.length),
          { m with frames := { f with stack := [] } :: below })
      else
        (.ok ((f.stack.take n).reverse ++ taken),
          { m with frames := { f with stack := f.stack.drop n } :: below }) := by
  induction n generalizing m f taken with
  | zero =>
      rw [if_neg (Nat.not_lt_zero _), popArguments.go]
      simp [← hframes]
  | succ n ih =>
      cases hstack : f.stack with
      | nil =>
          rw [popArguments.go, Machine.pop, hframes]
          simp only [hstack]
          rw [if_pos (by simp)]
          cases f
          simp only at hstack
          subst hstack
          simp [← hframes]
      | cons v rest =>
          rw [popArguments.go, Machine.pop, hframes]
          simp only [hstack]
          rw [ih rfl]
          simp [Nat.add_comm, Nat.add_left_comm]

theorem popArguments_eq {m : Machine} {f : Frame} {below : List Frame}
    (hframes : m.frames = f :: below) (n : Nat) :
    popArguments m n =
      if f.stack.length < n then
        (.error f.stack.length, { m with frames := { f with stack := [] } :: below })
      else
        (.ok (f.stack.take n).reverse,
          { m with frames := { f with stack := f.stack.drop n } :: below }) := by
  rw [popArguments, popArguments_go hframes]
  simp

/-- The event of a native call that reaches a registered routine. -/
def startEvents (g : Registry σ) (id : RoutineId) (caller : FrameId) : List Event :=
  match g.get? id with
  | none => []
  | some r => [.dispatchStarted caller r.name id]

/-- Nothing is queued. -/
structure Quiet (b : Bridge σ) : Prop where
  fatal : b.fatal = none
  outbox : b.outbox = []
  completions : b.completions = []

/-! ### A native call that is over at once -/

/-- The bridge after a native call that was over without a poll. -/
def taken (b : Bridge σ) (id : RoutineId) (caller : FrameId) (result : DispatchResult)
    (notes : List Note) (spent : Nat) : Bridge σ :=
  { b with
    journal := b.journal.recordAll (startEvents b.registry id caller ++
      [.routineFinished caller (b.routineName id) result])
    notes := b.notes ++ notes.toArray
    nextTask := b.nextTask + spent }

theorem foldl_addNote (notes : List Note) (b : Bridge σ) :
    notes.foldl addNote b = { b with notes := b.notes ++ notes.toArray } := by
  induction notes generalizing b with
  | nil => simp
  | cons n notes ih =>
      rw [List.foldl_cons, ih]
      simp [addNote]

/-- The bridge once whatever kept a routine from its result is queued as the result. -/
def refused (b : Bridge σ) (id : RoutineId) (caller : FrameId) :
    Except DispatchError Bool → Bridge σ
  | .ok _ => b
  | .error e => b.finish caller (b.routineName id) (.fault e.toFault)

theorem outbox_refused (b : Bridge σ) (id : RoutineId) (caller : FrameId)
    (r : Except DispatchError Bool) : (b.refused id caller r).outbox = b.outbox := by
  cases r <;> rfl

/-- A native call with enough operands runs its routine on them. -/
theorem call_of_operands {b : Bridge σ} {m : Machine} {f : Frame} {below : List Frame}
    (hframes : m.frames = f :: below) {id : RoutineId} {r : Routine σ}
    (hget : b.registry.get? id = some r) (harity : ¬f.stack.length < r.arity) (caller : FrameId) :
    call id caller m b =
      (((b.record (.dispatchStarted caller r.name id)).apply caller r
          (f.stack.take r.arity).reverse).1,
        { m with frames := { f with stack := f.stack.drop r.arity } :: below },
        ((b.record (.dispatchStarted caller r.name id)).apply caller r
          (f.stack.take r.arity).reverse).2) := by
  simp only [call, hget, popArguments_eq hframes, if_neg harity]

/-- A native call that is over at once does no more than queue its result. -/
theorem call_settled {b : Bridge σ} {m : Machine} {f : Frame} {below : List Frame}
    (hframes : m.frames = f :: below) {id : RoutineId} (caller : FrameId)
    {result : DispatchResult} {notes : List Note} {spent : Nat} {rest : List Value}
    (hintake : b.registry.intake id f.stack = (.settled result notes spent, rest)) :
    ∃ r b', call id caller m b = (r, { m with frames := { f with stack := rest } :: below }, b') ∧
      r ≠ .ok true ∧
      b'.refused id caller r =
        { b.taken id caller result notes spent with
          completions := b.completions ++ [⟨caller, result⟩] } := by
  have herror : ∀ e : DispatchError, (.error e : Except DispatchError Bool) ≠ .ok true := by
    intro e he
    cases he
  have hfalse : (.ok false : Except DispatchError Bool) ≠ .ok true := by
    intro he
    cases he
  rw [Registry.intake] at hintake
  cases hget : b.registry.get? id with
  | none =>
      rw [hget] at hintake
      cases hintake
      refine ⟨.error (.unknownRoutine id), b, by simp [call, hget, ← hframes], herror _, ?_⟩
      simp [refused, finish, routineName, hget, taken, startEvents, Journal.recordAll, record]
  | some r =>
      rw [hget] at hintake
      simp only at hintake
      by_cases harity : f.stack.length < r.arity
      · rw [if_pos harity] at hintake
        cases hintake
        refine ⟨.error (.arity r.name r.arity f.stack.length),
          b.record (.dispatchStarted caller r.name id),
          by simp [call, hget, popArguments_eq hframes, harity], herror _, ?_⟩
        simp [refused, finish, routineName, hget, taken, startEvents, Journal.recordAll, record]
      · rw [if_neg harity, Routine.intake] at hintake
        rw [call_of_operands hframes hget harity, apply]
        cases hbody : r.body with
        | sync run =>
            cases hread : Arguments.read r.params (f.stack.take r.arity).reverse with
            | error e =>
                simp only [hbody, hread, Prod.mk.injEq, Intake.settled.injEq] at hintake
                obtain ⟨⟨rfl, rfl, rfl⟩, rfl⟩ := hintake
                refine ⟨_, _, rfl, herror _, ?_⟩
                simp [refused, finish, routineName, hget, taken, startEvents, Journal.recordAll,
                  record]
            | ok xs =>
                simp only [hbody, hread, Prod.mk.injEq, Intake.settled.injEq] at hintake
                obtain ⟨⟨rfl, rfl, rfl⟩, rfl⟩ := hintake
                cases hrun : (run xs).2 with
                | ok d =>
                    refine ⟨.ok false, _, by simp only [hrun]; rfl, hfalse, ?_⟩
                    simp [refused, foldl_addNote, deliverable, finish, routineName, hget, taken,
                      startEvents, Journal.recordAll, record]
                | error e =>
                    refine ⟨.error (.failed r.name e), _, by simp only [hrun]; rfl, herror _, ?_⟩
                    simp [refused, foldl_addNote, deliverable, finish, routineName, hget, taken,
                      startEvents, Journal.recordAll, record]
        | suspending start =>
            cases hread : Arguments.read r.params (f.stack.take r.arity).reverse with
            | error e =>
                simp only [hbody, hread, Prod.mk.injEq, Intake.settled.injEq] at hintake
                obtain ⟨⟨rfl, rfl, rfl⟩, rfl⟩ := hintake
                refine ⟨_, _, rfl, herror _, ?_⟩
                simp [refused, finish, routineName, hget, taken, startEvents, Journal.recordAll,
                  record]
            | ok xs => simp [hbody, hread] at hintake

/-- A flush of one result. -/
theorem flush_result {b : Bridge σ} {m : Machine} {c : Completion} (hfatal : b.fatal = none)
    (houtbox : b.outbox = []) (hcompletions : b.completions = [c])
    (hcaller : m.hasFrame c.caller = true) :
    flush m b = (.ok (), m.answer c.caller (some c.result), { b with completions := [] }) := by
  cases b
  subst hfatal houtbox hcompletions
  simp only [flush, loadAll, deliverAll]
  rw [deliver_eq hcaller]

/-- A native call that is over at once: its result reaches the current frame. -/
theorem dispatch_settled {b : Bridge σ} (hquiet : b.Quiet) {m : Machine} {f : Frame}
    {below : List Frame} (hframes : m.frames = f :: below) (hbelow : ∀ g ∈ below, g.id ≠ f.id)
    {id : RoutineId} {result : DispatchResult} {notes : List Note} {spent : Nat} {rest : List Value}
    (hintake : b.registry.intake id f.stack = (.settled result notes spent, rest)) :
    dispatch id f.id m b =
      (.ok (), { m with frames := ({ f with stack := rest } : Frame).receive result :: below },
        b.taken id f.id result notes spent) := by
  obtain ⟨r, b', hcall, hr, hrefused⟩ := call_settled hframes f.id hintake
  rw [hquiet.completions, List.nil_append] at hrefused
  have hdispatch : dispatch id f.id m b =
      flush { m with frames := { f with stack := rest } :: below } (b'.refused id f.id r) := by
    rw [dispatch, hcall]
    cases r with
    | error e => rfl
    | ok waits =>
        cases waits with
        | false => rfl
        | true => exact absurd rfl hr
  rw [hdispatch, hrefused]
  refine (flush_result (m := { m with frames := { f with stack := rest } :: below })
    (b := { b.taken id f.id result notes spent with completions := [⟨f.id, result⟩] })
    hquiet.fatal hquiet.outbox rfl (Machine.hasFrame_iff.2 ⟨_, List.mem_cons_self, rfl⟩)).trans ?_
  have htop := Machine.mapFrame_top (m := { m with frames := { f with stack := rest } :: below })
    rfl hbelow (·.receive result)
  simp only [Machine.answer]
  rw [htop]
  simp only [taken, ← hquiet.completions]

/-- Starting a routine drives its task once. -/
theorem start_restrained {b : Bridge σ} {keep : σ → Prop} (hkeep : b.registry.KeepsTo keep)
    (htasks : ∀ y ∈ b.tasks, y.id < b.nextTask) (caller : FrameId) (routine : String) {s : σ}
    (hs : keep s) :
    let x : Task σ := { id := b.nextTask, caller, routine, activity := .idle s }
    let tr := (b.registry.poll s).transcript b.futures.outcome? b.library b.nextTask caller
      b.futures.cells.size
    b.start caller routine s =
      ((tr.result? x).isNone,
        ({ b with nextTask := b.nextTask + 1 } : Bridge σ).driven [] x b.tasks tr) := by
  intro x tr
  have hne : ∀ y ∈ b.tasks, y.id ≠ b.nextTask := fun y hy => Nat.ne_of_lt (htasks y hy)
  have hlists : ({ b with nextTask := b.nextTask + 1, tasks := x :: b.tasks } : Bridge σ).Lists
      [] x b.tasks := ⟨rfl, hne⟩
  have hdrive := drive_restrained (fire b.nesting) hlists rfl rfl rfl rfl (hkeep.polls s hs)
  have hanswer := driven_tasks ({ b with nextTask := b.nextTask + 1 } : Bridge σ) (x :: b.tasks) []
    x b.tasks tr
  have hwaits : ((({ b with nextTask := b.nextTask + 1 } : Bridge σ).driven [] x b.tasks tr).task?
      b.nextTask).any (!·.activity.isOver) = (tr.result? x).isNone := by
    cases hr : tr.result? x with
    | some r =>
        have hnone : b.tasks.find? (·.id == b.nextTask) = none :=
          List.find?_eq_none.2 fun y hy => by simpa using hne y hy
        simp [driven, hr, task?, hnone]
    | none =>
        obtain ⟨⟨s', hpending⟩, -⟩ := Transcript.pending_of_result?_eq_none hr
        simp [driven, hr, task?, x, Transcript.waiting, hpending, Activity.isOver]
  rw [start]
  simp only [x, tr] at hdrive hanswer hwaits ⊢
  rw [hdrive, hanswer, hwaits]

/-- Up to its flush, a native call that starts a suspending routine drives its task once. -/
theorem call_begun {b : Bridge σ} {keep : σ → Prop} (hkeep : b.registry.KeepsTo keep)
    (htasks : ∀ y ∈ b.tasks, y.id < b.nextTask) {m : Machine} {f : Frame} {below : List Frame}
    (hframes : m.frames = f :: below) {id : RoutineId} {routine : String} {s : σ}
    {rest : List Value} (hintake : b.registry.intake id f.stack = (.begun routine s, rest)) :
    let x : Task σ := { id := b.nextTask, caller := f.id, routine, activity := .idle s }
    let tr := (b.registry.poll s).transcript b.futures.outcome? b.library b.nextTask f.id
      b.futures.cells.size
    call id f.id m b =
      (.ok (tr.result? x).isNone, { m with frames := { f with stack := rest } :: below },
        ({ b with
          journal := b.journal.recordAll (startEvents b.registry id f.id)
          nextTask := b.nextTask + 1 } : Bridge σ).driven [] x b.tasks tr) := by
  intro x tr
  obtain ⟨r, start, xs, hget, harity, hbody, hread, rfl, rfl, rfl⟩ :=
    Registry.begun_of_intake hintake
  let begun : Bridge σ := { b with journal := b.journal.recordAll (startEvents b.registry id f.id) }
  have hstart := start_restrained (b := begun) hkeep htasks f.id r.name (hkeep.keep_of_begun hintake)
  have hbegun : b.record (.dispatchStarted f.id r.name id) = begun := by
    simp [begun, startEvents, hget, Journal.recordAll, record]
  rw [call_of_operands hframes hget harity, hbegun, apply]
  simp only [hbody, hread]
  simp only at hstart
  rw [hstart]

/-- The bridge after a drive of the task `x` and the flush that follows, the first frame loaded being
`id`. -/
def reacted (b : Bridge σ) (pre : List (Task σ)) (x : Task σ) (post : List (Task σ))
    (tr : Transcript σ) (id : FrameId) : Bridge σ :=
  { (b.driven pre x post tr).loaded x.caller id b.futures.cells.size tr.programs with
    outbox := [], completions := [] }

/-- Everything that a drive and its flush change. -/
theorem reacted_eq (b : Bridge σ) (pre : List (Task σ)) (x : Task σ) (post : List (Task σ))
    (tr : Transcript σ) (id : FrameId) :
    b.reacted pre x post tr id =
      { b with
        futures := b.futures.extend tr.programs.length (tr.cell x.id)
        table := ⟨b.table.entries ++ entered id b.futures.cells.size tr.programs⟩
        tasks := tr.remaining pre x post
        notes := b.notes ++ tr.notes.toArray
        journal := (b.reacted pre x post tr id).journal
        outbox := []
        completions := [] } := by
  rw [reacted, driven, Transcript.remaining]
  cases tr.result? x <;> rfl

theorem futures_reacted (b : Bridge σ) (pre : List (Task σ)) (x : Task σ) (post : List (Task σ))
    (tr : Transcript σ) (id : FrameId) :
    (b.reacted pre x post tr id).futures = b.futures.extend tr.programs.length (tr.cell x.id) := by
  rw [reacted_eq]

theorem tasks_reacted (b : Bridge σ) (pre : List (Task σ)) (x : Task σ) (post : List (Task σ))
    (tr : Transcript σ) (id : FrameId) :
    (b.reacted pre x post tr id).tasks = tr.remaining pre x post := by
  rw [reacted_eq]

theorem notes_reacted (b : Bridge σ) (pre : List (Task σ)) (x : Task σ) (post : List (Task σ))
    (tr : Transcript σ) (id : FrameId) :
    (b.reacted pre x post tr id).notes = b.notes ++ tr.notes.toArray := by
  rw [reacted_eq]

section Reaction

variable {b : Bridge σ} (hquiet : b.Quiet) {m : Machine}
  (hentries : ∀ e ∈ b.table.entries, e.1 < m.nextFrame ∧ e.2 < b.futures.cells.size)

include hquiet hentries

theorem flush_driven (pre : List (Task σ)) (x : Task σ) (post : List (Task σ)) (tr : Transcript σ)
    (hcaller : m.hasFrame x.caller = true) :
    flush m (b.driven pre x post tr) =
      (.ok (), (m.loadAll tr.programs).answer x.caller (tr.result? x),
        b.reacted pre x post tr m.nextFrame) := by
  refine flush_eq x.caller b.futures.cells.size tr.programs (tr.result? x) ?_ ?_ ?_ ?_
    fun _ => hcaller
  · rw [driven]
    cases tr.result? x <;> exact hquiet.fatal
  · rw [driven]
    cases tr.result? x <;> simp [asked, finish, record, hquiet.outbox]
  · rw [driven]
    cases tr.result? x <;> simp [asked, finish, record, hquiet.completions]
  · rw [driven]
    cases tr.result? x <;> exact hentries

/-- A native call that starts a suspending routine. -/
theorem dispatch_begun {keep : σ → Prop} (hkeep : b.registry.KeepsTo keep)
    (htasks : ∀ y ∈ b.tasks, y.id < b.nextTask) {f : Frame} {below : List Frame}
    (hframes : m.frames = f :: below) (hbelow : ∀ g ∈ below, g.id ≠ f.id)
    (hblocked : f.blocked = false) {id : RoutineId} {routine : String} {s : σ} {rest : List Value}
    (hintake : b.registry.intake id f.stack = (.begun routine s, rest)) :
    let x : Task σ := { id := b.nextTask, caller := f.id, routine, activity := .idle s }
    let tr := (b.registry.poll s).transcript b.futures.outcome? b.library b.nextTask f.id
      b.futures.cells.size
    let waits : Frame := { f with stack := rest, blocked := (tr.result? x).isNone }
    dispatch id f.id m b =
      (.ok (),
        (({ m with frames := waits :: below } : Machine).loadAll tr.programs).answer f.id
          (tr.result? x),
        ({ b with
          journal := b.journal.recordAll (startEvents b.registry id f.id)
          nextTask := b.nextTask + 1 } : Bridge σ).reacted [] x b.tasks tr m.nextFrame) := by
  intro x tr waits
  have hcall := call_begun hkeep htasks hframes hintake
  have hcaller : ∀ blocked, ({ m with
      frames := { f with stack := rest, blocked } :: below } : Machine).hasFrame
        f.id = true := fun _ => Machine.hasFrame_iff.2 ⟨_, List.mem_cons_self, rfl⟩
  have hflush := fun blocked => flush_driven (b := { b with
      journal := b.journal.recordAll (startEvents b.registry id f.id)
      nextTask := b.nextTask + 1 })
    ⟨hquiet.fatal, hquiet.outbox, hquiet.completions⟩
    (m := { m with frames := { f with stack := rest, blocked } :: below })
    hentries [] x b.tasks tr (hcaller blocked)
  rw [dispatch, hcall]
  cases hr : tr.result? x with
  | some result =>
      have hwaits : waits = { f with stack := rest, blocked := f.blocked } := by
        simp [waits, hr, hblocked]
      simp only [hr] at hflush
      rw [hwaits]
      exact hflush f.blocked
  | none =>
      have hwaits : waits = { f with stack := rest, blocked := true } := by
        simp [waits, hr]
      have hblock : ({ m with frames := { f with stack := rest } :: below } : Machine).block f.id =
          .ok { m with frames := { f with stack := rest, blocked := true } :: below } := by
        have htop := Machine.mapFrame_top (m := { m with frames := { f with stack := rest } :: below })
          (f := { f with stack := rest }) rfl hbelow
        rw [Machine.block, Machine.modifyFrame_eq (hcaller f.blocked), htop]
      simp only [hr] at hflush
      simp only [Option.isNone_none, hblock]
      rw [hwaits]
      exact hflush true

end Reaction

/-! ### The end of a frame -/

theorem flush_quiet {b : Bridge σ} (hquiet : b.Quiet) (m : Machine) :
    flush m b = (.ok (), m, b) := by
  obtain ⟨hfatal, houtbox, hcompletions⟩ := hquiet
  cases b
  subst hfatal houtbox hcompletions
  rfl

/-- The bridge after the end of the frame that the future `f` waited for, the other entries of the
table being `es`. -/
def closed (b : Bridge σ) (t : Teardown) (f : FutureId) (es : List (FrameId × FutureId)) :
    Bridge σ :=
  { b.record (.frameTornDown t.frame t.faulted) with
    table := ⟨es⟩
    futures := b.futures.resolved f t.outcome }

/-- The bridge when the end of a frame reaches its flush, and what the resolution was refused with. -/
def settled (b : Bridge σ) (t : Teardown) : Option FutureError × Bridge σ :=
  let b := b.record (.frameTornDown t.frame t.faulted)
  match b.table.remove t.frame with
  | (none, _) => (none, b)
  | (some f, table) => { b with table }.settle (fire b.nesting) f t.outcome

/-- An end whose resolution is granted is a flush away from what it comes to. -/
theorem complete_settled {b b' : Bridge σ} {t : Teardown} (h : b.settled t = (none, b'))
    (m : Machine) : complete t m b = flush m b' := by
  rw [settled] at h
  rw [complete]
  cases hremove : (b.record (.frameTornDown t.frame t.faulted)).table.remove t.frame with
  | mk found table =>
      rw [hremove] at h
      cases found with
      | none =>
          cases h
          rfl
      | some f =>
          dsimp only at h ⊢
          rw [h]

section Ended

variable {b : Bridge σ} {t : Teardown}

/-- The end of a frame that no invocation waits for. -/
theorem settled_unwaited (hframe : ∀ e ∈ b.table.entries, e.1 ≠ t.frame) :
    b.settled t = (none, b.record (.frameTornDown t.frame t.faulted)) := by
  have habsent : (b.record (.frameTornDown t.frame t.faulted)).table.remove t.frame =
      (none, b.table) := PendingTable.remove_absent hframe
  simp only [settled, habsent]

theorem complete_unwaited (hquiet : b.Quiet) (hframe : ∀ e ∈ b.table.entries, e.1 ≠ t.frame)
    (m : Machine) :
    complete t m b = (.ok (), m, b.record (.frameTornDown t.frame t.faulted)) := by
  rw [complete_settled (settled_unwaited hframe)]
  exact flush_quiet (b := b.record (.frameTornDown t.frame t.faulted))
    ⟨hquiet.fatal, hquiet.outbox, hquiet.completions⟩ m

variable {f : FutureId} {es : List (FrameId × FutureId)}
  (htable : b.table.entries = es ++ [(t.frame, f)]) (hes : ∀ e ∈ es, e.1 < t.frame)
  (hpending : (b.futures.get f).outcome = none)

include htable hes hpending

/-- The end of an invoked frame resolves its future and runs the continuation, up to the flush. -/
theorem settled_invoked :
    b.settled t =
      (none, match (b.futures.get f).waiting with
        | none => b.closed t f es
        | some k => fire b.nesting k (b.closed t f es)) := by
  have hremove : (b.record (.frameTornDown t.frame t.faulted)).table.remove t.frame =
      (some f, ⟨es⟩) := by
    have hentries : b.table = ⟨es ++ [(t.frame, f)]⟩ := by rw [← htable]
    simp only [record, hentries]
    exact PendingTable.remove_newest hes
  have hresolve : b.futures.resolve f t.outcome =
      .ok (b.futures.resolved f t.outcome, (b.futures.get f).waiting) := by
    rw [FutureStore.resolve, Cell.resolve, hpending]
    rfl
  simp only [settled, hremove, settle]
  simp only [record] at hresolve ⊢
  rw [hresolve]
  cases (b.futures.get f).waiting <;> rfl

/-- Only the future of a frame whose task, if there was one, is gone learns of the end. -/
theorem settled_unheard
    (hwaiting : ∀ k, (b.futures.get f).waiting = some k →
      ∃ id, k = .resume id ∧ ∀ y ∈ b.tasks, y.id ≠ id)
    (hnesting : b.nesting ≠ 0) : b.settled t = (none, b.closed t f es) := by
  rw [settled_invoked htable hes hpending]
  cases hk : (b.futures.get f).waiting with
  | none => rfl
  | some k =>
      obtain ⟨id, rfl, hid⟩ := hwaiting k hk
      obtain ⟨depth, hdepth⟩ := Nat.exists_eq_succ_of_ne_zero hnesting
      have hgone : (b.closed t f es).task? id = none :=
        List.find?_eq_none.2 fun y hy => by simpa using hid y hy
      simp only [hdepth, Nat.succ_eq_add_one, fire, hgone]

theorem complete_unheard (hquiet : b.Quiet)
    (hwaiting : ∀ k, (b.futures.get f).waiting = some k →
      ∃ id, k = .resume id ∧ ∀ y ∈ b.tasks, y.id ≠ id)
    (hnesting : b.nesting ≠ 0) (m : Machine) :
    complete t m b = (.ok (), m, b.closed t f es) := by
  rw [complete_settled (settled_unheard htable hes hpending hwaiting hnesting)]
  exact flush_quiet (b := b.closed t f es) ⟨hquiet.fatal, hquiet.outbox, hquiet.completions⟩ m

/-- A task that waits for the frame is resumed by its end and polled once. -/
theorem settled_resumes {keep : σ → Prop} (hkeep : b.registry.KeepsTo keep)
    {pre post : List (Task σ)} {y : Task σ} {s : σ} (hlists : b.Lists pre y post)
    (hidle : y.activity = .idle s) (hs : keep s) (hissued : y.issued = [])
    (hlisted : y.listed = true) (hdrives : y.drives = 0)
    (hwaiting : (b.futures.get f).waiting = some (.resume y.id)) (hnesting : b.nesting ≠ 0) :
    let y' : Task σ := { y with outstanding := y.outstanding - 1 }
    let tr := (b.registry.poll s).transcript (b.futures.resolved f t.outcome).outcome? b.library
      y.id y.caller b.futures.cells.size
    b.settled t =
      (none, ((b.closed t f es).record (.resumed y.caller y.routine)).driven pre y' post tr) := by
  intro y' tr
  rw [settled_invoked htable hes hpending, hwaiting]
  obtain ⟨depth, hdepth⟩ := Nat.exists_eq_succ_of_ne_zero hnesting
  let resumed := (b.closed t f es).record (.resumed y.caller y.routine)
  have hclosed : (b.closed t f es).Lists pre y post := ⟨hlists.tasks, hlists.only⟩
  have hresumed : ({ resumed with tasks := pre ++ y' :: post } : Bridge σ).Lists pre y' post :=
    hlists.replace rfl rfl
  have hdrive := drive_restrained (fire depth) hresumed hidle hissued hlisted hdrives
    (hkeep.polls s hs)
  have htr : (resumed.registry.poll s).transcript resumed.futures.outcome? resumed.library y'.id
      y'.caller resumed.futures.cells.size = tr := by
    simp only [resumed, record, closed, y', tr, FutureStore.size_resolved]
  rw [htr, driven_tasks] at hdrive
  simp only [hdepth, Nat.succ_eq_add_one, fire, hclosed.task?, hclosed.modifyTask]
  simp only [record, resumed, y'] at hdrive ⊢
  rw [hdrive]

theorem complete_resumes (hquiet : b.Quiet) {keep : σ → Prop} (hkeep : b.registry.KeepsTo keep)
    {pre post : List (Task σ)} {y : Task σ} {s : σ} (hlists : b.Lists pre y post)
    (hidle : y.activity = .idle s) (hs : keep s) (hissued : y.issued = [])
    (hlisted : y.listed = true) (hdrives : y.drives = 0)
    (hwaiting : (b.futures.get f).waiting = some (.resume y.id)) (hnesting : b.nesting ≠ 0)
    {m : Machine} (hentries : ∀ e ∈ es, e.1 < m.nextFrame ∧ e.2 < b.futures.cells.size)
    (hcaller : m.hasFrame y.caller = true) :
    let y' : Task σ := { y with outstanding := y.outstanding - 1 }
    let tr := (b.registry.poll s).transcript (b.futures.resolved f t.outcome).outcome? b.library
      y.id y.caller b.futures.cells.size
    complete t m b =
      (.ok (), (m.loadAll tr.programs).answer y.caller (tr.result? y'),
        ((b.closed t f es).record (.resumed y.caller y.routine)).reacted pre y' post tr
          m.nextFrame) := by
  intro y' tr
  rw [complete_settled (settled_resumes htable hes hpending hkeep hlists hidle hs hissued hlisted
    hdrives hwaiting hnesting)]
  exact flush_driven (b := (b.closed t f es).record (.resumed y.caller y.routine))
    ⟨hquiet.fatal, hquiet.outbox, hquiet.completions⟩
    (fun e he => ⟨(hentries e he).1,
      Nat.lt_of_lt_of_eq (hentries e he).2 (FutureStore.size_resolved _ _ _).symm⟩)
    pre y' post tr hcaller

end Ended

end Bridge

end Reentrant
