import Reentrant.Proofs.PollTranscript

/-!
One drive of a task, from the transcript of its poll. A drive never runs a continuation when the poll
is restrained: the futures it makes are pending when the task starts to wait for them. Either the
task's result is queued and the task is forgotten, or the task waits for every program it asked for.
-/

namespace Reentrant

variable {σ : Type}

/-- The cell of a pending future whose end resumes task `t`. -/
def Cell.awaited (t : TaskId) : Cell Continuation :=
  { waiting := some (.resume t), registered := true }

namespace Transcript

/-- The cells of the futures of a poll of task `t`: they are waited for only if the poll is pending. -/
def cell (tr : Transcript σ) (t : TaskId) : Cell Continuation :=
  match tr.answer with
  | .ready _ => {}
  | .pending _ => .awaited t

/-- What the poll makes of the task `x`: a result, or `none` if the task goes on waiting. A pending
task that waits for nothing has stalled. -/
def result? (tr : Transcript σ) (x : Task σ) : Option DispatchResult :=
  match tr.answer with
  | .ready r => some (Bridge.deliverable x.routine r)
  | .pending _ =>
      if x.outstanding + tr.programs.length = 0 then some (.fault (.stalled x.routine)) else none

/-- The task `x` as it waits after the poll. -/
def waiting (tr : Transcript σ) (x : Task σ) : Task σ :=
  { x with
    activity := match tr.answer with
      | .ready _ => x.activity
      | .pending s => .idle s
    outstanding := x.outstanding + tr.programs.length }

/-- The tasks after the poll of `x`, which stood between `pre` and `post`. -/
def remaining (tr : Transcript σ) (pre : List (Task σ)) (x : Task σ) (post : List (Task σ)) :
    List (Task σ) :=
  match tr.result? x with
  | some _ => pre ++ post
  | none => pre ++ tr.waiting x :: post

theorem result?_of_ready {tr : Transcript σ} {r : Except RoutineError DispatchResult}
    (ha : tr.answer = .ready r) (x : Task σ) :
    tr.result? x = some (Bridge.deliverable x.routine r) := by
  rw [result?, ha]

theorem result?_of_pending {tr : Transcript σ} {s : σ} (ha : tr.answer = .pending s)
    (x : Task σ) :
    tr.result? x =
      if x.outstanding + tr.programs.length = 0 then some (.fault (.stalled x.routine))
      else none := by
  rw [result?, ha]

theorem outcome_cell (tr : Transcript σ) (t : TaskId) : (tr.cell t).outcome = none := by
  rw [cell]
  cases tr.answer <;> rfl

/-- The end of a new future resumes no task but the polled one. -/
theorem waiting_cell {tr : Transcript σ} {t : TaskId} {k : Continuation}
    (h : (tr.cell t).waiting = some k) : k = .resume t := by
  rw [cell] at h
  cases ha : tr.answer with
  | ready r =>
      rw [ha] at h
      cases h
  | pending s =>
      rw [ha] at h
      exact (Option.some.inj h).symm

/-- A task goes on waiting only if its poll is pending, and then for at least one program. -/
theorem pending_of_result?_eq_none {tr : Transcript σ} {x : Task σ} (hr : tr.result? x = none) :
    (∃ s, tr.answer = .pending s) ∧ 0 < x.outstanding + tr.programs.length := by
  cases ha : tr.answer with
  | ready r =>
      rw [result?_of_ready ha] at hr
      cases hr
  | pending s =>
      rw [result?_of_pending ha] at hr
      refine ⟨⟨s, rfl⟩, Nat.pos_of_ne_zero fun hzero => ?_⟩
      rw [if_pos hzero] at hr
      cases hr

end Transcript

namespace FutureStore

variable {κ : Type}

/-- Setting the first of the appended cells. -/
theorem set_extend_succ (s : FutureStore κ) (n : Nat) (c d : Cell κ) :
    (s.extend (n + 1) c).set s.cells.size d = (s.extend 1 d).extend n c := by
  simp only [set, extend, FutureStore.mk.injEq, Array.append_assoc]
  rw [Array.setIfInBounds_append_right (Nat.le_refl _), Nat.sub_self, Nat.add_comm n 1,
    ← Array.replicate_append_replicate, Array.setIfInBounds_append_left (by simp)]
  rfl

end FutureStore

namespace Bridge

/-! ### Waiting for fresh futures -/

/-- A task that starts to wait for the futures it has just made runs nothing. -/
theorem awaitAll_fresh (fire : Continuation → Bridge σ → Bridge σ) {pre post : List (Task σ)}
    (n : Nat) {b : Bridge σ} {x : Task σ} (s : FutureStore Continuation)
    (h : b.Lists pre x post) (hfutures : b.futures = s.extend n {}) :
    b.awaitAll fire x.id (List.range' s.cells.size n) =
      (.ok (), { b with
        futures := s.extend n (.awaited x.id)
        tasks := pre ++ { x with outstanding := x.outstanding + n } :: post }) := by
  induction n generalizing b x s with
  | zero =>
      rw [List.range'_zero, awaitAll]
      rw [FutureStore.extend_zero] at hfutures
      simp [← hfutures, ← h.tasks]
  | succ n ih =>
      have hget : (s.extend (n + 1) {}).get s.cells.size = {} :=
        FutureStore.get_extend_of_ge s (n + 1) {} (Nat.le_refl _) (by omega)
      have hregister : b.futures.register s.cells.size (.resume x.id) =
          .ok ((s.extend 1 (.awaited x.id)).extend n {}, none) := by
        rw [hfutures, FutureStore.register, hget, ← FutureStore.set_extend_succ]
        rfl
      have hlists : ({ b with
          futures := (s.extend 1 (.awaited x.id)).extend n {}
          tasks := pre ++ { x with outstanding := x.outstanding + 1 } :: post } : Bridge σ).Lists
            pre { x with outstanding := x.outstanding + 1 } post := h.replace rfl rfl
      have hrest := ih (s.extend 1 (.awaited x.id)) hlists rfl
      rw [FutureStore.size_extend, FutureStore.extend_succ] at hrest
      simp only [List.range'_succ, awaitAll, h.modifyTask, attach, hregister]
      rw [hrest]
      simp only [Nat.add_assoc, Nat.add_comm 1 n]

/-! ### One drive -/

/-- What a poll of the task `x` asks for, with the cells that it leaves behind. -/
def asked (b : Bridge σ) (x : Task σ) (tr : Transcript σ) : Bridge σ :=
  { b with
    futures := b.futures.extend tr.programs.length (tr.cell x.id)
    outbox := b.outbox ++ invocations x.caller b.futures.cells.size tr.programs
    notes := b.notes ++ tr.notes.toArray }

/-- The bridge after a drive of the task `x`, which stood between `pre` and `post`. -/
def driven (b : Bridge σ) (pre : List (Task σ)) (x : Task σ) (post : List (Task σ))
    (tr : Transcript σ) : Bridge σ :=
  match tr.result? x with
  | some r => { (b.asked x tr).finish x.caller x.routine r with tasks := pre ++ post }
  | none => { b.asked x tr with tasks := pre ++ tr.waiting x :: post }

/-- Only the tasks beside the driven one matter. -/
theorem driven_tasks (b : Bridge σ) (tasks pre : List (Task σ)) (x : Task σ)
    (post : List (Task σ)) (tr : Transcript σ) :
    ({ b with tasks } : Bridge σ).driven pre x post tr = b.driven pre x post tr := by
  rw [driven, driven]
  cases tr.result? x <;> rfl

theorem outbox_driven (b : Bridge σ) (pre : List (Task σ)) (x : Task σ) (post : List (Task σ))
    (tr : Transcript σ) :
    (b.driven pre x post tr).outbox =
      b.outbox ++ invocations x.caller b.futures.cells.size tr.programs := by
  rw [driven]
  cases tr.result? x <;> rfl

theorem filter_of_ne {l : List (Task σ)} {t : TaskId} (hl : ∀ y ∈ l, y.id ≠ t)
    (p : Task σ → Bool) : (l.filter fun y => y.id != t || p y) = l :=
  List.filter_eq_self.2 fun y hy => by simp [hl y hy]

/-- Forgetting a task, if nobody waits for it any more. -/
theorem release_lists {b : Bridge σ} {pre post : List (Task σ)} {x : Task σ}
    (h : b.Lists pre x post) (hdrives : x.drives = 1) :
    b.release x.id =
      { b with tasks := pre ++ (if x.listed then [{ x with drives := 0 }] else []) ++ post } := by
  simp only [release, h.modifyTask, hdrives, Nat.sub_self]
  congr 1
  simp only [List.filter_append, List.filter_cons, Bool.or_assoc, filter_of_ne h.pre_ne,
    filter_of_ne h.post_ne]
  cases x.listed <;> simp

/-- Queueing the result of the task `x`. -/
theorem conclude_lists {b : Bridge σ} {pre post : List (Task σ)} {x : Task σ}
    (h : b.Lists pre x post) (task : Task σ) (hid : task.id = x.id) (r : DispatchResult) :
    b.conclude task r =
      { b.finish task.caller task.routine r with
        tasks := pre ++ { x with activity := .over, listed := false } :: post } := by
  have hlists : (b.finish task.caller task.routine r).Lists pre x post := ⟨h.tasks, h.only⟩
  rw [conclude, hid, hlists.modifyTask]

theorem checkStalled_lists {b : Bridge σ} {pre post : List (Task σ)} {x : Task σ}
    (h : b.Lists pre x post) (task : Task σ) (hid : task.id = x.id) :
    b.checkStalled task =
      if x.outstanding = 0 then b.conclude task (.fault (.stalled task.routine)) else b := by
  rw [checkStalled, hid, h.task?]
  simp only [Option.any_some, beq_iff_eq]

section FollowUp

variable (fire : Continuation → Bridge σ → Bridge σ) {b : Bridge σ} {pre post : List (Task σ)}
  {x : Task σ} (h : b.Lists pre x post) (task : Task σ) (hid : task.id = x.id)

include h hid

theorem followUp_ready (r : Except RoutineError DispatchResult) :
    followUp fire task (.ready r) b =
      (.ok (), { b.finish task.caller task.routine (deliverable task.routine r) with
        tasks := pre ++ { x with issued := [], activity := .over, listed := false } :: post }) := by
  have hcleared : ({ b with tasks := pre ++ { x with issued := [] } :: post } : Bridge σ).Lists
      pre { x with issued := [] } post := h.replace rfl rfl
  simp only [followUp, hid, h.modifyTask]
  rw [conclude_lists hcleared task hid]
  rfl

variable (s : FutureStore Continuation) {n : Nat} (hfutures : b.futures = s.extend n {})
  (hissued : x.issued = List.range' s.cells.size n)

include hfutures hissued

/-- A pending poll makes the task wait for its new futures; then it is checked for a stall. -/
theorem followUp_pending (state : σ) :
    followUp fire task (.pending state) b =
      (.ok (), checkStalled { b with
        futures := s.extend n (.awaited x.id)
        tasks := pre ++ { x with
          issued := [], activity := .idle state, outstanding := x.outstanding + n } :: post }
        task) := by
  have hcleared : ({ b with tasks := pre ++ { x with issued := [] } :: post } : Bridge σ).Lists
      pre { x with issued := [] } post := h.replace rfl rfl
  have hidle : ({ b with
      tasks := pre ++ { x with issued := [], activity := .idle state } :: post } :
        Bridge σ).Lists pre { x with issued := [], activity := .idle state } post :=
    h.replace rfl rfl
  have hawait := awaitAll_fresh fire n s hidle hfutures
  simp only at hawait
  simp only [followUp, hid, h.task?, h.modifyTask, hcleared.modifyTask, hissued, Option.map_some,
    Option.getD_some, hawait]

end FollowUp

/-- A drive of a waiting task whose poll is restrained. -/
theorem drive_restrained (fire : Continuation → Bridge σ → Bridge σ) {keep : σ → Prop}
    {b : Bridge σ} {pre post : List (Task σ)} {x : Task σ} {s : σ} (h : b.Lists pre x post)
    (hidle : x.activity = .idle s) (hissued : x.issued = []) (hlisted : x.listed = true)
    (hdrives : x.drives = 0) (hpoll : (b.registry.poll s).Restrained keep) :
    b.drive fire x.id =
      (.ok (), b.driven pre x post ((b.registry.poll s).transcript b.futures.outcome? b.library
        x.id x.caller b.futures.cells.size)) := by
  generalize htr : (b.registry.poll s).transcript b.futures.outcome? b.library x.id x.caller
    b.futures.cells.size = tr
  have hrun : ({ b with
      tasks := pre ++ { x with activity := .running, drives := x.drives + 1 } :: post } :
        Bridge σ).Lists pre { x with activity := .running, drives := x.drives + 1 } post :=
    h.replace rfl rfl
  have hconverse := converse_restrained fire hpoll hrun
  simp only [htr] at hconverse
  have hgranted : (({ b with
      tasks := pre ++ { x with activity := .running, drives := x.drives + 1 } :: post } :
        Bridge σ).granted pre { x with activity := .running, drives := x.drives + 1 } post
          tr).Lists pre { x with
            activity := .running
            drives := x.drives + 1
            issued := x.issued ++ List.range' b.futures.cells.size tr.programs.length } post :=
    h.replace rfl rfl
  simp only [drive, h.task?, hidle, h.modifyTask, hconverse]
  cases hanswer : tr.answer with
  | ready r =>
      rw [followUp_ready fire hgranted x rfl r]
      refine Prod.ext rfl ?_
      refine (release_lists (x := { x with
          activity := .over, issued := [], listed := false, drives := x.drives + 1 })
        ⟨rfl, h.only⟩ (by rw [hdrives])).trans ?_
      rw [driven, Transcript.result?_of_ready hanswer]
      simp [Transcript.cell, hanswer, asked, granted, finish, record]
  | pending state =>
      rw [followUp_pending fire hgranted x rfl b.futures rfl (by rw [hissued]; rfl) state]
      refine Prod.ext rfl ?_
      have hwaits : ({ b.granted pre { x with activity := .running, drives := x.drives + 1 } post
            tr with
          futures := b.futures.extend tr.programs.length (.awaited x.id)
          tasks := pre ++ { x with
            activity := .idle state
            issued := []
            outstanding := x.outstanding + tr.programs.length
            drives := x.drives + 1 } :: post } : Bridge σ).Lists pre { x with
              activity := .idle state
              issued := []
              outstanding := x.outstanding + tr.programs.length
              drives := x.drives + 1 } post := ⟨rfl, h.only⟩
      refine (congrArg (release · x.id) (checkStalled_lists hwaits x rfl)).trans ?_
      by_cases hstall : x.outstanding + tr.programs.length = 0
      · rw [if_pos hstall, conclude_lists hwaits x rfl]
        refine (release_lists (x := { x with
            activity := .over
            issued := []
            outstanding := x.outstanding + tr.programs.length
            listed := false
            drives := x.drives + 1 }) ⟨rfl, h.only⟩ (by rw [hdrives])).trans ?_
        rw [driven, Transcript.result?_of_pending hanswer, if_pos hstall]
        simp [Transcript.cell, hanswer, asked, granted, finish, record]
      · rw [if_neg hstall]
        refine (release_lists (x := { x with
            activity := .idle state
            issued := []
            outstanding := x.outstanding + tr.programs.length
            drives := x.drives + 1 }) ⟨rfl, h.only⟩ (by rw [hdrives])).trans ?_
        rw [driven, Transcript.result?_of_pending hanswer, if_neg hstall]
        simp [Transcript.cell, Transcript.waiting, hanswer, asked, granted, hissued, hlisted,
          hdrives]

end Bridge

end Reentrant
