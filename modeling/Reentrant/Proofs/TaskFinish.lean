import Reentrant.Builtin
import Reentrant.Proofs.FuturePlay

/-!
How often a suspended routine finishes, whatever the routines' polls ask for. A poll may run further
continuations inside itself, and so may the registration of a continuation with a future that is
resolved by then. As long as none of a task's own invocations is resolved when its poll is followed
up, the task finishes at most once, and as stalled only when no future is left that would resume it.
-/

namespace Reentrant

variable {σ : Type}

/-! ### Continuations that wait for a task -/

namespace FutureStore

/-- How many futures will resume the task `t`. -/
def waitingFor (s : FutureStore Continuation) (t : TaskId) : Nat :=
  s.cells.toList.countP fun c => decide (c.waiting = some (.resume t))

/-- How the number changes when one cell is written. -/
theorem waitingFor_set (s : FutureStore Continuation) {f : FutureId} (hf : f < s.cells.size)
    (c : Cell Continuation) (t : TaskId) :
    (s.set f c).waitingFor t + (if (s.get f).waiting = some (.resume t) then 1 else 0) =
      s.waitingFor t + (if c.waiting = some (.resume t) then 1 else 0) := by
  have hlength : f < s.cells.toList.length := hf
  have hget : s.cells.toList[f] = s.get f := by
    rw [get, Array.getElem?_eq_getElem hf, Option.getD_some, Array.getElem_toList]
  have hle : (if (s.get f).waiting = some (.resume t) then 1 else 0) ≤ s.waitingFor t := by
    split
    · next hwaiting =>
        refine List.countP_pos_iff.2 ⟨s.get f, ?_, decide_eq_true hwaiting⟩
        rw [← hget]
        exact List.getElem_mem hlength
    · exact Nat.zero_le _
  rw [waitingFor, set, Array.toList_setIfInBounds, List.countP_set hlength, hget]
  simp only [decide_eq_true_eq]
  rw [waitingFor] at hle ⊢
  omega

theorem waitingFor_create (s : FutureStore Continuation) (t : TaskId) :
    s.create.2.waitingFor t = s.waitingFor t := by
  simp [create, waitingFor]

/-- A registered continuation waits, and no other does that did not before. -/
theorem waitingFor_register {s s' : FutureStore Continuation} {f : FutureId} {k : Continuation}
    {run : Option Continuation} (h : s.register f k = .ok (s', run)) (t : TaskId) :
    s'.waitingFor t + (if run = some (.resume t) then 1 else 0) ≤
      s.waitingFor t + (if k = .resume t then 1 else 0) := by
  rcases s.register_cases f k with ⟨-, heq⟩ | ⟨-, ⟨-, heq⟩ | ⟨o, -, heq⟩⟩
  · rw [heq] at h
    cases h
  · rw [heq] at h
    cases h
    rcases Nat.lt_or_ge f s.cells.size with hf | hf
    · have hset := s.waitingFor_set hf { s.get f with registered := true, waiting := some k } t
      simp only [Option.some.injEq] at hset
      simp only [reduceCtorEq, if_false]
      omega
    · rw [s.set_of_ge hf]
      simp only [reduceCtorEq, if_false]
      omega
  · rw [heq] at h
    cases h
    simp only [Option.some.injEq]
    rcases Nat.lt_or_ge f s.cells.size with hf | hf
    · have hset := s.waitingFor_set hf { s.get f with registered := true } t
      simp only at hset
      omega
    · have hsame := s.set_of_ge hf { s.get f with registered := true }
      exact Nat.le_of_eq (by rw [hsame])

/-- A continuation that a resolution hands out does not wait any more. -/
theorem waitingFor_resolve {s s' : FutureStore Continuation} {f : FutureId} {o : Outcome}
    {run : Option Continuation} (h : s.resolve f o = .ok (s', run)) (t : TaskId) :
    s'.waitingFor t + (if run = some (.resume t) then 1 else 0) = s.waitingFor t := by
  rcases s.resolve_cases f o with ⟨-, heq⟩ | ⟨held, -, heq⟩
  · rw [heq] at h
    cases h
    rcases Nat.lt_or_ge f s.cells.size with hf | hf
    · have hset := s.waitingFor_set hf { s.get f with outcome := some o, waiting := none } t
      simp only [reduceCtorEq, if_false] at hset
      omega
    · rw [s.set_of_ge hf, s.get_of_ge hf]
      rfl
  · rw [heq] at h
    cases h

end FutureStore

namespace Bridge

/-- No task has more futures that will resume it than it counts as outstanding. -/
def Counted (b : Bridge σ) : Prop := ∀ x ∈ b.tasks, b.futures.waitingFor x.id ≤ x.outstanding

/-- A task that the continuation resumes counts more than the futures that wait. -/
def Due (k : Continuation) (b : Bridge σ) : Prop :=
  ∀ x ∈ b.tasks, k = .resume x.id → b.futures.waitingFor x.id < x.outstanding

namespace Counted

theorem of_futures {b b' : Bridge σ} (h : b.Counted) (htasks : b'.tasks = b.tasks)
    (hfutures : b'.futures = b.futures) : b'.Counted := by
  intro x hx
  rw [hfutures]
  exact h x (htasks ▸ hx)

theorem modifyTask {b : Bridge σ} (h : b.Counted) (t : TaskId) (change : Task σ → Task σ)
    (hid : ∀ x, (change x).id = x.id) (hout : ∀ x, x.outstanding ≤ (change x).outstanding) :
    (b.modifyTask t change).Counted := by
  intro x hx
  obtain ⟨y, hy, rfl⟩ := List.mem_map.1 hx
  have hcounted := h y hy
  by_cases hyt : y.id = t
  · rw [if_pos hyt, hid]
    exact Nat.le_trans hcounted (hout y)
  · rw [if_neg hyt]
    exact hcounted

section Firing

variable {fire : Continuation → Bridge σ → Bridge σ}
  (hfire : ∀ k b, b.Counted → b.Due k → (fire k b).Counted)

include hfire

theorem settle {b : Bridge σ} (h : b.Counted) (f : FutureId) (o : Outcome) :
    (b.settle fire f o).2.Counted := by
  rw [Bridge.settle]
  split
  · exact h
  · next futures hresolve =>
      intro x hx
      have hwaiting := FutureStore.waitingFor_resolve hresolve x.id
      have hcounted := h x hx
      simp only at hwaiting ⊢
      omega
  · next futures k hresolve =>
      refine hfire k _ (fun x hx => ?_) (fun x hx hk => ?_)
      · have hwaiting := FutureStore.waitingFor_resolve hresolve x.id
        have hcounted := h x hx
        simp only
        omega
      · have hwaiting := FutureStore.waitingFor_resolve hresolve x.id
        have hcounted := h x hx
        rw [if_pos (congrArg some hk)] at hwaiting
        simp only
        omega

theorem attach {b : Bridge σ} (h : b.Counted) (f : FutureId) {k : Continuation} (hk : b.Due k) :
    (b.attach fire f k).2.Counted := by
  have hroom : ∀ x ∈ b.tasks,
      b.futures.waitingFor x.id + (if k = .resume x.id then 1 else 0) ≤ x.outstanding := by
    intro x hx
    split
    · next hresume => exact hk x hx hresume
    · exact h x hx
  rw [Bridge.attach]
  split
  · exact h
  · next futures hregister =>
      intro x hx
      have hwaiting := FutureStore.waitingFor_register hregister x.id
      have hle := hroom x hx
      simp only at hwaiting ⊢
      omega
  · next futures k' hregister =>
      refine hfire k' _ (fun x hx => ?_) (fun x hx hk' => ?_)
      · have hwaiting := FutureStore.waitingFor_register hregister x.id
        have hle := hroom x hx
        simp only
        omega
      · have hwaiting := FutureStore.waitingFor_register hregister x.id
        have hle := hroom x hx
        rw [if_pos (congrArg some hk')] at hwaiting
        simp only
        omega

end Firing

theorem issue {b : Bridge σ} (h : b.Counted) (t : TaskId) (caller : FrameId) (p : Program) :
    (b.issue t caller p).2.Counted := by
  refine modifyTask (fun x hx => ?_) t _ (fun _ => rfl) (fun _ => Nat.le_refl _)
  show b.futures.create.2.waitingFor x.id ≤ x.outstanding
  rw [FutureStore.waitingFor_create]
  exact h x hx

theorem invokeFor {b : Bridge σ} (h : b.Counted) (t : TaskId) (p : Program) :
    (b.invokeFor t p).2.Counted := by
  rw [Bridge.invokeFor]
  split
  · exact h.issue t _ p
  · intro x hx
    refine Nat.le_trans (Nat.le_of_eq ?_) (h x hx)
    -- the new future has failed already, and nothing waits for it
    rw [← FutureStore.waitingFor_create b.futures x.id]
    have hset := b.futures.create.2.waitingFor_set (f := b.futures.create.1)
      (by simp [FutureStore.create]) { outcome := some (.faulted .notInstalled) } x.id
    have hnew : b.futures.create.2.get b.futures.create.1 = {} := by
      simp [FutureStore.create, FutureStore.get]
    simpa [hnew] using hset

section Firing

variable {fire : Continuation → Bridge σ → Bridge σ}
  (hfire : ∀ k b, b.Counted → b.Due k → (fire k b).Counted)

include hfire

theorem callBack (c : Callback) {b : Bridge σ} (h : b.Counted) : (b.callBack fire c).Counted := by
  induction c generalizing b with
  | done => exact h
  | callerOf t k ih => exact ih _ h
  | invoke t p k ih => exact ih _ (h.invokeFor t p)
  | invokeNamed t name k ih =>
      rw [Bridge.callBack]
      split
      · exact ih _ h
      · next p hp => exact ih _ (h.invokeFor t p)
  | observe f k ih => exact ih _ h
  | resolve f o k ih => exact ih _ (h.settle hfire f o)
  | register f c k _ ih => exact ih _ (h.attach hfire f fun x hx hk => by cases hk)
  | note n k ih => exact ih (h.of_futures rfl rfl)

theorem converse (t : TaskId) (caller : FrameId) (p : Poll σ) {b : Bridge σ} (h : b.Counted) :
    (b.converse fire t caller p).2.Counted := by
  induction p generalizing b with
  | ready r => exact h
  | pending s => exact h
  | context k ih => exact ih t caller h
  | invoke p k ih => exact ih _ (h.issue t caller p)
  | invokeNamed name k ih =>
      rw [Bridge.converse]
      split
      · exact ih _ h
      · next p hp => exact ih _ (h.issue t caller p)
  | observe f k ih => exact ih _ h
  | resolve f o k ih => exact ih _ (h.settle hfire f o)
  | register f c k ih => exact ih _ (h.attach hfire f fun x hx hk => by cases hk)
  | note n k ih => exact ih (h.of_futures rfl rfl)

theorem awaitAll (t : TaskId) (fs : List FutureId) {b : Bridge σ} (h : b.Counted) :
    (b.awaitAll fire t fs).2.Counted := by
  induction fs generalizing b with
  | nil => exact h
  | cons f fs ih =>
      have hmore := h.modifyTask t (fun x => { x with outstanding := x.outstanding + 1 })
        (fun _ => rfl) (fun x => Nat.le_succ _)
      have hdue : (b.modifyTask t fun x => { x with outstanding := x.outstanding + 1 }).Due
          (.resume t) := by
        intro x hx hk
        obtain ⟨y, hy, rfl⟩ := List.mem_map.1 hx
        by_cases hyt : y.id = t
        · rw [if_pos hyt]
          exact Nat.lt_succ_of_le (h y hy)
        · rw [if_neg hyt] at hk
          exact absurd (Continuation.resume.inj hk).symm hyt
      have hattach := hmore.attach hfire f hdue
      rw [Bridge.awaitAll]
      split
      · next heq =>
          rw [heq] at hattach
          exact hattach
      · next heq =>
          rw [heq] at hattach
          exact ih hattach

end Firing

theorem conclude {b : Bridge σ} (h : b.Counted) (task : Task σ) (result : DispatchResult) :
    (b.conclude task result).Counted :=
  modifyTask (h.of_futures rfl rfl) task.id _ (fun _ => rfl) (fun _ => Nat.le_refl _)

theorem release {b : Bridge σ} (h : b.Counted) (t : TaskId) : (b.release t).Counted := by
  have hless := h.modifyTask t (fun x => { x with drives := x.drives - 1 }) (fun _ => rfl)
    (fun _ => Nat.le_refl _)
  exact fun x hx => hless x (List.mem_filter.1 hx).1

section Firing

variable {fire : Continuation → Bridge σ → Bridge σ}
  (hfire : ∀ k b, b.Counted → b.Due k → (fire k b).Counted)

include hfire

theorem followUp (task : Task σ) (answer : Answer σ) {b : Bridge σ} (h : b.Counted) :
    (b.followUp fire task answer).2.Counted := by
  have hissued : (b.modifyTask task.id fun x => { x with issued := [] }).Counted :=
    h.modifyTask task.id _ (fun _ => rfl) (fun _ => Nat.le_refl _)
  cases answer with
  | ready r => exact hissued.conclude task _
  | pending s =>
      have hidle := hissued.modifyTask task.id (fun x => { x with activity := .idle s })
        (fun _ => rfl) (fun _ => Nat.le_refl _)
      have hawait := hidle.awaitAll hfire task.id (((b.task? task.id).map (·.issued)).getD [])
      simp only [Bridge.followUp]
      split
      · next heq =>
          rw [heq] at hawait
          exact hawait
      · next heq =>
          rw [heq] at hawait
          rw [checkStalled]
          split
          · exact hawait.conclude task _
          · exact hawait

theorem drive (t : TaskId) {b : Bridge σ} (h : b.Counted) : (b.drive fire t).2.Counted := by
  rw [Bridge.drive]
  split
  · exact h
  · next task htask =>
      split
      · next s hs =>
          have hrunning := h.modifyTask t
            (fun x => { x with activity := .running, drives := x.drives + 1 })
            (fun _ => rfl) (fun _ => Nat.le_refl _)
          exact ((hrunning.converse hfire t task.caller _).followUp hfire task _).release t
      · exact h.of_futures rfl rfl
      · exact h

end Firing

/-- Whatever a continuation brings about, no more futures wait for a task than it counts. -/
theorem fire (depth : Nat) {k : Continuation} {b : Bridge σ} (h : b.Counted) (hk : b.Due k) :
    (fire depth k b).Counted := by
  induction depth generalizing k b with
  | zero => exact h.of_futures rfl rfl
  | succ depth ih =>
      cases k with
      | callback c => exact h.callBack (fun k b h hk => ih h hk) c
      | resume t =>
          rw [Bridge.fire]
          split
          · exact h
          · next task htask =>
              have hless : (b.modifyTask t fun x =>
                  { x with outstanding := x.outstanding - 1 }).Counted := by
                intro x hx
                obtain ⟨y, hy, rfl⟩ := List.mem_map.1 hx
                by_cases hyt : y.id = t
                · rw [if_pos hyt]
                  exact Nat.le_sub_one_of_lt (hk y hy (by rw [hyt]))
                · rw [if_neg hyt]
                  exact h y hy
              have hrecorded : ((b.modifyTask t fun x =>
                  { x with outstanding := x.outstanding - 1 }).record
                    (.resumed task.caller task.routine)).Counted := hless.of_futures rfl rfl
              have hdrive := hrecorded.drive (fun k b h hk => ih h hk) t
              simp only
              split
              · next heq =>
                  rw [heq] at hdrive
                  exact hdrive
              · next heq =>
                  rw [heq] at hdrive
                  exact hdrive.of_futures rfl rfl

end Counted

/-! ### What concerns one caller -/

end Bridge

/-- A routine that the frame `c` called finishes. -/
def Event.endsCallOf (c : FrameId) : Event → Bool
  | .routineFinished caller _ _ => caller == c
  | _ => false

/-- What a bridge holds for one frame: whether it records, the results queued for the frame, and the
recorded ends of routines that the frame called. -/
structure Told where
  recording : Bool
  queued : List Completion
  ends : List Event

/-- With one more result of a routine for the frame `c`, or none. -/
def Told.add (told : Told) (c : FrameId) (routine : String) (result : Option DispatchResult) :
    Told :=
  { told with
    queued := told.queued ++ result.toList.map (Completion.mk c)
    ends := told.ends ++
      if told.recording then result.toList.map (Event.routineFinished c routine) else [] }

@[simp] theorem Told.add_none (told : Told) (c : FrameId) (routine : String) :
    told.add c routine none = told := by
  simp [Told.add]

namespace Bridge

def toldTo (b : Bridge σ) (c : FrameId) : Told where
  recording := b.journal.enabled
  queued := b.completions.filter (·.caller == c)
  ends := b.journal.events.toList.filter (·.endsCallOf c)

theorem toldTo_record (b : Bridge σ) {e : Event} {c : FrameId} (he : e.endsCallOf c = false) :
    (b.record e).toldTo c = b.toldTo c := by
  rw [toldTo, toldTo, record, Journal.record]
  split
  · simp [he]
  · rfl

theorem toldTo_finish_self (b : Bridge σ) (c : FrameId) (routine : String)
    (result : DispatchResult) :
    (b.finish c routine result).toldTo c = (b.toldTo c).add c routine (some result) := by
  by_cases henabled : b.journal.enabled = true <;>
    simp [toldTo, finish, record, Journal.record, Told.add, Event.endsCallOf, henabled]

theorem toldTo_finish_of_ne (b : Bridge σ) {c caller : FrameId} (hne : caller ≠ c)
    (routine : String) (result : DispatchResult) :
    (b.finish caller routine result).toldTo c = b.toldTo c := by
  have hend : (Event.routineFinished caller routine result).endsCallOf c = false :=
    beq_eq_false_iff_ne.2 hne
  rw [← toldTo_record b hend, toldTo, toldTo, finish, List.filter_append]
  simp [hne, record]

/-- No task but `t` has the caller `c`. -/
def OnlyTask (t : TaskId) (c : FrameId) (b : Bridge σ) : Prop :=
  ∀ x ∈ b.tasks, x.id ≠ t → x.caller ≠ c

theorem OnlyTask.modifyTask {t : TaskId} {c : FrameId} {b : Bridge σ} (h : b.OnlyTask t c)
    (t' : TaskId) (change : Task σ → Task σ) (hid : ∀ x, (change x).id = x.id)
    (hcaller : ∀ x, (change x).caller = x.caller) : (b.modifyTask t' change).OnlyTask t c := by
  intro x hx
  obtain ⟨y, hy, rfl⟩ := List.mem_map.1 hx
  by_cases hyt : y.id = t'
  · rw [if_pos hyt, hid, hcaller]
    exact h y hy
  · rw [if_neg hyt]
    exact h y hy

/-- The task `t` is being polled or over, no other task has the caller `c`, and that is what the
bridge holds for `c`. -/
structure Still (t : TaskId) (c : FrameId) (told : Told) (b : Bridge σ) : Prop where
  busy : ∀ x ∈ b.tasks, x.id = t → ∀ s, x.activity ≠ .idle s
  only : b.OnlyTask t c
  told : b.toldTo c = told

/-- Runs continuations one after the other. -/
def fireAll (depth : Nat) (ks : List Continuation) (b : Bridge σ) : Bridge σ :=
  ks.foldl (fun b k => fire depth k b) b

namespace Still

variable {t : TaskId} {c : FrameId} {told : Told}

theorem of_same {b b' : Bridge σ} (h : b.Still t c told) (htasks : b'.tasks = b.tasks)
    (hcompletions : b'.completions = b.completions) (hjournal : b'.journal = b.journal) :
    b'.Still t c told where
  busy x hx := h.busy x (htasks ▸ hx)
  only x hx := h.only x (htasks ▸ hx)
  told := by rw [toldTo, hcompletions, hjournal]; exact h.told

theorem modifyTask {b : Bridge σ} (h : b.Still t c told) (t' : TaskId)
    (change : Task σ → Task σ) (hid : ∀ x, (change x).id = x.id)
    (hcaller : ∀ x, (change x).caller = x.caller)
    (hbusy : t' = t → ∀ x, (∀ s, x.activity ≠ .idle s) → ∀ s, (change x).activity ≠ .idle s) :
    (b.modifyTask t' change).Still t c told where
  busy x hx := by
    obtain ⟨y, hy, rfl⟩ := List.mem_map.1 hx
    by_cases hyt : y.id = t'
    · rw [if_pos hyt, hid]
      exact fun hyt' => hbusy (hyt ▸ hyt') y (h.busy y hy hyt')
    · rw [if_neg hyt]
      exact h.busy y hy
  only := h.only.modifyTask t' change hid hcaller
  told := h.told

theorem issue {b : Bridge σ} (h : b.Still t c told) (t' : TaskId) (caller : FrameId)
    (p : Program) : (b.issue t' caller p).2.Still t c told := by
  have hcreated : ({ b with
      futures := b.futures.create.2
      outbox := b.outbox ++ [⟨p, b.futures.create.1, caller⟩] } : Bridge σ).Still t c told :=
    h.of_same rfl rfl rfl
  exact hcreated.modifyTask t' _ (fun _ => rfl) (fun _ => rfl) fun _ _ hx => hx

theorem invokeFor {b : Bridge σ} (h : b.Still t c told) (t' : TaskId) (p : Program) :
    (b.invokeFor t' p).2.Still t c told := by
  rw [Bridge.invokeFor]
  split
  · exact h.issue t' _ p
  · exact h.of_same rfl rfl rfl

section Firing

variable {fire : Continuation → Bridge σ → Bridge σ}
  (hfire : ∀ k b, b.Still t c told → (fire k b).Still t c told)

include hfire

theorem settle {b : Bridge σ} (h : b.Still t c told) (f : FutureId) (o : Outcome) :
    (b.settle fire f o).2.Still t c told := by
  rw [Bridge.settle]
  split
  · exact h
  · exact h.of_same rfl rfl rfl
  · exact hfire _ _ (h.of_same rfl rfl rfl)

theorem attach {b : Bridge σ} (h : b.Still t c told) (f : FutureId) (k : Continuation) :
    (b.attach fire f k).2.Still t c told := by
  rw [Bridge.attach]
  split
  · exact h
  · exact h.of_same rfl rfl rfl
  · exact hfire _ _ (h.of_same rfl rfl rfl)

theorem callBack (call : Callback) {b : Bridge σ} (h : b.Still t c told) :
    (b.callBack fire call).Still t c told := by
  induction call generalizing b with
  | done => exact h
  | callerOf t' k ih => exact ih _ h
  | invoke t' p k ih => exact ih _ (h.invokeFor t' p)
  | invokeNamed t' name k ih =>
      rw [Bridge.callBack]
      split
      · exact ih _ h
      · next p hp => exact ih _ (h.invokeFor t' p)
  | observe f k ih => exact ih _ h
  | resolve f o k ih => exact ih _ (h.settle hfire f o)
  | register f call k _ ih => exact ih _ (h.attach hfire f _)
  | note n k ih => exact ih (h.of_same rfl rfl rfl)

theorem converse (t' : TaskId) (caller : FrameId) (p : Poll σ) {b : Bridge σ}
    (h : b.Still t c told) : (b.converse fire t' caller p).2.Still t c told := by
  induction p generalizing b with
  | ready r => exact h
  | pending s => exact h
  | context k ih => exact ih t' caller h
  | invoke p k ih => exact ih _ (h.issue t' caller p)
  | invokeNamed name k ih =>
      rw [Bridge.converse]
      split
      · exact ih _ h
      · next p hp => exact ih _ (h.issue t' caller p)
  | observe f k ih => exact ih _ h
  | resolve f o k ih => exact ih _ (h.settle hfire f o)
  | register f call k ih => exact ih _ (h.attach hfire f _)
  | note n k ih => exact ih (h.of_same rfl rfl rfl)

theorem awaitAll (t' : TaskId) (fs : List FutureId) {b : Bridge σ} (h : b.Still t c told) :
    (b.awaitAll fire t' fs).2.Still t c told := by
  induction fs generalizing b with
  | nil => exact h
  | cons f fs ih =>
      have hmore := h.modifyTask t'
        (fun x => { x with outstanding := x.outstanding + 1 }) (fun _ => rfl)
        (fun _ => rfl) fun _ _ hx => hx
      have hattach := hmore.attach hfire f (.resume t')
      rw [Bridge.awaitAll]
      split
      · next heq =>
          rw [heq] at hattach
          exact hattach
      · next heq =>
          rw [heq] at hattach
          exact ih hattach

end Firing

/-- Another task's end. -/
theorem conclude {b : Bridge σ} (h : b.Still t c told) {task : Task σ} (hne : task.id ≠ t)
    (hcaller : task.caller ≠ c) (result : DispatchResult) :
    (b.conclude task result).Still t c told := by
  have hfinish : (b.finish task.caller task.routine result).Still t c told :=
    ⟨h.busy, h.only, (b.toldTo_finish_of_ne hcaller _ _).trans h.told⟩
  exact hfinish.modifyTask task.id _ (fun _ => rfl) (fun _ => rfl) fun ht => absurd ht hne

/-- The task's own end. -/
theorem conclude_self {b : Bridge σ} {task : Task σ} (honly : b.OnlyTask task.id task.caller)
    (result : DispatchResult) :
    (b.conclude task result).Still task.id task.caller
      ((b.toldTo task.caller).add task.caller task.routine (some result)) where
  busy x hx hxt s := by
    obtain ⟨y, hy, rfl⟩ := List.mem_map.1 hx
    by_cases hyt : y.id = task.id
    · rw [if_pos hyt]
      intro hover
      cases hover
    · rw [if_neg hyt] at hxt
      exact absurd hxt hyt
  only := OnlyTask.modifyTask (b := b.finish task.caller task.routine result) honly task.id _
    (fun _ => rfl) fun _ => rfl
  told := b.toldTo_finish_self task.caller task.routine result

theorem release {b : Bridge σ} (h : b.Still t c told) (t' : TaskId) :
    (b.release t').Still t c told := by
  have hless := h.modifyTask t' (fun x => { x with drives := x.drives - 1 })
    (fun _ => rfl) (fun _ => rfl) fun _ _ hx => hx
  exact ⟨fun x hx => hless.busy x (List.mem_filter.1 hx).1,
    fun x hx => hless.only x (List.mem_filter.1 hx).1, hless.told⟩

section Firing

variable {fire : Continuation → Bridge σ → Bridge σ}
  (hfire : ∀ k b, b.Still t c told → (fire k b).Still t c told)

include hfire

theorem followUp {task : Task σ} (hne : task.id ≠ t) (hcaller : task.caller ≠ c)
    (answer : Answer σ) {b : Bridge σ} (h : b.Still t c told) :
    (b.followUp fire task answer).2.Still t c told := by
  have hissued := h.modifyTask task.id (fun x => { x with issued := [] })
    (fun _ => rfl) (fun _ => rfl) fun _ _ hx => hx
  cases answer with
  | ready r => exact hissued.conclude hne hcaller _
  | pending s =>
      have hidle := hissued.modifyTask task.id (fun x => { x with activity := .idle s })
        (fun _ => rfl) (fun _ => rfl) fun ht => absurd ht hne
      have hawait := hidle.awaitAll hfire task.id (((b.task? task.id).map (·.issued)).getD [])
      simp only [Bridge.followUp]
      split
      · next heq =>
          rw [heq] at hawait
          exact hawait
      · next heq =>
          rw [heq] at hawait
          rw [checkStalled]
          split
          · exact hawait.conclude hne hcaller _
          · exact hawait

/-- A task that is being polled or over is not polled. -/
theorem drive (t' : TaskId) {b : Bridge σ} (h : b.Still t c told) :
    (b.drive fire t').2.Still t c told := by
  rw [Bridge.drive]
  split
  · exact h
  · next task htask =>
      split
      · next s hs =>
          have hmem : task ∈ b.tasks := List.mem_of_find?_eq_some htask
          have hid : task.id = t' :=
            beq_iff_eq.1 (List.find?_some (p := fun x : Task σ => x.id == t') htask)
          have hne : task.id ≠ t := fun ht => h.busy task hmem ht s hs
          have hrunning := h.modifyTask t'
            (fun x => { x with activity := .running, drives := x.drives + 1 })
            (fun _ => rfl) (fun _ => rfl) fun ht => absurd (hid.trans ht) hne
          exact ((hrunning.converse hfire t' task.caller _).followUp hfire hne
            (h.only task hmem hne) _).release t'
      · exact h.of_same rfl rfl rfl
      · exact h

end Firing

/-- Nothing that a continuation brings about finishes a task that is being polled or over. -/
theorem fire (depth : Nat) (k : Continuation) {b : Bridge σ} (h : b.Still t c told) :
    (fire depth k b).Still t c told := by
  induction depth generalizing k b with
  | zero => exact h.of_same rfl rfl rfl
  | succ depth ih =>
      cases k with
      | callback call => exact h.callBack (fun k b h => ih k h) call
      | resume t' =>
          rw [Bridge.fire]
          split
          · exact h
          · next task htask =>
              have hless := h.modifyTask t'
                (fun x => { x with outstanding := x.outstanding - 1 }) (fun _ => rfl)
                (fun _ => rfl) fun _ _ hx => hx
              have hrecorded : ((b.modifyTask t' fun x =>
                  { x with outstanding := x.outstanding - 1 }).record
                    (.resumed task.caller task.routine)).Still t c told :=
                ⟨hless.busy, hless.only, (toldTo_record _ rfl).trans hless.told⟩
              have hdrive := hrecorded.drive (fun k b h => ih k h) t'
              simp only
              split
              · next heq =>
                  rw [heq] at hdrive
                  exact hdrive
              · next heq =>
                  rw [heq] at hdrive
                  exact hdrive.of_same rfl rfl rfl

theorem fireAll (depth : Nat) (ks : List Continuation) {b : Bridge σ} (h : b.Still t c told) :
    (b.fireAll depth ks).Still t c told := by
  induction ks generalizing b with
  | nil => exact h
  | cons k ks ih => exact ih (h.fire depth k)

end Still

/-! ### One drive of an idle task -/

theorem modifyTask_modifyTask (b : Bridge σ) (t : TaskId) (first second : Task σ → Task σ)
    (hfirst : ∀ x, (first x).id = x.id) :
    (b.modifyTask t first).modifyTask t second = b.modifyTask t fun x => second (first x) := by
  rw [modifyTask, modifyTask, modifyTask, List.map_map]
  congr 1
  refine List.map_congr_left fun x _ => ?_
  by_cases hx : x.id = t <;> simp [hx, hfirst]

theorem task?_modifyTask (b : Bridge σ) (t : TaskId) (change : Task σ → Task σ)
    (hid : ∀ x, (change x).id = x.id) :
    (b.modifyTask t change).task? t = (b.task? t).map change := by
  rw [task?, task?, modifyTask]
  induction b.tasks with
  | nil => rfl
  | cons x xs ih =>
      by_cases hx : x.id = t
      · rw [List.map_cons, if_pos hx, List.find?_cons_of_pos (by simpa [hid] using hx),
          List.find?_cons_of_pos (by simpa using hx)]
        rfl
      · rw [List.map_cons, if_neg hx, List.find?_cons_of_neg (by simpa using hx),
          List.find?_cons_of_neg (by simpa using hx), ih]

/-- Registering a continuation with an unresolved future runs nothing and resolves nothing. -/
theorem attach_unresolved (fire : Continuation → Bridge σ → Bridge σ) {b : Bridge σ} {f : FutureId}
    (hf : b.futures.outcome? f = none) (k : Continuation) :
    (∃ e, b.attach fire f k = (some e, b)) ∨
    ∃ futures, b.attach fire f k = (none, { b with futures }) ∧
      ∀ g, futures.outcome? g = b.futures.outcome? g := by
  rw [attach]
  rcases b.futures.register_cases f k with ⟨-, heq⟩ | ⟨-, ⟨-, heq⟩ | ⟨o, ho, -⟩⟩
  · rw [heq]
    exact Or.inl ⟨_, rfl⟩
  · rw [heq]
    refine Or.inr ⟨_, rfl, fun g => ?_⟩
    by_cases hg : f = g
    · subst hg
      rcases Nat.lt_or_ge f b.futures.cells.size with hlt | hge
      · rw [FutureStore.outcome?, FutureStore.get_set_self _ hlt]
        rfl
      · rw [FutureStore.set_of_ge _ hge]
    · rw [FutureStore.outcome?, FutureStore.get_set_of_ne _ hg]
      rfl
  · rw [show (b.futures.get f).outcome = none from hf] at ho
    cases ho

/-- Registering continuations with unresolved futures runs none of them; the task counts them as
outstanding. -/
theorem awaitAll_unresolved (fire : Continuation → Bridge σ → Bridge σ) (t : TaskId)
    (fs : List FutureId) {b : Bridge σ} (hfs : ∀ f ∈ fs, b.futures.outcome? f = none) :
    ∃ r n futures, b.awaitAll fire t fs =
        (r, { b.modifyTask t fun x => { x with outstanding := x.outstanding + n } with futures }) ∧
      (fs = [] → futures = b.futures) ∧ (r = .ok () → n = fs.length) := by
  induction fs generalizing b with
  | nil =>
      refine ⟨.ok (), 0, b.futures, ?_, fun _ => rfl, fun _ => rfl⟩
      simp [awaitAll, modifyTask]
  | cons f fs ih =>
      rw [List.forall_mem_cons] at hfs
      rw [awaitAll]
      rcases attach_unresolved fire
        (b := b.modifyTask t fun x => { x with outstanding := x.outstanding + 1 }) hfs.1 (.resume t)
        with ⟨e, heq⟩ | ⟨futures, heq, hsame⟩
      · simp only [heq]
        exact ⟨_, 1, b.futures, rfl, (by simp), (by simp)⟩
      · obtain ⟨r, n, futures', hawait, -, hn⟩ := ih
          (b := { b.modifyTask t fun x => { x with outstanding := x.outstanding + 1 } with futures })
          fun g hg => (hsame g).trans (hfs.2 g hg)
        have htwice := congrArg Bridge.tasks (b.modifyTask_modifyTask t
          (fun x => { x with outstanding := x.outstanding + 1 })
          (fun x => { x with outstanding := x.outstanding + n }) fun _ => rfl)
        refine ⟨r, 1 + n, futures', ?_, (by simp), fun hr => by
          rw [hn hr, List.length_cons, Nat.add_comm]⟩
        simp only [modifyTask, Nat.add_assoc] at hawait htwice ⊢
        simp only [modifyTask] at heq
        simp only [heq, hawait, htwice]

/-- The bridge with the task `t` idle in the state `s` and waiting for `n` more invocations. -/
def paused (b : Bridge σ) (t : TaskId) (s : σ) (n : Nat) (futures : FutureStore Continuation) :
    Bridge σ :=
  { b.modifyTask t fun x =>
      { x with issued := [], activity := .idle s, outstanding := x.outstanding + n } with futures }

/-- A pending poll whose invocations are unresolved leaves its task idle, or stalled if it has issued
nothing and waits for nothing. -/
theorem followUp_unresolved (fire : Continuation → Bridge σ → Bridge σ) (task : Task σ) (s : σ)
    {b : Bridge σ} (hunresolved : ∀ x, b.task? task.id = some x →
      ∀ f ∈ x.issued, b.futures.outcome? f = none) :
    ∃ n futures, (b.followUp fire task (.pending s)).2 = b.paused task.id s n futures ∨
      (b.followUp fire task (.pending s)).2 =
        (b.paused task.id s n b.futures).conclude task (.fault (.stalled task.routine)) ∧
      ∃ x, b.task? task.id = some x ∧ x.issued = [] ∧ x.outstanding = 0 := by
  have hfs : ∀ f ∈ ((b.task? task.id).map (·.issued)).getD [], b.futures.outcome? f = none := by
    cases hx : b.task? task.id with
    | none => exact fun f hf => by cases hf
    | some x => exact hunresolved x hx
  obtain ⟨r, n, futures, hawait, hnil, hn⟩ := awaitAll_unresolved fire task.id _
    (b := (b.modifyTask task.id fun x => { x with issued := [] }).modifyTask task.id
      fun x => { x with activity := .idle s }) hfs
  have hpaused : { ((b.modifyTask task.id fun x => { x with issued := [] }).modifyTask task.id
      fun x => { x with activity := .idle s }).modifyTask task.id
        fun x => { x with outstanding := x.outstanding + n } with futures } =
      b.paused task.id s n futures := by
    rw [modifyTask_modifyTask, modifyTask_modifyTask, paused]
    all_goals exact fun _ => rfl
  rw [hpaused] at hawait
  refine ⟨n, futures, ?_⟩
  simp only [followUp, hawait]
  cases r with
  | error e => exact Or.inl rfl
  | ok _ =>
      simp only [checkStalled]
      split
      · next hstalled =>
          have htask : (b.paused task.id s n futures).task? task.id = (b.task? task.id).map fun x =>
              { x with issued := [], activity := .idle s, outstanding := x.outstanding + n } :=
            b.task?_modifyTask task.id _ fun _ => rfl
          rw [htask] at hstalled
          cases hx : b.task? task.id with
          | none =>
              rw [hx] at hstalled
              cases hstalled
          | some x =>
              rw [hx] at hstalled hn hnil
              have hzero : x.outstanding + n = 0 := beq_iff_eq.1 hstalled
              have hlength : n = x.issued.length := hn rfl
              have hempty : x.issued = [] := List.length_eq_zero_iff.1 (by omega)
              have hfutures : futures = b.futures := hnil hempty
              exact Or.inr ⟨by rw [hfutures], x, rfl, hempty, by omega⟩
      · exact Or.inl rfl

theorem drive_idle (fire : Continuation → Bridge σ → Bridge σ) {b : Bridge σ} {task : Task σ}
    (htask : b.task? task.id = some task) {s : σ} (hidle : task.activity = .idle s)
    {answer : Answer σ} {polled : Bridge σ}
    (hpoll : (b.modifyTask task.id fun x =>
        { x with activity := .running, drives := x.drives + 1 }).converse fire task.id task.caller
          (b.registry.poll s) = (answer, polled)) :
    b.drive fire task.id =
      ((polled.followUp fire task answer).1,
        (polled.followUp fire task answer).2.release task.id) := by
  simp only [drive, htask, hidle]
  simp only [modifyTask] at hpoll ⊢
  simp only [hpoll]

/-- By `b'`, the drive of a task that began in `b` and whose poll ended with that answer in `polled`
has brought the task that result, or none. -/
structure Finish (task : Task σ) (answer : Answer σ) (b polled b' : Bridge σ)
    (result : Option DispatchResult) : Prop where
  /-- Nothing but the result is queued and recorded for the caller. -/
  told : b'.toldTo task.caller = (b.toldTo task.caller).add task.caller task.routine result
  ready : ∀ r, answer = .ready r → result = some (deliverable task.routine r)
  /-- A stalled routine has issued nothing, waits for nothing, and no future would resume it. -/
  pending : ∀ s, answer = .pending s → result = none ∨
    result = some (.fault (.stalled task.routine)) ∧
      (∀ x, polled.task? task.id = some x → x.issued = [] ∧ x.outstanding = 0) ∧
      b'.futures.waitingFor task.id = 0
  counted : b'.Counted
  /-- After a result, no continuation brings another one. -/
  later : result.isSome → ∀ depth ks,
    (b'.fireAll depth ks).toldTo task.caller = b'.toldTo task.caller

/-- A drive whose follow-up leaves the task over. -/
theorem Finish.of_over {task : Task σ} {answer : Answer σ} {b polled b' : Bridge σ}
    {result : DispatchResult} (hcounted : b'.Counted)
    (hover : b'.Still task.id task.caller
      ((b.toldTo task.caller).add task.caller task.routine (some result)))
    (hready : ∀ r, answer = .ready r → result = deliverable task.routine r)
    (hpending : ∀ s, answer = .pending s → result = .fault (.stalled task.routine) ∧
      (∀ x, polled.task? task.id = some x → x.issued = [] ∧ x.outstanding = 0) ∧
      b'.futures.waitingFor task.id = 0) :
    Finish task answer b polled b' (some result) where
  told := hover.told
  ready r hr := congrArg some (hready r hr)
  pending s hs := Or.inr ⟨congrArg some (hpending s hs).1, (hpending s hs).2⟩
  counted := hcounted
  later _ depth ks := (hover.fireAll depth ks).told.trans hover.told.symm

/-- Whatever the polls ask for, one drive of an idle task, with everything that it brings about,
queues and records at most one result of the task, as long as none of the invocations that the poll
issued is resolved when the poll is followed up. The result is the routine's own if the poll was
ready, and the fault of a stalled routine only if nothing is left that would resume it. -/
theorem drive_finishes_once {b : Bridge σ} (hcounted : b.Counted) {task : Task σ}
    (htask : b.task? task.id = some task) {s : σ} (hidle : task.activity = .idle s)
    (honly : b.OnlyTask task.id task.caller) (depth : Nat) {answer : Answer σ} {polled : Bridge σ}
    (hpoll : (b.modifyTask task.id fun x =>
        { x with activity := .running, drives := x.drives + 1 }).converse (fire depth) task.id
          task.caller (b.registry.poll s) = (answer, polled))
    (hunresolved : ∀ x, polled.task? task.id = some x →
      ∀ f ∈ x.issued, polled.futures.outcome? f = none) :
    ∃ result, Finish task answer b polled (b.drive (fire depth) task.id).2 result := by
  have hrunning : (b.modifyTask task.id fun x =>
      { x with activity := .running, drives := x.drives + 1 }).Still task.id task.caller
        (b.toldTo task.caller) := by
    refine ⟨fun x hx hxt s => ?_, honly.modifyTask task.id _ (fun _ => rfl) fun _ => rfl, rfl⟩
    obtain ⟨y, hy, rfl⟩ := List.mem_map.1 hx
    by_cases hyt : y.id = task.id
    · rw [if_pos hyt]
      intro hrunning
      cases hrunning
    · rw [if_neg hyt] at hxt
      exact absurd hxt hyt
  have hstill := hrunning.converse (fun k b h => h.fire depth k) task.id task.caller
    (b.registry.poll s)
  rw [hpoll] at hstill
  have hpolled := (hcounted.modifyTask task.id (fun x =>
      { x with activity := .running, drives := x.drives + 1 }) (fun _ => rfl)
    fun _ => Nat.le_refl _).converse (fun k b h hk => h.fire depth hk) task.id task.caller
      (b.registry.poll s)
  rw [hpoll] at hpolled
  have hlast : (b.drive (fire depth) task.id).2.Counted :=
    hcounted.drive (fun k b h hk => h.fire depth hk) task.id
  rw [drive_idle (fire depth) htask hidle hpoll] at hlast ⊢
  have hissued : (polled.modifyTask task.id fun x => { x with issued := [] }).OnlyTask task.id
      task.caller := hstill.only.modifyTask task.id _ (fun _ => rfl) fun _ => rfl
  cases answer with
  | ready r =>
      have hover := (Still.conclude_self hissued (deliverable task.routine r)).release task.id
      rw [show (polled.modifyTask task.id fun x => { x with issued := [] }).toldTo task.caller =
        b.toldTo task.caller from hstill.told] at hover
      exact ⟨_, .of_over hlast hover (fun _ h => by cases h; rfl) fun _ h => by cases h⟩
  | pending s' =>
      obtain ⟨n, futures, hpaused | ⟨hstalled, x, hx, hempty, hzero⟩⟩ :=
        followUp_unresolved (fire depth) task s' hunresolved
      · rw [hpaused] at hlast ⊢
        exact ⟨none, hstill.told.trans (Told.add_none _ _ _).symm, fun _ h => (by cases h),
          fun _ _ => Or.inl rfl, hlast, fun h => by cases h⟩
      · rw [hstalled] at hlast ⊢
        have honly' : (polled.paused task.id s' n polled.futures).OnlyTask task.id task.caller :=
          hstill.only.modifyTask task.id _ (fun _ => rfl) fun _ => rfl
        have hover := (Still.conclude_self honly' (.fault (.stalled task.routine))).release task.id
        rw [show (polled.paused task.id s' n polled.futures).toldTo task.caller =
          b.toldTo task.caller from hstill.told] at hover
        have hid : x.id = task.id :=
          beq_iff_eq.1 (List.find?_some (p := fun x : Task σ => x.id == task.id) hx)
        have hwaiting : polled.futures.waitingFor task.id = 0 := by
          have hle := hpolled x (List.mem_of_find?_eq_some hx)
          rw [hid, hzero] at hle
          exact Nat.le_zero.1 hle
        refine ⟨_, .of_over hlast hover (fun _ h => by cases h) fun _ _ => ⟨rfl, ?_, hwaiting⟩⟩
        intro y hy
        rw [hx] at hy
        cases hy
        exact ⟨hempty, hzero⟩

/-- `call_both` when its first procedure has returned. -/
def calledTask : Task Builtin.Waiting :=
  { id := 1, caller := 1, routine := "call_both", activity := .idle (.calledFirst 0) }

def calledBridge : Bridge Builtin.Waiting where
  registry := Builtin.registry
  library := { programs := [⟨"call_b", []⟩] }
  futures := ⟨#[{ outcome := some (.returned none), registered := true }]⟩
  tasks := [calledTask]
  journal := { enabled := true }

/-- The bridge after the poll that asks for the second procedure. -/
def calledPolled : Bridge Builtin.Waiting :=
  ((calledBridge.modifyTask 1 fun x => { x with activity := .running, drives := x.drives + 1 }).converse
    (fire 8) 1 1 (calledBridge.registry.poll (.calledFirst 0))).2

/-- Its new invocation is pending, so the routine has no result yet. -/
theorem drive_finishes_once_callBoth :
    (calledPolled.task? 1).map (·.issued) = some [1] ∧
      (calledBridge.drive (fire 8) 1).2.toldTo 1 = { recording := true, queued := [], ends := [] } := by
  have hissued : (calledPolled.task? 1).map (·.issued) = some [1] := rfl
  have hcounted : calledBridge.Counted := by
    intro x hx
    rw [List.mem_singleton.1 hx]
    exact Nat.le_refl 0
  have htask : calledBridge.task? calledTask.id = some calledTask := rfl
  have honly : calledBridge.OnlyTask calledTask.id calledTask.caller :=
    fun x hx hne => absurd (congrArg Task.id (List.mem_singleton.1 hx)) hne
  have hunresolved : ∀ x, calledPolled.task? calledTask.id = some x →
      ∀ f ∈ x.issued, calledPolled.futures.outcome? f = none := by
    intro x hx f hf
    rw [show calledPolled.task? 1 = some x from hx, Option.map_some, Option.some.injEq] at hissued
    rw [hissued, List.mem_singleton] at hf
    subst hf
    rfl
  obtain ⟨result, hfinish⟩ := drive_finishes_once hcounted htask rfl honly 8 rfl hunresolved
  obtain rfl | ⟨-, hstalled, -⟩ := hfinish.pending _ rfl
  · exact ⟨hissued, hfinish.told⟩
  · -- a stalled routine would have issued nothing
    obtain ⟨hempty, -⟩ := hstalled _ rfl
    cases hempty

/-! ### A poll that resolves its own invocation -/

/-- The routine `hasty` resolves the future of its own invocation and then waits for it. -/
def hastyRegistry : Registry Bool where
  poll
    | false => .invoke ⟨"p", [.ret]⟩ fun f => .resolve f (.returned none) fun _ => .pending true
    | true => .ready (.ok .void)
  routines := [{ id := 5, name := "hasty", params := [], body := .suspending fun _ => false }]

/-- An invocation that is resolved before the poll is followed up makes its task finish twice: once
in the poll that its registration runs on the spot, and once more as stalled, since the count is back
at zero when the first follow-up goes on. -/
theorem dispatch_finishes_twice :
    ((dispatch 5 1 { frames := [{ id := 1, program := ⟨"main", []⟩ }], nextFrame := 2 }
        ({ registry := hastyRegistry, journal := { enabled := true } } : Bridge Bool)).2.2.toldTo
          1).ends =
      [.routineFinished 1 "hasty" .void,
        .routineFinished 1 "hasty" (.fault (.stalled "hasty"))] := by
  decide +kernel

end Bridge

end Reentrant
