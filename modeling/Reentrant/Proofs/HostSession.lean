import Reentrant.Proofs.Guests
import Reentrant.Proofs.LaunchedRun

/-!
Everything a host can do with a machine and its bridge: steps and runs, whatever they end in, access
to the machine between them, invocations through a context that a routine has left somewhere, and
dropping what the bridge holds. In whatever order this is done, the machine keeps its limits, the
bridge keeps what it was made with, and the numbers that they give out only grow.
-/

namespace Reentrant

variable {σ : Type}

/-! ### The machine -/

namespace Machine

/-- The limits are the same, and no frame number is given out again. -/
structure Keeps (m m' : Machine) : Prop where
  limits : m'.limits = m.limits
  numbers : m.nextFrame ≤ m'.nextFrame

namespace Keeps

variable {m m₁ m₂ : Machine}

theorem refl (m : Machine) : m.Keeps m := ⟨rfl, Nat.le_refl _⟩

theorem trans (h : m.Keeps m₁) (h' : m₁.Keeps m₂) : m.Keeps m₂ :=
  ⟨h'.limits.trans h.limits, Nat.le_trans h.numbers h'.numbers⟩

end Keeps

theorem keeps_access (m : Machine) (a : Access) : m.Keeps (m.access a) := by
  have hmodify : ∀ id change, m.Keeps (m.granted (m.modifyFrame id change)) := by
    intro id change
    rw [modifyFrame]
    split
    · exact ⟨rfl, Nat.le_refl _⟩
    · exact .refl m
  cases a with
  | load p => exact ⟨rfl, Nat.le_succ _⟩
  | loadEntry p => exact ⟨rfl, Nat.le_succ _⟩
  | pushTo id v => exact hmodify id _
  | raise id fault => exact hmodify id _
  | block id => exact hmodify id _
  | unblock id => exact hmodify id _
  | abort => exact ⟨rfl, Nat.le_refl _⟩
  | push v =>
      rw [access, push]
      cases m.frames with
      | nil => exact .refl m
      | cons f below => exact ⟨rfl, Nat.le_refl _⟩
  | pop =>
      rw [access, pop]
      cases m.frames with
      | nil => exact .refl m
      | cons f below =>
          dsimp only
          cases f.stack <;> exact ⟨rfl, Nat.le_refl _⟩

theorem Leads.keeps {m m' : Machine} (h : m.Leads m') : m.Keeps m' := by
  obtain ⟨as, rfl⟩ := h
  induction as generalizing m with
  | nil => exact .refl m
  | cons a as ih => exact (keeps_access m a).trans (ih (m := m.access a))

/-- The machine's own part of a step, also when it is refused. -/
theorem keeps_advance {ε : Type} (m : Machine) : m.Keeps (@advance ε m).2 := by
  cases hframes : m.frames with
  | nil =>
      rw [advance, hframes]
      exact .refl m
  | cons f below =>
      by_cases hblocked : f.blocked = true
      · obtain ⟨e, hrefused⟩ := advance_of_refused (ε := ε) hframes (.inl hblocked)
        rw [hrefused]
        exact .refl m
      · rcases @advance_cases ε m f below hframes (Bool.eq_false_iff.2 hblocked) with
          ⟨limit, -, hrefused⟩ | ⟨s, m', hadvanced, hadvance⟩
        · rw [hrefused]
          exact .refl m
        · rw [hadvance]
          cases hadvanced <;> exact ⟨rfl, Nat.le_refl _⟩

/-- A step is refused before the host is told. -/
theorem advance_ne_hook {ε : Type} (m : Machine) (site : HookSite) (cause : ε) :
    (@advance ε m).1 ≠ .error (.hook site cause) := by
  unfold advance advance.go
  repeat' split
  all_goals simp

theorem keeps_atSite {ω ε : Type} (site : HookSite) (x : Except ε Unit × Machine × ω) {m : Machine}
    (h : m.Keeps x.2.1) : m.Keeps (atSite site x).2.1 := by
  obtain ⟨_ | _, m', w⟩ := x <;> exact h

theorem keeps_step (m : Machine) (b : Bridge σ) : m.Keeps (m.step Bridge.host b).2.1 := by
  have hadvance := keeps_advance (ε := HookError) m
  rw [step]
  generalize @advance HookError m = x at hadvance ⊢
  rcases x with ⟨e | _ | _ | ⟨id, caller⟩ | t, m₁⟩
  · exact hadvance
  · exact hadvance
  · exact hadvance
  · exact hadvance.trans (keeps_atSite _ _ (Bridge.dispatch_leads id caller m₁ b).keeps)
  · exact hadvance.trans (keeps_atSite _ _ (Bridge.complete_leads t m₁ b).keeps)

end Machine

/-! ### The bridge -/

namespace Bridge

/-- What a bridge was made with, and the number of the next task. Polls and continuations leave all
of this alone. -/
structure Setup (σ : Type) where
  registry : Registry σ
  library : Library
  journaling : Bool
  nesting : Nat
  nextTask : TaskId

def setup (b : Bridge σ) : Setup σ :=
  ⟨b.registry, b.library, b.journal.enabled, b.nesting, b.nextTask⟩

theorem setup_record (b : Bridge σ) (e : Event) : (b.record e).setup = b.setup := by
  simp only [setup, record, Journal.record]
  split <;> rfl

theorem setup_finish (b : Bridge σ) (caller : FrameId) (routine : String)
    (result : DispatchResult) : (b.finish caller routine result).setup = b.setup :=
  b.setup_record _

theorem setup_conclude (b : Bridge σ) (task : Task σ) (result : DispatchResult) :
    (b.conclude task result).setup = b.setup :=
  b.setup_finish _ _ _

theorem setup_checkStalled (b : Bridge σ) (task : Task σ) :
    (b.checkStalled task).setup = b.setup := by
  rw [checkStalled]
  split
  · exact b.setup_conclude _ _
  · rfl

theorem setup_invokeFor (b : Bridge σ) (t : TaskId) (p : Program) :
    (b.invokeFor t p).2.setup = b.setup := by
  rw [invokeFor]
  split <;> rfl

section Firing

variable {fire : Continuation → Bridge σ → Bridge σ} (hfire : ∀ k b, (fire k b).setup = b.setup)

include hfire

theorem setup_settle (b : Bridge σ) (f : FutureId) (o : Outcome) :
    (b.settle fire f o).2.setup = b.setup := by
  rw [settle]
  split
  · rfl
  · rfl
  · exact hfire _ _

theorem setup_attach (b : Bridge σ) (f : FutureId) (k : Continuation) :
    (b.attach fire f k).2.setup = b.setup := by
  rw [attach]
  split
  · rfl
  · rfl
  · exact hfire _ _

theorem setup_callBack (c : Callback) (b : Bridge σ) : (b.callBack fire c).setup = b.setup := by
  induction c generalizing b with
  | done => rfl
  | callerOf t k ih => exact ih _ b
  | invoke t p k ih => exact (ih _ _).trans (b.setup_invokeFor t p)
  | invokeNamed t name k ih =>
      rw [callBack]
      split
      · exact ih _ b
      · next p _ => exact (ih _ _).trans (b.setup_invokeFor t p)
  | observe f k ih => exact ih _ b
  | resolve f o k ih => exact (ih _ _).trans (setup_settle hfire b f o)
  | register f c k _ ih => exact (ih _ _).trans (setup_attach hfire b f _)
  | note n k ih => exact ih (b.addNote n)

theorem setup_converse (t : TaskId) (caller : FrameId) (p : Poll σ) (b : Bridge σ) :
    (b.converse fire t caller p).2.setup = b.setup := by
  induction p generalizing b with
  | ready result => rfl
  | pending s => rfl
  | context k ih => exact ih t caller b
  | invoke p k ih => exact ih _ (b.issue t caller p).2
  | invokeNamed name k ih =>
      rw [converse]
      split
      · exact ih _ b
      · next p _ => exact ih _ (b.issue t caller p).2
  | observe f k ih => exact ih _ b
  | resolve f o k ih => exact (ih _ _).trans (setup_settle hfire b f o)
  | register f c k ih => exact (ih _ _).trans (setup_attach hfire b f _)
  | note n k ih => exact ih (b.addNote n)

theorem setup_awaitAll (t : TaskId) (fs : List FutureId) (b : Bridge σ) :
    (b.awaitAll fire t fs).2.setup = b.setup := by
  induction fs generalizing b with
  | nil => rfl
  | cons f fs ih =>
      have hattach := setup_attach hfire
        (b.modifyTask t fun x => { x with outstanding := x.outstanding + 1 }) f (.resume t)
      rw [awaitAll]
      split
      · next heq =>
          rw [heq] at hattach
          exact hattach
      · next heq =>
          rw [heq] at hattach
          exact (ih _).trans hattach

theorem setup_followUp (task : Task σ) (answer : Answer σ) (b : Bridge σ) :
    (b.followUp fire task answer).2.setup = b.setup := by
  cases answer with
  | ready result => exact setup_conclude _ _ _
  | pending s =>
      have hawait := setup_awaitAll hfire task.id (((b.task? task.id).map (·.issued)).getD [])
        ((b.modifyTask task.id fun x => { x with issued := [] }).modifyTask task.id fun x =>
          { x with activity := .idle s })
      simp only [followUp]
      split
      · next heq =>
          rw [heq] at hawait
          exact hawait
      · next heq =>
          rw [heq] at hawait
          exact (setup_checkStalled _ _).trans hawait

theorem setup_drive (t : TaskId) (b : Bridge σ) : (b.drive fire t).2.setup = b.setup := by
  rw [drive]
  split
  · rfl
  · next task _ =>
      split
      · exact (setup_followUp hfire task _ _).trans (setup_converse hfire t task.caller _ _)
      · rfl
      · rfl

end Firing

theorem setup_fire (depth : Nat) (k : Continuation) (b : Bridge σ) :
    (fire depth k b).setup = b.setup := by
  induction depth generalizing k b with
  | zero => rfl
  | succ depth ih =>
      cases k with
      | callback c => exact setup_callBack ih c b
      | resume t =>
          rw [fire]
          split
          · rfl
          · next task _ =>
              have hdrive := setup_drive ih t ((b.modifyTask t fun x =>
                { x with outstanding := x.outstanding - 1 }).record
                  (.resumed task.caller task.routine))
              rw [setup_record] at hdrive
              simp only
              split
              · next heq =>
                  rw [heq] at hdrive
                  exact hdrive
              · next heq =>
                  rw [heq] at hdrive
                  exact hdrive

theorem setup_loadAll (is : List Invocation) (m : Machine) (b : Bridge σ) :
    (loadAll is m b).2.2.setup = b.setup := by
  induction is generalizing m b with
  | nil => rfl
  | cons i is ih =>
      have hrecord := b.setup_record (.frameLoaded (m.load i.program).1 i.program.name i.caller)
      rw [loadAll]
      dsimp only
      split
      · exact hrecord
      · exact (ih _ _).trans hrecord

theorem setup_flush (m : Machine) (b : Bridge σ) : (flush m b).2.2.setup = b.setup := by
  have hloads := setup_loadAll b.outbox m { b with outbox := [] }
  rw [flush]
  split
  · rfl
  · split
    · next heq =>
        rw [heq] at hloads
        exact hloads
    · next heq =>
        rw [heq] at hloads
        exact hloads

theorem deliverAll_ne_bridge (cs : List Completion) (m : Machine) (e : BridgeError) :
    (deliverAll cs m).1 ≠ .error (.bridge e) := by
  induction cs generalizing m with
  | nil => simp [deliverAll]
  | cons c cs ih =>
      rw [deliverAll]
      split
      · simp
      · exact ih _

/-- What the bridge was made with is the same, and no task number is given out again. -/
structure Keeps (b b' : Bridge σ) : Prop where
  setup : b'.setup = { b.setup with nextTask := b'.nextTask }
  numbers : b.nextTask ≤ b'.nextTask

namespace Keeps

variable {b b₁ b₂ : Bridge σ}

theorem of_setup (h : b₁.setup = b.setup) : b.Keeps b₁ := by
  have hnext : b₁.nextTask = b.nextTask := congrArg Setup.nextTask h
  exact ⟨by rw [h, hnext]; rfl, Nat.le_of_eq hnext.symm⟩

theorem trans (h : b.Keeps b₁) (h' : b₁.Keeps b₂) : b.Keeps b₂ :=
  ⟨by rw [h'.setup, h.setup], Nat.le_trans h.numbers h'.numbers⟩

theorem flush (h : b.Keeps b₁) (m : Machine) : b.Keeps (flush m b₁).2.2 :=
  h.trans (.of_setup (setup_flush m b₁))

end Keeps

/-- Only the start of a suspending routine takes a task number. -/
theorem keeps_spend (b : Bridge σ) {b' : Bridge σ}
    (h : b'.setup = { b.setup with nextTask := b.nextTask + 1 }) : b.Keeps b' := by
  have hnext : b'.nextTask = b.nextTask + 1 := congrArg Setup.nextTask h
  exact ⟨by rw [h, hnext], hnext ▸ Nat.le_succ _⟩

theorem keeps_start (b : Bridge σ) (caller : FrameId) (routine : String) (s : σ) :
    b.Keeps (b.start caller routine s).2 := by
  have hdrive := setup_drive (setup_fire b.nesting) b.nextTask { b with
    nextTask := b.nextTask + 1
    tasks := { id := b.nextTask, caller, routine, activity := .idle s } :: b.tasks }
  apply keeps_spend
  rw [start]
  dsimp only
  split
  · next heq =>
      rw [heq] at hdrive
      exact hdrive
  · next heq =>
      rw [heq] at hdrive
      exact hdrive

theorem keeps_apply (b : Bridge σ) (caller : FrameId) (q : Routine σ) (args : List Value) :
    b.Keeps (b.apply caller q args).2 := by
  rw [apply]
  split
  · exact .of_setup rfl
  · exact keeps_spend b rfl
  · next run xs _ _ =>
      dsimp only
      rw [foldl_addNote]
      split
      · exact .of_setup (setup_finish _ _ _ _)
      · exact .of_setup rfl
  · exact keeps_start _ _ _ _

theorem keeps_call (id : RoutineId) (caller : FrameId) (m : Machine) (b : Bridge σ) :
    b.Keeps (call id caller m b).2.2 := by
  rw [call]
  split
  · exact .of_setup rfl
  · next q _ =>
      have hrecord : b.Keeps (b.record (.dispatchStarted caller q.name id)) :=
        .of_setup (b.setup_record _)
      dsimp only
      split
      · exact hrecord
      · exact hrecord.trans (keeps_apply _ _ _ _)

theorem keeps_dispatch (id : RoutineId) (caller : FrameId) (m : Machine) (b : Bridge σ) :
    b.Keeps (dispatch id caller m b).2.2 := by
  have hcall := keeps_call id caller m b
  rw [dispatch]
  generalize call id caller m b = x at hcall ⊢
  rcases x with ⟨e | _ | _, m₁, b₁⟩
  · exact (hcall.trans (.of_setup (setup_finish _ _ _ _))).flush m₁
  · exact hcall.flush m₁
  · dsimp only
    cases m₁.block caller with
    | error e => exact hcall
    | ok m₂ => exact hcall.flush m₂

theorem keeps_complete (t : Teardown) (m : Machine) (b : Bridge σ) :
    b.Keeps (complete t m b).2.2 := by
  have hrecord := b.setup_record (.frameTornDown t.frame t.faulted)
  unfold complete
  dsimp only
  split
  · exact (Keeps.of_setup hrecord).flush m
  · next f table _ =>
      have hsettle := (setup_settle (setup_fire (b.record (.frameTornDown t.frame
        t.faulted)).nesting) { b.record (.frameTornDown t.frame t.faulted) with table } f
          t.outcome).trans hrecord
      split
      · next heq =>
          rw [heq] at hsettle
          exact (Keeps.of_setup hsettle).flush m
      · next e b₁ heq =>
          rw [heq] at hsettle
          have hfailed : (b₁.fail (.future e)).setup = b.setup := hsettle
          exact (Keeps.of_setup hfailed).flush m

theorem keeps_step (m : Machine) (b : Bridge σ) : b.Keeps (m.step host b).2.2 := by
  have hat : ∀ site (x : Except HookError Unit × Machine × Bridge σ), b.Keeps x.2.2 →
      b.Keeps (Machine.atSite site x).2.2 := by
    rintro site ⟨_ | _, m', b'⟩ h <;> exact h
  rw [Machine.step]
  rcases @Machine.advance HookError m with ⟨e | _ | _ | ⟨id, caller⟩ | t, m₁⟩
  · exact .of_setup rfl
  · exact .of_setup rfl
  · exact .of_setup rfl
  · exact hat _ _ (keeps_dispatch id caller m₁ b)
  · exact hat _ _ (keeps_complete t m₁ b)

theorem keeps_invokeFor (b : Bridge σ) (t : TaskId) (p : Program) :
    b.Keeps (b.invokeFor t p).2 :=
  .of_setup (b.setup_invokeFor t p)

end Bridge

/-! ### Sessions -/

/-- What a host does with a machine and its bridge. -/
inductive HostMove where
  | operate (op : Operation)
  /-- An invocation through the context of a task. -/
  | invokeFor (t : TaskId) (p : Program)
  | abandon

namespace HostMove

/-- Dropping the machine's frames. -/
def abort : HostMove := .operate (.access .abort)

def perform (s : Machine × Bridge σ) : HostMove → Machine × Bridge σ
  | .operate op => op.perform Bridge.host s
  | .invokeFor t p => (s.1, (s.2.invokeFor t p).2)
  | .abandon => (s.1, s.2.abandon.2)

/-- Machine and bridge keep what they keep. -/
def Keeps (s s' : Machine × Bridge σ) : Prop := s.1.Keeps s'.1 ∧ s.2.Keeps s'.2

theorem Keeps.trans {s s₁ s₂ : Machine × Bridge σ} (h : Keeps s s₁) (h' : Keeps s₁ s₂) :
    Keeps s s₂ :=
  ⟨h.1.trans h'.1, h.2.trans h'.2⟩

theorem Keeps.refl (s : Machine × Bridge σ) : Keeps s s := ⟨.refl s.1, .of_setup rfl⟩

theorem keeps_step (m : Machine) (b : Bridge σ) : Keeps (m, b) (m.step Bridge.host b).2 :=
  ⟨m.keeps_step b, b.keeps_step m⟩

theorem keeps_drain (fuel : Nat) (m : Machine) (b : Bridge σ) :
    Keeps (m, b) (m.drain Bridge.host fuel b).2 := by
  induction fuel generalizing m b with
  | zero => exact .refl _
  | succ fuel ih =>
      have hstep := keeps_step m b
      rw [Machine.drain]
      generalize m.step Bridge.host b = x at hstep ⊢
      rcases x with ⟨_ | _ | _, m₁, b₁⟩
      · exact hstep
      · exact hstep.trans (ih m₁ b₁)
      · exact hstep

theorem keeps_run (fuel : Nat) (m : Machine) (b : Bridge σ) :
    Keeps (m, b) (m.run Bridge.host fuel b).2 := by
  have hdrain := keeps_drain fuel m b
  rw [Machine.run]
  generalize m.drain Bridge.host fuel b = x at hdrain ⊢
  rcases x with ⟨_ | _ | _, m₁, b₁⟩
  · exact hdrain
  · exact hdrain
  · dsimp only
    cases m₁.exit <;> exact hdrain

theorem keeps_perform (s : Machine × Bridge σ) (move : HostMove) : Keeps s (move.perform s) := by
  cases move with
  | operate op =>
      cases op with
      | access a => exact ⟨s.1.keeps_access a, .of_setup rfl⟩
      | step => exact keeps_step s.1 s.2
      | run fuel => exact keeps_run fuel s.1 s.2
  | invokeFor t p => exact ⟨.refl s.1, s.2.keeps_invokeFor t p⟩
  | abandon => exact ⟨.refl s.1, .of_setup rfl⟩

end HostMove

namespace Launch

/-- The machine and the bridge after what a host has done with them since they were new. -/
def session (c : Launch σ) (moves : List HostMove) : Machine × Bridge σ :=
  moves.foldl HostMove.perform ({ limits := c.limits }, c.bridge)

theorem session_append (c : Launch σ) (moves more : List HostMove) :
    c.session (moves ++ more) = more.foldl HostMove.perform (c.session moves) :=
  List.foldl_append

/-- Whatever a host does, it meets the limits, the registry and the library that it began with. -/
theorem session_keeps (c : Launch σ) (moves : List HostMove) :
    HostMove.Keeps ({ limits := c.limits }, c.bridge) (c.session moves) := by
  rw [session]
  generalize (({ limits := c.limits }, c.bridge) : Machine × Bridge σ) = s
  induction moves generalizing s with
  | nil => exact .refl s
  | cons move moves ih => exact (HostMove.keeps_perform s move).trans (ih _)

end Launch

end Reentrant
