import Reentrant.Proofs.FuturePlay
import Reentrant.Proofs.HostSession
import Reentrant.Proofs.PendingHistory

/-!
A routine cannot be resumed inside its own poll as long as routines touch only handles that they got in
the same poll. A resumption is registered when a poll is over, so no future of the poll that is running
has one yet, and whatever runs inside the poll stays among those futures.
-/

namespace Reentrant

variable {σ : Type}

/-! ### Routines that touch their own handles -/

/-- Whatever the continuation is answered, it resolves and registers on the handles in `mine` and on those
of its own invocations only. -/
def Callback.TouchesOnly : Callback → (FutureId → Prop) → Prop
  | .done, _ => True
  | .callerOf _ k, mine => ∀ caller, (k caller).TouchesOnly mine
  | .invoke _ _ k, mine => ∀ f, (k f).TouchesOnly fun g => mine g ∨ g = f
  | .invokeNamed _ _ k, mine =>
      (∀ fault, (k (.error fault)).TouchesOnly mine) ∧
        ∀ f, (k (.ok f)).TouchesOnly fun g => mine g ∨ g = f
  | .observe _ k, mine => ∀ o, (k o).TouchesOnly mine
  | .resolve f _ k, mine => mine f ∧ ∀ e, (k e).TouchesOnly mine
  | .register f c k, mine => mine f ∧ c.TouchesOnly mine ∧ ∀ e, (k e).TouchesOnly mine
  | .note _ k, mine => k.TouchesOnly mine

/-- The same of a poll. -/
def Poll.TouchesOnly : Poll σ → (FutureId → Prop) → Prop
  | .ready _, _ => True
  | .pending _, _ => True
  | .context k, mine => ∀ t caller, (k t caller).TouchesOnly mine
  | .invoke _ k, mine => ∀ f, (k f).TouchesOnly fun g => mine g ∨ g = f
  | .invokeNamed _ k, mine =>
      (∀ fault, (k (.error fault)).TouchesOnly mine) ∧
        ∀ f, (k (.ok f)).TouchesOnly fun g => mine g ∨ g = f
  | .observe _ k, mine => ∀ o, (k o).TouchesOnly mine
  | .resolve f _ k, mine => mine f ∧ ∀ e, (k e).TouchesOnly mine
  | .register f c k, mine => mine f ∧ c.TouchesOnly mine ∧ ∀ e, (k e).TouchesOnly mine
  | .note _ k, mine => k.TouchesOnly mine

/-- Every routine resolves and registers only on handles that it was given in the same poll, and so do the
continuations that it registers. -/
def Registry.TouchesOwn (g : Registry σ) : Prop := ∀ s, (g.poll s).TouchesOnly fun _ => False

theorem Callback.TouchesOnly.mono {c : Callback} {mine mine' : FutureId → Prop}
    (h : c.TouchesOnly mine) (hmine : ∀ f, mine f → mine' f) : c.TouchesOnly mine' := by
  induction c generalizing mine mine' with
  | done => trivial
  | callerOf t k ih => exact fun caller => ih caller (h caller) hmine
  | invoke t p k ih => exact fun f => ih f (h f) fun g => Or.imp_left (hmine g)
  | invokeNamed t name k ih =>
      exact ⟨fun fault => ih _ (h.1 fault) hmine,
        fun f => ih _ (h.2 f) fun g => Or.imp_left (hmine g)⟩
  | observe f k ih => exact fun o => ih o (h o) hmine
  | resolve f o k ih => exact ⟨hmine f h.1, fun e => ih e (h.2 e) hmine⟩
  | register f c k hc ih => exact ⟨hmine f h.1, hc h.2.1 hmine, fun e => ih e (h.2.2 e) hmine⟩
  | note n k ih => exact ih h hmine

theorem Poll.TouchesOnly.mono {p : Poll σ} {mine mine' : FutureId → Prop} (h : p.TouchesOnly mine)
    (hmine : ∀ f, mine f → mine' f) : p.TouchesOnly mine' := by
  induction p generalizing mine mine' with
  | ready r => trivial
  | pending s => trivial
  | context k ih => exact fun t caller => ih t caller (h t caller) hmine
  | invoke p k ih => exact fun f => ih f (h f) fun g => Or.imp_left (hmine g)
  | invokeNamed name k ih =>
      exact ⟨fun fault => ih _ (h.1 fault) hmine,
        fun f => ih _ (h.2 f) fun g => Or.imp_left (hmine g)⟩
  | observe f k ih => exact fun o => ih o (h o) hmine
  | resolve f o k ih => exact ⟨hmine f h.1, fun e => ih e (h.2 e) hmine⟩
  | register f c k ih => exact ⟨hmine f h.1, h.2.1.mono hmine, fun e => ih e (h.2.2 e) hmine⟩
  | note n k ih => exact ih h hmine

theorem BridgeError.remember_ne_crash {x : Option BridgeError} (hx : x ≠ some .reentered)
    {e : BridgeError} (he : e ≠ .reentered) : e.remember x ≠ some .reentered := by
  cases x with
  | none => cases e <;> simp_all [remember]
  | some x => cases e <;> simp_all [remember]

namespace Bridge

/-! ### Inside a poll -/

/-- Task `t` is being polled, and the futures from `base` on are those of its poll. -/
structure Polling (t : TaskId) (base : FutureId) (b : Bridge σ) : Prop where
  touchesOwn : b.registry.TouchesOwn
  alive : b.fatal ≠ some .reentered
  running : ∀ x ∈ b.tasks, x.activity = .running → x.id = t
  created : base ≤ b.futures.cells.size
  /-- Nothing resumes a task when one of the poll's own futures resolves. -/
  own : ∀ f k, base ≤ f → (b.futures.get f).waiting = some k →
    ∃ c, k = .callback c ∧ c.TouchesOnly (base ≤ ·)

theorem le_of_mine {base f : FutureId} (hf : base ≤ f) : ∀ g, base ≤ g ∨ g = f → base ≤ g := by
  rintro g (hg | rfl)
  · exact hg
  · exact hf

namespace Polling

variable {t : TaskId} {base : FutureId} {b : Bridge σ}

theorem modifyTask (h : b.Polling t base) (t' : TaskId) (change : Task σ → Task σ)
    (hid : ∀ x, (change x).id = x.id) (hactivity : ∀ x, (change x).activity = x.activity) :
    (b.modifyTask t' change).Polling t base where
  touchesOwn := h.touchesOwn
  alive := h.alive
  running x hx hrunning := by
    obtain ⟨y, hy, rfl⟩ := List.mem_map.1 hx
    split at hrunning
    · rw [if_pos ‹_›, hid]
      exact h.running y hy (hactivity y ▸ hrunning)
    · rw [if_neg ‹_›]
      exact h.running y hy hrunning
  created := h.created
  own := h.own

theorem create (h : b.Polling t base) :
    ({ b with futures := b.futures.create.2 } : Bridge σ).Polling t base where
  touchesOwn := h.touchesOwn
  alive := h.alive
  running := h.running
  created := by
    rw [FutureStore.create, Array.size_push]
    exact Nat.le_succ_of_le h.created
  own f k hf hk := h.own f k hf (by rwa [FutureStore.get_create] at hk)

theorem set (h : b.Polling t base) (f : FutureId) {c : Cell Continuation}
    (hc : ∀ k, c.waiting = some k → ∃ call, k = .callback call ∧ call.TouchesOnly (base ≤ ·)) :
    ({ b with futures := b.futures.set f c } : Bridge σ).Polling t base where
  touchesOwn := h.touchesOwn
  alive := h.alive
  running := h.running
  created := by
    have hcreated := h.created
    simpa only [FutureStore.set, Array.size_setIfInBounds] using hcreated
  own g k hg hk := by
    by_cases hne : g = f
    · subst hne
      by_cases hlt : g < b.futures.cells.size
      · rw [FutureStore.get_set_self _ hlt] at hk
        exact hc k hk
      · rw [FutureStore.set_of_ge _ (Nat.le_of_not_lt hlt)] at hk
        exact h.own g k hg hk
    · rw [FutureStore.get_set_of_ne _ (Ne.symm hne)] at hk
      exact h.own g k hg hk

theorem issue (h : b.Polling t base) (t' : TaskId) (caller : FrameId) (p : Program) :
    (b.issue t' caller p).2.Polling t base :=
  modifyTask (b := { b with
      futures := b.futures.create.2, outbox := b.outbox ++ [⟨p, b.futures.create.1, caller⟩] })
    { h.create with } t' _ (fun _ => rfl) fun _ => rfl

theorem invokeFor (h : b.Polling t base) (t' : TaskId) (p : Program) :
    (b.invokeFor t' p).2.Polling t base := by
  rw [Bridge.invokeFor]
  split
  · exact h.issue t' _ p
  · exact h.create.set _ (by simp)

/-- A new handle is one of the poll's own. -/
theorem base_le_invokeFor (h : b.Polling t base) (t' : TaskId) (p : Program) :
    base ≤ (b.invokeFor t' p).1 := by
  rw [Bridge.invokeFor]
  split <;> exact h.created

section Firing

variable {fire : Continuation → Bridge σ → Bridge σ}
  (hfire : ∀ (c : Callback) (b : Bridge σ), c.TouchesOnly (base ≤ ·) → b.Polling t base →
    (fire (.callback c) b).Polling t base)

include hfire

theorem settle (h : b.Polling t base) {f : FutureId} (hf : base ≤ f) (o : Outcome) :
    (b.settle fire f o).2.Polling t base := by
  have hset := h.set f (c := { b.futures.get f with outcome := some o, waiting := none }) nofun
  rw [Bridge.settle]
  rcases b.futures.resolve_cases f o with ⟨-, heq⟩ | ⟨held, -, heq⟩
  · rw [heq]
    cases hwaiting : (b.futures.get f).waiting with
    | none => exact hset
    | some k =>
        obtain ⟨c, rfl, hc⟩ := h.own f k hf hwaiting
        exact hfire c _ hc hset
  · rw [heq]
    exact h

theorem attach (h : b.Polling t base) {f : FutureId} (hf : base ≤ f) {c : Callback}
    (hc : c.TouchesOnly (base ≤ ·)) : (b.attach fire f (.callback c)).2.Polling t base := by
  rw [Bridge.attach]
  rcases b.futures.register_cases f (.callback c) with ⟨-, heq⟩ | ⟨-, ⟨-, heq⟩ | ⟨o, -, heq⟩⟩
  · rw [heq]
    exact h
  · rw [heq]
    refine h.set f fun k hk => ⟨c, ?_, hc⟩
    exact (Option.some.inj hk).symm
  · rw [heq]
    exact hfire c _ hc (h.set f fun k hk => h.own f k hf hk)

theorem callBack (h : b.Polling t base) {c : Callback} (hc : c.TouchesOnly (base ≤ ·)) :
    (b.callBack fire c).Polling t base := by
  induction c generalizing b with
  | done => exact h
  | callerOf t' k ih => exact ih _ h (hc _)
  | invoke t' p k ih =>
      exact ih _ (h.invokeFor t' p) ((hc _).mono (le_of_mine (h.base_le_invokeFor t' p)))
  | invokeNamed t' name k ih =>
      rw [Bridge.callBack]
      split
      · exact ih _ h (hc.1 _)
      · next p _ =>
          exact ih _ (h.invokeFor t' p) ((hc.2 _).mono (le_of_mine (h.base_le_invokeFor t' p)))
  | observe f k ih => exact ih _ h (hc _)
  | resolve f o k ih => exact ih _ (h.settle hfire hc.1 o) (hc.2 _)
  | register f c k _ ih => exact ih _ (h.attach hfire hc.1 hc.2.1) (hc.2.2 _)
  | note n k ih => exact ih { h with } hc

theorem converse (h : b.Polling t base) (t' : TaskId) (caller : FrameId) {p : Poll σ}
    (hp : p.TouchesOnly (base ≤ ·)) : (b.converse fire t' caller p).2.Polling t base := by
  induction p generalizing b with
  | ready r => exact h
  | pending s => exact h
  | context k ih => exact ih t' caller h (hp t' caller)
  | invoke p k ih => exact ih _ (h.issue t' caller p) ((hp _).mono (le_of_mine h.created))
  | invokeNamed name k ih =>
      rw [Bridge.converse]
      split
      · exact ih _ h (hp.1 _)
      · next p _ => exact ih _ (h.issue t' caller p) ((hp.2 _).mono (le_of_mine h.created))
  | observe f k ih => exact ih _ h (hp _)
  | resolve f o k ih => exact ih _ (h.settle hfire hp.1 o) (hp.2 _)
  | register f c k ih => exact ih _ (h.attach hfire hp.1 hp.2.1) (hp.2.2 _)
  | note n k ih => exact ih { h with } hp

end Firing

/-- A continuation that runs inside the poll keeps to the poll's own futures. -/
theorem fire (h : b.Polling t base) (depth : Nat) {c : Callback} (hc : c.TouchesOnly (base ≤ ·)) :
    (fire depth (.callback c) b).Polling t base := by
  induction depth generalizing c b with
  | zero =>
      exact { h with alive := BridgeError.remember_ne_crash h.alive (e := .nestedTooDeep) nofun }
  | succ depth ih => exact h.callBack (fun _ _ hc h => ih h hc) hc

end Polling

/-! ### Between polls -/

/-- No task is being polled, and the process goes on. -/
structure Resting (b : Bridge σ) : Prop where
  touchesOwn : b.registry.TouchesOwn
  alive : b.fatal ≠ some .reentered
  resting : ∀ x ∈ b.tasks, x.activity ≠ .running

namespace Resting

variable {b : Bridge σ}

theorem fail (h : b.Resting) {e : BridgeError} (he : e ≠ .reentered) : (b.fail e).Resting :=
  { h with alive := BridgeError.remember_ne_crash h.alive he }

theorem modifyTask (h : b.Resting) (t : TaskId) (change : Task σ → Task σ)
    (hactivity : ∀ x, x.activity ≠ .running → (change x).activity ≠ .running) :
    (b.modifyTask t change).Resting where
  touchesOwn := h.touchesOwn
  alive := h.alive
  resting x hx := by
    obtain ⟨y, hy, rfl⟩ := List.mem_map.1 hx
    split
    · exact hactivity y (h.resting y hy)
    · exact h.resting y hy

theorem invokeFor (h : b.Resting) (t : TaskId) (p : Program) : (b.invokeFor t p).2.Resting := by
  rw [Bridge.invokeFor]
  split
  · next task _ =>
      exact modifyTask (b := { b with
        futures := b.futures.create.2
        outbox := b.outbox ++ [⟨p, b.futures.create.1, task.caller⟩] }) { h with } t _ fun _ hx => hx
  · exact { h with }

/-- A poll begins with the futures that there are none of its own. -/
theorem polling (h : b.Resting) (t : TaskId) :
    (b.modifyTask t fun x => { x with activity := .running, drives := x.drives + 1 }).Polling t
      b.futures.cells.size where
  touchesOwn := h.touchesOwn
  alive := h.alive
  running x hx hrunning := by
    obtain ⟨y, hy, rfl⟩ := List.mem_map.1 hx
    split at hrunning
    · rw [if_pos ‹_›]
      assumption
    · exact absurd hrunning (h.resting y hy)
  created := Nat.le_refl _
  own f k hf hk := by
    have hempty : b.futures.get f = {} := b.futures.get_of_ge hf
    have hk' : (b.futures.get f).waiting = some k := hk
    rw [hempty] at hk'
    cases hk'

end Resting

/-- Once its task is no longer polled, nobody is. -/
theorem Polling.rests {t : TaskId} {base : FutureId} {b : Bridge σ} (h : b.Polling t base)
    (change : Task σ → Task σ) (hactivity : ∀ x, (change x).activity ≠ .running) :
    (b.modifyTask t change).Resting where
  touchesOwn := h.touchesOwn
  alive := h.alive
  resting x hx := by
    obtain ⟨y, hy, rfl⟩ := List.mem_map.1 hx
    split
    · exact hactivity y
    · next hne => exact fun hrunning => hne (h.running y hy hrunning)

namespace Resting

variable {b : Bridge σ}

section Firing

variable {fire : Continuation → Bridge σ → Bridge σ}
  (hfire : ∀ k (b : Bridge σ), b.Resting → (fire k b).Resting)

include hfire

theorem settle (h : b.Resting) (f : FutureId) (o : Outcome) : (b.settle fire f o).2.Resting := by
  rw [Bridge.settle]
  split
  · exact h
  · exact { h with }
  · exact hfire _ _ { h with }

theorem attach (h : b.Resting) (f : FutureId) (k : Continuation) :
    (b.attach fire f k).2.Resting := by
  rw [Bridge.attach]
  split
  · exact h
  · exact { h with }
  · exact hfire _ _ { h with }

theorem callBack (h : b.Resting) (c : Callback) : (b.callBack fire c).Resting := by
  induction c generalizing b with
  | done => exact h
  | callerOf t k ih => exact ih _ h
  | invoke t p k ih => exact ih _ (h.invokeFor t p)
  | invokeNamed t name k ih =>
      rw [Bridge.callBack]
      split
      · exact ih _ h
      · next p _ => exact ih _ (h.invokeFor t p)
  | observe f k ih => exact ih _ h
  | resolve f o k ih => exact ih _ (h.settle hfire f o)
  | register f c k _ ih => exact ih _ (h.attach hfire f (.callback c))
  | note n k ih => exact ih { h with }

theorem awaitAll (h : b.Resting) (t : TaskId) (fs : List FutureId) :
    (b.awaitAll fire t fs).2.Resting ∧ (b.awaitAll fire t fs).1 ≠ .error .reentered := by
  induction fs generalizing b with
  | nil => exact ⟨h, nofun⟩
  | cons f fs ih =>
      have hattach := (h.modifyTask t (fun x => { x with outstanding := x.outstanding + 1 })
        fun _ hx => hx).attach hfire f (.resume t)
      rw [Bridge.awaitAll]
      split
      · next heq =>
          rw [heq] at hattach
          exact ⟨hattach, by simp⟩
      · next heq =>
          rw [heq] at hattach
          exact ih hattach

end Firing

theorem conclude (h : b.Resting) (task : Task σ) (result : DispatchResult) :
    (b.conclude task result).Resting :=
  modifyTask (b := b.finish task.caller task.routine result) { h with } task.id _ fun _ _ => nofun

theorem checkStalled (h : b.Resting) (task : Task σ) : (b.checkStalled task).Resting := by
  rw [Bridge.checkStalled]
  split
  · exact h.conclude task _
  · exact h

theorem release (h : b.Resting) (t : TaskId) : (b.release t).Resting where
  touchesOwn := h.touchesOwn
  alive := h.alive
  resting x hx := (h.modifyTask t (fun x => { x with drives := x.drives - 1 })
    fun _ hx => hx).resting x (List.mem_filter.1 hx).1

section Firing

variable {fire : Continuation → Bridge σ → Bridge σ}
  (hfire : ∀ k (b : Bridge σ), b.Resting → (fire k b).Resting)

include hfire

/-- The follow-up of a poll ends it before anything else runs. -/
theorem followUp {task : Task σ} {base : FutureId} {b : Bridge σ} (h : b.Polling task.id base)
    (answer : Answer σ) :
    (b.followUp fire task answer).2.Resting ∧
      (b.followUp fire task answer).1 ≠ .error .reentered := by
  have hpolled := h.modifyTask task.id (fun x => { x with issued := [] }) (fun _ => rfl) fun _ => rfl
  cases answer with
  | ready r =>
      have hfinished : (((b.modifyTask task.id fun x => { x with issued := [] }).finish task.caller
          task.routine (deliverable task.routine r))).Polling task.id base := { hpolled with }
      exact ⟨hfinished.rests (fun x => { x with activity := .over, listed := false }) (by simp),
        by simp [Bridge.followUp]⟩
  | pending s =>
      have hrests := hpolled.rests (fun x => { x with activity := .idle s }) (by simp)
      have hawait := hrests.awaitAll hfire task.id (((b.task? task.id).map (·.issued)).getD [])
      rw [Bridge.followUp]
      split
      · next heq =>
          rw [heq] at hawait
          exact ⟨hawait.1, hawait.2⟩
      · next heq =>
          rw [heq] at hawait
          exact ⟨hawait.1.checkStalled task, by simp⟩

theorem drive (hpoll : ∀ (t : TaskId) (base : FutureId) (c : Callback) (b : Bridge σ),
      c.TouchesOnly (base ≤ ·) → b.Polling t base → (fire (.callback c) b).Polling t base)
    (h : b.Resting) (t : TaskId) :
    (b.drive fire t).2.Resting ∧ (b.drive fire t).1 ≠ .error .reentered := by
  rw [Bridge.drive]
  split
  · exact ⟨h, by simp⟩
  · next task htask =>
      obtain rfl : task.id = t := by simpa using List.find?_some htask
      split
      · next s _ =>
          have htouches : (b.registry.poll s).TouchesOnly (b.futures.cells.size ≤ ·) :=
            (h.touchesOwn s).mono fun _ => False.elim
          have hconverse := (h.polling task.id).converse (hpoll task.id _) task.id task.caller htouches
          obtain ⟨hrests, hresult⟩ := followUp hfire hconverse (Bridge.converse fire task.id task.caller
            (b.registry.poll s) (b.modifyTask task.id fun x =>
              { x with activity := .running, drives := x.drives + 1 })).1
          exact ⟨hrests.release task.id, hresult⟩
      · next hrunning => exact absurd hrunning (h.resting task (List.mem_of_find?_eq_some htask))
      · exact ⟨h, by simp⟩

end Firing

/-- What was resumed and what it fires leave no task in the middle of a poll. -/
theorem fire (h : b.Resting) (depth : Nat) (k : Continuation) : (fire depth k b).Resting := by
  induction depth generalizing k b with
  | zero => exact h.fail (by decide)
  | succ depth ih =>
      cases k with
      | callback c => exact h.callBack (fun k _ h => ih h k) c
      | resume t =>
          rw [Bridge.fire]
          split
          · exact h
          · next task htask =>
              have hless := h.modifyTask t
                (fun x => { x with outstanding := x.outstanding - 1 }) fun _ hx => hx
              have hrecorded : ((b.modifyTask t fun x =>
                  { x with outstanding := x.outstanding - 1 }).record
                    (.resumed task.caller task.routine)).Resting := { hless with }
              have hdrive := hrecorded.drive (fun k _ h => ih h k)
                (fun _ _ _ _ hc h => h.fire depth hc) t
              simp only
              split
              · next heq =>
                  rw [heq] at hdrive
                  exact hdrive.1
              · next heq =>
                  rw [heq] at hdrive
                  exact hdrive.1.fail fun he => hdrive.2 (congrArg Except.error he)

/-! ### Steps -/

theorem start (h : b.Resting) (caller : FrameId) (routine : String) (s : σ) :
    (b.start caller routine s).2.Resting := by
  have hbegun : ({ b with
      nextTask := b.nextTask + 1
      tasks := { id := b.nextTask, caller, routine, activity := .idle s } :: b.tasks } :
        Bridge σ).Resting := by
    refine { h with resting := fun x hx => ?_ }
    rcases List.mem_cons.1 hx with rfl | hx
    · nofun
    · exact h.resting x hx
  have hfire : ∀ k (b' : Bridge σ), b'.Resting → (Bridge.fire b.nesting k b').Resting :=
    fun k _ h => h.fire b.nesting k
  have hdrive := hbegun.drive hfire (fun _ _ _ _ hc h => h.fire b.nesting hc) b.nextTask
  rw [Bridge.start]
  dsimp only
  split
  · next heq =>
      rw [heq] at hdrive
      exact hdrive.1
  · next heq =>
      rw [heq] at hdrive
      exact hdrive.1.fail fun he => hdrive.2 (congrArg Except.error he)

theorem call (h : b.Resting) (id : RoutineId) (caller : FrameId) (m : Machine) :
    (call id caller m b).2.2.Resting := by
  rw [Bridge.call]
  split
  · exact h
  · next r _ =>
      have hrecord : (b.record (.dispatchStarted caller r.name id)).Resting := { h with }
      dsimp only
      split
      · exact hrecord
      · next args _ _ =>
          dsimp only
          rw [Bridge.apply]
          split
          · exact hrecord
          · exact { hrecord with }
          · dsimp only
            rw [foldl_addNote]
            split <;> exact { hrecord with }
          · exact hrecord.start _ _ _

theorem loadAll (h : b.Resting) (is : List Invocation) (m : Machine) :
    (loadAll is m b).2.2.Resting ∧ (loadAll is m b).1 ≠ .error (.bridge .reentered) := by
  induction is generalizing m b with
  | nil => exact ⟨h, nofun⟩
  | cons i is ih =>
      rw [Bridge.loadAll]
      dsimp only
      rcases PendingTable.insert_cases (b.record (.frameLoaded (m.load i.program).1 i.program.name
        i.caller)).table (m.load i.program).1 i.future with
        ⟨-, heq⟩ | ⟨-, -, heq⟩ | ⟨-, -, heq⟩
      · rw [heq]
        exact ⟨{ h with }, by simp⟩
      · rw [heq]
        exact ⟨{ h with }, by simp⟩
      · rw [heq]
        exact ih (b := { b.record _ with table := _ }) { h with } _

/-- A flush reports the process's end only if it was there before. -/
theorem flush (h : b.Resting) (m : Machine) :
    (flush m b).2.2.Resting ∧ (flush m b).1 ≠ .error (.bridge .reentered) := by
  have halive := h.alive
  have hloads := loadAll (b := { b with outbox := [] }) { h with } b.outbox m
  rw [Bridge.flush]
  split
  · next e he =>
      rw [he] at halive
      exact ⟨{ h with alive := by simp }, by simpa using halive⟩
  · split
    · next heq =>
        rw [heq] at hloads
        exact hloads
    · next heq =>
        rw [heq] at hloads
        exact ⟨{ hloads.1 with }, deliverAll_ne_bridge _ _ _⟩

theorem dispatch (h : b.Resting) (id : RoutineId) (caller : FrameId) (m : Machine) :
    (dispatch id caller m b).2.2.Resting ∧
      (dispatch id caller m b).1 ≠ .error (.bridge .reentered) := by
  have hcall := h.call id caller m
  rw [Bridge.dispatch]
  generalize Bridge.call id caller m b = x at hcall ⊢
  rcases x with ⟨e | _ | _, m₁, b₁⟩
  · exact flush (b := b₁.finish caller _ _) { hcall with } m₁
  · exact hcall.flush m₁
  · dsimp only
    cases m₁.block caller with
    | error e => exact ⟨hcall, by simp⟩
    | ok m₂ => exact hcall.flush m₂

theorem complete (h : b.Resting) (t : Teardown) (m : Machine) :
    (complete t m b).2.2.Resting ∧ (complete t m b).1 ≠ .error (.bridge .reentered) := by
  have hrecord : (b.record (.frameTornDown t.frame t.faulted)).Resting := { h with }
  unfold Bridge.complete
  dsimp only
  generalize b.record (.frameTornDown t.frame t.faulted) = b at hrecord ⊢
  split
  · exact hrecord.flush m
  · next f table _ =>
      have hfire : ∀ k (b' : Bridge σ), b'.Resting → (Bridge.fire b.nesting k b').Resting :=
        fun k _ h => h.fire b.nesting k
      have hsettle := settle (b := { b with table }) hfire { hrecord with } f t.outcome
      split
      · next heq =>
          rw [heq] at hsettle
          exact hsettle.flush m
      · next e b₁ heq =>
          rw [heq] at hsettle
          exact (fail (b := b₁) hsettle (e := .future e) nofun).flush m

/-- No step ends the process, and none leaves a routine in the middle of a poll. -/
theorem step (h : b.Resting) (m : Machine) :
    (m.step host b).2.2.Resting ∧
      ∀ site, (m.step host b).1 ≠ .error (.hook site (.bridge .reentered)) := by
  have hat : ∀ site (x : Except HookError Unit × Machine × Bridge σ),
      x.2.2.Resting ∧ x.1 ≠ .error (.bridge .reentered) →
      (Machine.atSite site x).2.2.Resting ∧
        ∀ site', (Machine.atSite site x).1 ≠ .error (.hook site' (.bridge .reentered)) := by
    rintro site ⟨e | _, m', b'⟩ ⟨hrests, hne⟩
    · exact ⟨hrests, fun site' heq => hne (congrArg Except.error (Halt.hook.inj (Except.error.inj heq)).2)⟩
    · exact ⟨hrests, by simp [Machine.atSite]⟩
  have hhook := Machine.advance_ne_hook (ε := HookError) m
  rw [Machine.step]
  generalize @Machine.advance HookError m = x at hhook ⊢
  rcases x with ⟨e | _ | _ | ⟨id, caller⟩ | t, m₁⟩
  · exact ⟨h, fun site heq => hhook site _ (congrArg Except.error (Except.error.inj heq))⟩
  · exact ⟨h, by simp⟩
  · exact ⟨h, by simp⟩
  · exact hat _ _ (h.dispatch id caller m₁)
  · exact hat _ _ (h.complete t m₁)

end Resting

end Bridge

end Reentrant
