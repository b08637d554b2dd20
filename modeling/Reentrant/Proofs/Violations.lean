import Reentrant.Proofs.RenumberedBridge

/-!
What violates the bridge's bookkeeping, and where. A violation has one of five origins: the registration
that makes an invocation resume its task, the resolution by which the end of a frame reaches its future,
the entry of a loaded frame into the table, a continuation that is nested too deep, and a resumption of
the routine that is being polled, which ends the process. The functions here list the violations of every
operation, each at its origin, in the order in which they happen.

Beside the run that remembers violations stands the heedless one, which throws them away. The two do the
same, apart from what they remember: so nothing that routines do can depend on a violation. As in the
bridge itself, every operation is given what a continuation does, and here also what it violates.
-/

namespace Reentrant

variable {σ : Type}

namespace Bridge

/-! ### Violations of the operations -/

section Raised

variable (fire : Continuation → Bridge σ → Bridge σ)
  (raised : Continuation → Bridge σ → List BridgeError)

/-- A resolution violates nothing itself; its continuation may. -/
def settleRaises (b : Bridge σ) (f : FutureId) (o : Outcome) : List BridgeError :=
  match b.futures.resolve f o with
  | .ok (futures, some k) => raised k { b with futures }
  | _ => []

def attachRaises (b : Bridge σ) (f : FutureId) (k : Continuation) : List BridgeError :=
  match b.futures.register f k with
  | .ok (futures, some k) => raised k { b with futures }
  | _ => []

/-- What a routine's own resolutions and registrations are refused with is an answer to the routine and
no violation. -/
def callBackRaises : Callback → Bridge σ → List BridgeError
  | .done, _ => []
  | .callerOf t k, b => callBackRaises (k (b.callerOf t)) b
  | .invoke t p k, b => callBackRaises (k (b.invokeFor t p).1) (b.invokeFor t p).2
  | .invokeNamed t name k, b =>
      match b.library.get? name with
      | none => callBackRaises (k (.error (.noProcedure name))) b
      | some p => callBackRaises (k (.ok (b.invokeFor t p).1)) (b.invokeFor t p).2
  | .observe f k, b => callBackRaises (k (b.futures.outcome? f)) b
  | .resolve f o k, b =>
      b.settleRaises raised f o ++ callBackRaises (k (b.settle fire f o).1) (b.settle fire f o).2
  | .register f c k, b =>
      b.attachRaises raised f (.callback c) ++
        callBackRaises (k (b.attach fire f (.callback c)).1) (b.attach fire f (.callback c)).2
  | .note n k, b => callBackRaises k (b.addNote n)

/-- As for the routine's own continuations. -/
def converseRaises (t : TaskId) (caller : FrameId) : Poll σ → Bridge σ → List BridgeError
  | .ready _, _ => []
  | .pending _, _ => []
  | .context k, b => converseRaises t caller (k t caller) b
  | .invoke p k, b => converseRaises t caller (k (b.issue t caller p).1) (b.issue t caller p).2
  | .invokeNamed name k, b =>
      match b.library.get? name with
      | none => converseRaises t caller (k (.error (.noProcedure name))) b
      | some p => converseRaises t caller (k (.ok (b.issue t caller p).1)) (b.issue t caller p).2
  | .observe f k, b => converseRaises t caller (k (b.futures.outcome? f)) b
  | .resolve f o k, b =>
      b.settleRaises raised f o ++
        converseRaises t caller (k (b.settle fire f o).1) (b.settle fire f o).2
  | .register f c k, b =>
      b.attachRaises raised f (.callback c) ++
        converseRaises t caller (k (b.attach fire f (.callback c)).1)
          (b.attach fire f (.callback c)).2
  | .note n k, b => converseRaises t caller k (b.addNote n)

/-- A registration that is refused is a violation, and the last one of its drive. -/
def awaitAllRaises (t : TaskId) : List FutureId → Bridge σ → List BridgeError
  | [], _ => []
  | f :: fs, b =>
      let b := b.modifyTask t fun x => { x with outstanding := x.outstanding + 1 }
      b.attachRaises raised f (.resume t) ++
        match b.attach fire f (.resume t) with
        | (some e, _) => [.future e]
        | (none, b) => awaitAllRaises t fs b

def followUpRaises (task : Task σ) (answer : Answer σ) (b : Bridge σ) : List BridgeError :=
  match answer with
  | .ready _ => []
  | .pending s =>
      awaitAllRaises fire raised task.id (((b.task? task.id).map (·.issued)).getD [])
        ((b.modifyTask task.id fun x => { x with issued := [] }).modifyTask task.id fun x =>
          { x with activity := .idle s })

def driveRaises (t : TaskId) (b : Bridge σ) : List BridgeError :=
  match b.task? t with
  | none => []
  | some task =>
      match task.activity with
      | .idle s =>
          let b := b.modifyTask t fun x => { x with activity := .running, drives := x.drives + 1 }
          converseRaises fire raised t task.caller (b.registry.poll s) b ++
            followUpRaises fire raised task (b.converse fire t task.caller (b.registry.poll s)).1
              (b.converse fire t task.caller (b.registry.poll s)).2
      | .running => [.reentered]
      | .over => []

end Raised

/-- The violations of a continuation, where continuations inside it run by `run`. -/
def raises (run : Nat → Continuation → Bridge σ → Bridge σ) :
    (depth : Nat) → Continuation → Bridge σ → List BridgeError
  | 0, _, _ => [.nestedTooDeep]
  | depth + 1, .callback c, b => callBackRaises (run depth) (raises run depth) c b
  | depth + 1, .resume t, b =>
      match b.task? t with
      | none => []
      | some task =>
          driveRaises (run depth) (raises run depth) t
            ((b.modifyTask t fun x => { x with outstanding := x.outstanding - 1 }).record
              (.resumed task.caller task.routine))

/-- Runs a continuation like `Bridge.fire`, but throws violations away. -/
def heedless : (depth : Nat) → Continuation → Bridge σ → Bridge σ
  | 0, _, b => b
  | depth + 1, .callback c, b => b.callBack (heedless depth) c
  | depth + 1, .resume t, b =>
      match b.task? t with
      | none => b
      | some task =>
          (((b.modifyTask t fun x => { x with outstanding := x.outstanding - 1 }).record
            (.resumed task.caller task.routine)).drive (heedless depth) t).2

/-! ### The two runs -/

/-- The same bridge with another violation remembered and another table. -/
def under (b : Bridge σ) (fatal : Option BridgeError) (table : PendingTable) : Bridge σ :=
  { b with fatal, table }

theorem checkStalled_under (b : Bridge σ) (task : Task σ) (x : Option BridgeError) (tb : PendingTable) :
    (b.under x tb).checkStalled task = (b.checkStalled task).under x tb := by
  have htask : (b.under x tb).task? task.id = b.task? task.id := rfl
  rw [checkStalled, checkStalled, htask]
  split <;> rfl

theorem invokeFor_under (b : Bridge σ) (t : TaskId) (p : Program) (x : Option BridgeError)
    (tb : PendingTable) :
    (b.under x tb).invokeFor t p = ((b.invokeFor t p).1, (b.invokeFor t p).2.under x tb) := by
  have htask : (b.under x tb).task? t = b.task? t := rfl
  rw [invokeFor, invokeFor, htask]
  cases b.task? t <;> rfl

/-- What is remembered after the violations `log`, with `x` remembered before. -/
def remembered (x : Option BridgeError) (log : List BridgeError) : Option BridgeError :=
  log.foldl BridgeError.remember x

theorem remembered_append (x : Option BridgeError) (l l' : List BridgeError) :
    remembered x (l ++ l') = remembered (remembered x l) l' := List.foldl_append

theorem remembered_crash (log : List BridgeError) :
    remembered (some .reentered) log = some .reentered := by
  induction log with
  | nil => rfl
  | cons e log ih =>
      have he : BridgeError.remember (some .reentered) e = some .reentered := by cases e <;> rfl
      rw [remembered, List.foldl_cons, he]
      exact ih

/-- The end of the process is remembered whatever else is. -/
theorem remembered_of_mem {log : List BridgeError} (h : .reentered ∈ log) (x : Option BridgeError) :
    remembered x log = some .reentered := by
  obtain ⟨before, after, rfl⟩ := List.append_of_mem h
  rw [remembered_append]
  exact remembered_crash after

/-- As long as the process goes on, it is the first violation that is remembered. -/
theorem remembered_of_not_mem {log : List BridgeError} (h : .reentered ∉ log)
    (x : Option BridgeError) : remembered x log = x.or log.head? := by
  induction log generalizing x with
  | nil => exact Option.or_none.symm
  | cons e log ih =>
      obtain ⟨hne, hnot⟩ := List.ne_and_not_mem_of_not_mem_cons h
      have he : BridgeError.remember x e = x.or (some e) := by
        cases e with
        | reentered => exact absurd rfl hne
        | _ => rfl
      calc remembered x (e :: log) = remembered (x.or (some e)) log := by rw [← he]; rfl
        _ = (x.or (some e)).or log.head? := ih hnot _
        _ = x.or (e :: log).head? := by cases x <;> rfl

theorem remembered_eq_crash {log : List BridgeError} :
    remembered none log = some .reentered ↔ .reentered ∈ log := by
  refine ⟨fun h => ?_, fun h => remembered_of_mem h none⟩
  by_contra hnot
  rw [remembered_of_not_mem hnot, Option.none_or] at h
  exact hnot (List.mem_of_head? h)

theorem remembered_cons (e : BridgeError) (log : List BridgeError) :
    ∃ e', remembered none (e :: log) = some e' := by
  by_cases h : .reentered ∈ e :: log
  · exact ⟨_, remembered_of_mem h none⟩
  · exact ⟨e, remembered_of_not_mem h none⟩

/-- `fire` does what `quiet` does and violates what `listed` says, which it remembers, and it leaves the
table alone. -/
structure Heeds (fire quiet : Continuation → Bridge σ → Bridge σ)
    (raised listed : Continuation → Bridge σ → List BridgeError) : Prop where
  run : ∀ k b x tb, fire k (under b x tb) = (quiet k b).under (remembered x (listed k b)) tb
  log : ∀ k b x tb, raised k (under b x tb) = listed k b

/-- The violation that an operation returns instead of remembering it. -/
def returned : Except BridgeError Unit → List BridgeError
  | .ok _ => []
  | .error e => [e]

/-- `r` is the result `r'`, where of the violations `log` the one that is returned is not remembered. -/
def Returns (r r' : Except BridgeError Unit × Bridge σ) (log : List BridgeError)
    (x : Option BridgeError) (tb : PendingTable) : Prop :=
  ∃ inner, log = inner ++ returned r'.1 ∧ r = (r'.1, r'.2.under (remembered x inner) tb)

namespace Heeds

variable {fire quiet : Continuation → Bridge σ → Bridge σ}
  {raised listed : Continuation → Bridge σ → List BridgeError} (h : Heeds fire quiet raised listed)
  (x : Option BridgeError) (tb : PendingTable)

include h

theorem settle (b : Bridge σ) (f : FutureId) (o : Outcome) :
    (b.under x tb).settle fire f o =
        ((b.settle quiet f o).1, (b.settle quiet f o).2.under (remembered x (b.settleRaises listed f o)) tb) ∧
      (b.under x tb).settleRaises raised f o = b.settleRaises listed f o := by
  have hfutures : (b.under x tb).futures = b.futures := rfl
  unfold Bridge.settle settleRaises
  rw [hfutures]
  rcases b.futures.resolve f o with e | ⟨futures, _ | k⟩
  · exact ⟨rfl, rfl⟩
  · exact ⟨rfl, rfl⟩
  · exact ⟨congrArg (Prod.mk none) (h.run k { b with futures } x tb), h.log k { b with futures } x tb⟩

theorem attach (b : Bridge σ) (f : FutureId) (k : Continuation) :
    (b.under x tb).attach fire f k =
        ((b.attach quiet f k).1, (b.attach quiet f k).2.under (remembered x (b.attachRaises listed f k)) tb) ∧
      (b.under x tb).attachRaises raised f k = b.attachRaises listed f k := by
  have hfutures : (b.under x tb).futures = b.futures := rfl
  unfold Bridge.attach attachRaises
  rw [hfutures]
  rcases b.futures.register f k with e | ⟨futures, _ | k⟩
  · exact ⟨rfl, rfl⟩
  · exact ⟨rfl, rfl⟩
  · exact ⟨congrArg (Prod.mk none) (h.run k { b with futures } x tb), h.log k { b with futures } x tb⟩

/-- A continuation is answered the same, so no violation is shown to it. -/
theorem callBack (c : Callback) (b : Bridge σ) :
    (b.under x tb).callBack fire c =
        (b.callBack quiet c).under (remembered x (callBackRaises quiet listed c b)) tb ∧
      callBackRaises fire raised c (b.under x tb) = callBackRaises quiet listed c b := by
  induction c generalizing b x with
  | done => exact ⟨rfl, rfl⟩
  | callerOf t k ih => exact ih _ x b
  | invoke t p k ih =>
      simp only [Bridge.callBack, callBackRaises, invokeFor_under]
      exact ih _ x (b.invokeFor t p).2
  | invokeNamed t name k ih =>
      have hlibrary : (b.under x tb).library = b.library := rfl
      simp only [Bridge.callBack, callBackRaises, hlibrary]
      cases b.library.get? name with
      | none => exact ih _ x b
      | some p =>
          simp only [invokeFor_under]
          exact ih _ x (b.invokeFor t p).2
  | observe f k ih => exact ih _ x b
  | resolve f o k ih =>
      obtain ⟨hrun, hlog⟩ := h.settle x tb b f o
      obtain ⟨hnext, hnextlog⟩ := ih (b.settle quiet f o).1 (remembered x (b.settleRaises listed f o))
        (b.settle quiet f o).2
      simp only [Bridge.callBack, callBackRaises, hrun, hlog]
      rw [hnext, hnextlog, ← remembered_append]
      exact ⟨rfl, rfl⟩
  | register f c k _ ih =>
      obtain ⟨hrun, hlog⟩ := h.attach x tb b f (.callback c)
      obtain ⟨hnext, hnextlog⟩ := ih (b.attach quiet f (.callback c)).1
        (remembered x (b.attachRaises listed f (.callback c))) (b.attach quiet f (.callback c)).2
      simp only [Bridge.callBack, callBackRaises, hrun, hlog]
      rw [hnext, hnextlog, ← remembered_append]
      exact ⟨rfl, rfl⟩
  | note n k ih => exact ih x (b.addNote n)

/-- A routine is answered the same. -/
theorem converse (t : TaskId) (caller : FrameId) (p : Poll σ) (b : Bridge σ) :
    (b.under x tb).converse fire t caller p =
        ((b.converse quiet t caller p).1, (b.converse quiet t caller p).2.under
          (remembered x (converseRaises quiet listed t caller p b)) tb) ∧
      converseRaises fire raised t caller p (b.under x tb) =
        converseRaises quiet listed t caller p b := by
  induction p generalizing b x with
  | ready r => exact ⟨rfl, rfl⟩
  | pending s => exact ⟨rfl, rfl⟩
  | context k ih => exact ih t caller x b
  | invoke p k ih => exact ih _ x (b.issue t caller p).2
  | invokeNamed name k ih =>
      have hlibrary : (b.under x tb).library = b.library := rfl
      simp only [Bridge.converse, converseRaises, hlibrary]
      cases b.library.get? name with
      | none => exact ih _ x b
      | some p => exact ih _ x (b.issue t caller p).2
  | observe f k ih => exact ih _ x b
  | resolve f o k ih =>
      obtain ⟨hrun, hlog⟩ := h.settle x tb b f o
      obtain ⟨hnext, hnextlog⟩ := ih (b.settle quiet f o).1 (remembered x (b.settleRaises listed f o))
        (b.settle quiet f o).2
      -- What the resolution violated is remembered before the rest of the poll begins.
      simp only [Bridge.converse, converseRaises, hrun, hlog]
      rw [hnext, hnextlog, ← remembered_append]
      exact ⟨rfl, rfl⟩
  | register f c k ih =>
      obtain ⟨hrun, hlog⟩ := h.attach x tb b f (.callback c)
      obtain ⟨hnext, hnextlog⟩ := ih (b.attach quiet f (.callback c)).1
        (remembered x (b.attachRaises listed f (.callback c))) (b.attach quiet f (.callback c)).2
      simp only [Bridge.converse, converseRaises, hrun, hlog]
      rw [hnext, hnextlog, ← remembered_append]
      exact ⟨rfl, rfl⟩
  | note n k ih => exact ih x (b.addNote n)

theorem awaitAll (t : TaskId) (fs : List FutureId) (b : Bridge σ) :
    Returns ((b.under x tb).awaitAll fire t fs) (b.awaitAll quiet t fs)
        (awaitAllRaises quiet listed t fs b) x tb ∧
      awaitAllRaises fire raised t fs (b.under x tb) = awaitAllRaises quiet listed t fs b := by
  induction fs generalizing b x with
  | nil => exact ⟨⟨[], rfl, rfl⟩, rfl⟩
  | cons f fs ih =>
      obtain ⟨hrun, hlog⟩ := h.attach x tb
        (b.modifyTask t fun y => { y with outstanding := y.outstanding + 1 }) f (.resume t)
      have hcount : (b.under x tb).modifyTask t (fun y => { y with outstanding := y.outstanding + 1 }) =
          (b.modifyTask t fun y => { y with outstanding := y.outstanding + 1 }).under x tb := rfl
      simp only [Bridge.awaitAll, awaitAllRaises, hcount, hrun, hlog]
      generalize (b.modifyTask t fun y => { y with outstanding := y.outstanding + 1 }).attachRaises
        listed f (.resume t) = inner
      rcases (b.modifyTask t fun y => { y with outstanding := y.outstanding + 1 }).attach quiet f
        (.resume t) with ⟨_ | e, b'⟩
      · obtain ⟨⟨inner', hinner', hnext⟩, hnextlog⟩ := ih (remembered x inner) b'
        dsimp only
        rw [hnext, hnextlog, ← remembered_append]
        exact ⟨⟨inner ++ inner', by rw [hinner', List.append_assoc], rfl⟩, rfl⟩
      · exact ⟨⟨inner, rfl, rfl⟩, rfl⟩

theorem followUp (task : Task σ) (answer : Answer σ) (b : Bridge σ) :
    Returns ((b.under x tb).followUp fire task answer) (b.followUp quiet task answer)
        (followUpRaises quiet listed task answer b) x tb ∧
      followUpRaises fire raised task answer (b.under x tb) =
        followUpRaises quiet listed task answer b := by
  cases answer with
  | ready r => exact ⟨⟨[], rfl, rfl⟩, rfl⟩
  | pending s =>
      have htask : (b.under x tb).task? task.id = b.task? task.id := rfl
      obtain ⟨⟨inner, hinner, hrun⟩, hlog⟩ := h.awaitAll x tb task.id
        (((b.task? task.id).map (·.issued)).getD [])
        ((b.modifyTask task.id fun y => { y with issued := [] }).modifyTask task.id fun y =>
          { y with activity := .idle s })
      have hidle : (((b.under x tb).modifyTask task.id fun y =>
          { y with issued := [] }).modifyTask task.id fun y => { y with activity := .idle s }) =
          ((b.modifyTask task.id fun y => { y with issued := [] }).modifyTask task.id fun y =>
            { y with activity := .idle s }).under x tb := rfl
      simp only [Bridge.followUp, followUpRaises, htask, hidle]
      rw [hrun, hlog]
      generalize awaitAllRaises quiet listed task.id _ _ = log at hinner ⊢
      generalize Bridge.awaitAll quiet task.id _ _ = r' at hinner ⊢
      rcases r' with ⟨e | _, b'⟩
      · exact ⟨⟨inner, hinner, rfl⟩, rfl⟩
      · exact ⟨⟨inner, hinner, by dsimp only; rw [checkStalled_under]⟩, rfl⟩

theorem drive (t : TaskId) (b : Bridge σ) :
    Returns ((b.under x tb).drive fire t) (b.drive quiet t) (driveRaises quiet listed t b) x tb ∧
      driveRaises fire raised t (b.under x tb) = driveRaises quiet listed t b := by
  have htask : (b.under x tb).task? t = b.task? t := rfl
  have hnothing : Returns ((.ok (), b.under x tb) : Except BridgeError Unit × Bridge σ) (.ok (), b)
      [] x tb := ⟨[], rfl, rfl⟩
  unfold Bridge.drive driveRaises
  rw [htask]
  rcases b.task? t with _ | task
  · exact ⟨hnothing, rfl⟩
  · dsimp only
    rcases task.activity with s | _ | _
    · have hpolled : ((b.under x tb).modifyTask t fun y =>
          { y with activity := .running, drives := y.drives + 1 }) =
          (b.modifyTask t fun y =>
            { y with activity := .running, drives := y.drives + 1 }).under x tb := rfl
      dsimp only
      rw [hpolled]
      generalize (b.modifyTask t fun y =>
        { y with activity := .running, drives := y.drives + 1 }) = b₁
      have hregistry : (b₁.under x tb).registry = b₁.registry := rfl
      obtain ⟨hconverse, hlog⟩ := h.converse x tb t task.caller (b₁.registry.poll s) b₁
      rw [hregistry, hconverse, hlog]
      generalize converseRaises quiet listed t task.caller _ _ = polled
      generalize Bridge.converse quiet t task.caller _ _ = r'
      obtain ⟨answer, b'⟩ := r'
      obtain ⟨⟨inner, hinner, hfollow⟩, hfollowlog⟩ := h.followUp (remembered x polled) tb task answer b'
      dsimp only
      rw [hfollow, hfollowlog]
      refine ⟨⟨polled ++ inner, ?_, ?_⟩, rfl⟩
      · rw [hinner, List.append_assoc]
      · rw [← remembered_append]
        rfl
    · exact ⟨⟨[.reentered], rfl, rfl⟩, rfl⟩
    · exact ⟨hnothing, rfl⟩

end Heeds

/-- A violation that a drive returns is remembered where the drive was asked for. -/
theorem Returns.taken_up {r r' : Except BridgeError Unit × Bridge σ} {log : List BridgeError}
    {x : Option BridgeError} {tb : PendingTable} (h : Returns r r' log x tb) :
    remembering r = r'.2.under (remembered x log) tb := by
  obtain ⟨inner, rfl, rfl⟩ := h
  obtain ⟨e | _, b'⟩ := r'
  · rw [remembered_append]
    rfl
  · exact congrArg (fun l => b'.under (remembered x l) tb) (List.append_nil inner).symm

/-- The run and the heedless run, to any depth. -/
theorem heeds_fire (depth : Nat) :
    Heeds (fire (σ := σ) depth) (heedless depth) (raises fire depth) (raises heedless depth) := by
  induction depth with
  | zero => exact ⟨fun _ _ _ _ => rfl, fun _ _ _ _ => rfl⟩
  | succ depth ih =>
      have hresumed : ∀ (t : TaskId) (task : Task σ) (b : Bridge σ) x tb,
          (((b.under x tb).modifyTask t fun y => { y with outstanding := y.outstanding - 1 }).record
            (.resumed task.caller task.routine)) =
          (((b.modifyTask t fun y => { y with outstanding := y.outstanding - 1 }).record
            (.resumed task.caller task.routine)).under x tb) := fun _ _ _ _ _ => rfl
      constructor
      · rintro (t | c) b x tb
        · have htask : (b.under x tb).task? t = b.task? t := rfl
          rw [fire, heedless, raises, htask]
          rcases b.task? t with _ | task
          · rfl
          · dsimp only
            rw [hresumed]
            exact (ih.drive x tb t _).1.taken_up
        · exact (ih.callBack x tb c b).1
      · rintro (t | c) b x tb
        · have htask : (b.under x tb).task? t = b.task? t := rfl
          rw [raises, raises, htask]
          rcases b.task? t with _ | task
          · rfl
          · dsimp only
            rw [hresumed]
            exact (ih.drive x tb t _).2
        · exact (ih.callBack x tb c b).2

end Bridge

end Reentrant
