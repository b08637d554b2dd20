import Reentrant.Builtin

/-!
Polls of routines that keep to their own context. Such a poll asks for programs to be run and looks
at futures, but it neither resolves a future nor registers on one, so granting its requests only
appends: to the futures, to the outbox and to the notes. The transcript of a poll says what is
appended and how the poll ends; `Bridge.converse_restrained` says that this is all that happens.
-/

namespace Reentrant

variable {σ : Type}

/-! ### Restraint -/

/-- The poll neither resolves a future nor registers on one, and it ends waiting only in states that
satisfy `keep`. -/
def Poll.Restrained (keep : σ → Prop) : Poll σ → Prop
  | .ready _ => True
  | .pending s => keep s
  | .context k => ∀ t caller, (k t caller).Restrained keep
  | .invoke _ k => ∀ f, (k f).Restrained keep
  | .invokeNamed _ k => ∀ r, (k r).Restrained keep
  | .observe _ k => ∀ o, (k o).Restrained keep
  | .resolve _ _ _ => False
  | .register _ _ _ => False
  | .note _ k => k.Restrained keep

/-- Every suspending routine starts in a state that satisfies `keep`; polling such a state is
restrained. -/
structure Registry.KeepsTo (g : Registry σ) (keep : σ → Prop) : Prop where
  starts : ∀ r ∈ g.routines, ∀ start, r.body = .suspending start → ∀ xs, keep (start xs)
  polls : ∀ s, keep s → (g.poll s).Restrained keep

/-- The routines of the registry use the bridge through their own context only, and never touch the
futures they are given except to look at them. -/
def Registry.WellBehaved (g : Registry σ) : Prop := ∃ keep, g.KeepsTo keep

namespace Builtin

variable {keep : Waiting → Prop}

theorem ask_restrained {k : FutureId → Poll Waiting} (hk : ∀ f, (k f).Restrained keep)
    (procedure : String) : (ask procedure k).Restrained keep := by
  intro r
  match r with
  | .ok f => exact hk f
  | .error fault => trivial

theorem receive_restrained {k : Option Value → Poll Waiting} (hk : ∀ v, (k v).Restrained keep)
    {waiting : Waiting} (hwaiting : keep waiting) (f : FutureId) :
    (receive f waiting k).Restrained keep := by
  intro o
  match o with
  | none => exact hwaiting
  | some (.returned v) => exact hk v
  | some (.faulted fault) => trivial

theorem finishTry_restrained {f : FutureId} (hwaiting : keep (.tried f)) :
    (finishTry f).Restrained keep := by
  intro o
  match o with
  | none => exact hwaiting
  | some (.returned v) => trivial
  | some (.faulted fault) => trivial

theorem finishAnswer_restrained {f : FutureId} (hwaiting : keep (.answered f)) :
    (finishAnswer f).Restrained keep := by
  refine receive_restrained (fun v => ?_) hwaiting f
  cases Shape.int.read v with
  | ok answer => trivial
  | error e => trivial

/-- The built-in routines only ask for procedures and look at the futures they are given. -/
theorem keepsTo : registry.KeepsTo fun _ => True where
  starts _ _ _ _ _ := trivial
  polls s _ := by
    have hinvoke : ∀ f, (finishInvoke f).Restrained fun _ => True := fun f =>
      receive_restrained (k := fun v => .ready (.ok (.ofOption v))) (fun _ => trivial) trivial f
    have hsecond : ∀ f, (finishSecond f).Restrained fun _ => True := fun f =>
      receive_restrained (k := fun _ => .ready (.ok .void)) (fun _ => trivial) trivial f
    have hfirst : ∀ f, (finishFirst f).Restrained fun _ => True := fun f =>
      receive_restrained (k := fun _ => ask "call_b" finishSecond)
        (fun _ => ask_restrained hsecond _) trivial f
    cases s with
    | invoke procedure => exact ask_restrained hinvoke procedure
    | invoked f => exact hinvoke f
    | tryInvoke procedure => exact ask_restrained (fun _ => finishTry_restrained trivial) procedure
    | tried f => exact finishTry_restrained trivial
    | sumThenReport => exact ask_restrained (fun _ => finishAnswer_restrained trivial) _
    | answered f => exact finishAnswer_restrained trivial
    | callBoth => exact ask_restrained hfirst _
    | calledFirst f => exact hfirst f
    | calledSecond f => exact hsecond f

theorem wellBehaved : registry.WellBehaved := ⟨_, keepsTo⟩

end Builtin

/-! ### Transcripts -/

/-- What one poll asks for, in order, what it lets the outside see, and how it ends. -/
structure Transcript (σ : Type) where
  programs : List Program := []
  notes : List Note := []
  answer : Bridge.Answer σ

/-- The transcript of a poll of task `t`, where `look` tells the states of futures and `next` is the
number of the next future. A resolution or registration is left out. -/
def Poll.transcript (look : FutureId → Option Outcome) (l : Library) (t : TaskId)
    (caller : FrameId) : (next : FutureId) → Poll σ → Transcript σ
  | _, .ready r => { answer := .ready r }
  | _, .pending s => { answer := .pending s }
  | next, .context k => (k t caller).transcript look l t caller next
  | next, .invoke p k =>
      let rest := (k next).transcript look l t caller (next + 1)
      { rest with programs := p :: rest.programs }
  | next, .invokeNamed name k =>
      match l.get? name with
      | none => (k (.error (.noProcedure name))).transcript look l t caller next
      | some p =>
          let rest := (k (.ok next)).transcript look l t caller (next + 1)
          { rest with programs := p :: rest.programs }
  | next, .observe f k => (k (look f)).transcript look l t caller next
  | next, .resolve _ _ k => (k none).transcript look l t caller next
  | next, .register _ _ k => (k none).transcript look l t caller next
  | next, .note n k =>
      let rest := k.transcript look l t caller next
      { rest with notes := n :: rest.notes }

/-- A restrained poll ends waiting only in a state that is kept to. -/
theorem Poll.Restrained.keep_of_pending {keep : σ → Prop} {look : FutureId → Option Outcome}
    {l : Library} {t : TaskId} {caller : FrameId} {q : Poll σ} (hq : q.Restrained keep)
    {next : FutureId} {s : σ}
    (hanswer : (q.transcript look l t caller next).answer = .pending s) : keep s := by
  induction q generalizing next with
  | ready r => cases hanswer
  | pending s' =>
      cases hanswer
      exact hq
  | context k ih => exact ih _ _ (hq t caller) hanswer
  | invoke p k ih => exact ih next (hq next) hanswer
  | invokeNamed name k ih =>
      simp only [transcript] at hanswer
      cases hget : l.get? name with
      | none =>
          rw [hget] at hanswer
          exact ih _ (hq _) hanswer
      | some p =>
          rw [hget] at hanswer
          exact ih _ (hq _) hanswer
  | observe f k ih => exact ih _ (hq _) hanswer
  | resolve f o k ih => exact hq.elim
  | register f slot k ih => exact hq.elim
  | note n k ih => exact ih hq hanswer

/-- The invocations of programs in order, their futures numbered from `next` on. -/
def invocations (caller : FrameId) : (next : FutureId) → List Program → List Invocation
  | _, [] => []
  | next, p :: ps => ⟨p, next, caller⟩ :: invocations caller (next + 1) ps

/-! ### Futures -/

namespace FutureStore

variable {κ : Type}

/-- Appends `n` futures whose cells are `c`. -/
def extend (s : FutureStore κ) (n : Nat) (c : Cell κ) : FutureStore κ :=
  ⟨s.cells ++ Array.replicate n c⟩

@[simp] theorem size_extend (s : FutureStore κ) (n : Nat) (c : Cell κ) :
    (s.extend n c).cells.size = s.cells.size + n := by
  simp [extend]

@[simp] theorem extend_zero (s : FutureStore κ) (c : Cell κ) : s.extend 0 c = s := by
  simp [extend]

theorem extend_succ (s : FutureStore κ) (n : Nat) (c : Cell κ) :
    (s.extend 1 c).extend n c = s.extend (n + 1) c := by
  rw [extend, extend, extend, Array.append_assoc, Array.replicate_append_replicate, Nat.add_comm]

theorem create_eq (s : FutureStore κ) : s.create = (s.cells.size, s.extend 1 {}) := by
  simp [create, extend]

theorem get_extend_of_lt (s : FutureStore κ) (n : Nat) (c : Cell κ) {f : Nat}
    (hf : f < s.cells.size) : (s.extend n c).get f = s.get f := by
  rw [get, get, extend, Array.getElem?_append_left hf]

theorem get_extend_of_ge (s : FutureStore κ) (n : Nat) (c : Cell κ) {f : Nat}
    (hf : s.cells.size ≤ f) (hlt : f < s.cells.size + n) : (s.extend n c).get f = c := by
  rw [get, extend, Array.getElem?_append_right hf, Array.getElem?_replicate,
    if_pos (by omega), Option.getD_some]

theorem get_of_ge (s : FutureStore κ) {f : Nat} (hf : s.cells.size ≤ f) : s.get f = {} := by
  rw [get, Array.getElem?_eq_none hf, Option.getD_none]

/-- A future that was never created counts as pending. -/
theorem outcome?_of_ge (s : FutureStore κ) {f : Nat} (hf : s.cells.size ≤ f) :
    s.outcome? f = none := by
  rw [outcome?, get_of_ge s hf]

/-- Fresh pending futures change no future's state. -/
theorem outcome?_extend (s : FutureStore κ) (n : Nat) {c : Cell κ} (hc : c.outcome = none) :
    (s.extend n c).outcome? = s.outcome? := by
  funext (f : Nat)
  rw [outcome?, outcome?]
  by_cases hlt : f < s.cells.size
  · rw [get_extend_of_lt s n c hlt]
  · have hge : s.cells.size ≤ f := Nat.le_of_not_lt hlt
    rw [get_of_ge s hge]
    by_cases hn : f < s.cells.size + n
    · rw [get_extend_of_ge s n c hge hn, hc]
    · rw [get_of_ge _ (by rw [size_extend]; omega)]

end FutureStore

/-! ### Tasks in their list -/

namespace Bridge

/-- `x` is the only task of its number; it stands between `pre` and `post`. -/
structure Lists (b : Bridge σ) (pre : List (Task σ)) (x : Task σ) (post : List (Task σ)) :
    Prop where
  tasks : b.tasks = pre ++ x :: post
  only : ∀ y ∈ pre ++ post, y.id ≠ x.id

theorem map_if_of_ne {l : List (Task σ)} {t : TaskId} (change : Task σ → Task σ)
    (hl : ∀ y ∈ l, y.id ≠ t) : (l.map fun y => if y.id = t then change y else y) = l := by
  rw [List.map_congr_left fun y hy => if_neg (hl y hy), List.map_id']

namespace Lists

variable {b : Bridge σ} {pre post : List (Task σ)} {x : Task σ}

theorem pre_ne (h : b.Lists pre x post) : ∀ y ∈ pre, y.id ≠ x.id :=
  fun y hy => h.only y (List.mem_append_left _ hy)

theorem post_ne (h : b.Lists pre x post) : ∀ y ∈ post, y.id ≠ x.id :=
  fun y hy => h.only y (List.mem_append_right _ hy)

theorem task? (h : b.Lists pre x post) : b.task? x.id = some x := by
  rw [Bridge.task?, h.tasks, List.find?_append, List.find?_eq_none.2, Option.none_or,
    List.find?_cons_of_pos]
  · simp
  · intro y hy
    simpa using h.pre_ne y hy

theorem modifyTask (h : b.Lists pre x post) (change : Task σ → Task σ) :
    b.modifyTask x.id change = { b with tasks := pre ++ change x :: post } := by
  rw [Bridge.modifyTask, h.tasks, List.map_append, List.map_cons, if_pos rfl,
    map_if_of_ne change h.pre_ne, map_if_of_ne change h.post_ne]

/-- Another task of the same number in its place. -/
theorem replace (h : b.Lists pre x post) {b' : Bridge σ} {x' : Task σ}
    (htasks : b'.tasks = pre ++ x' :: post) (hid : x'.id = x.id) : b'.Lists pre x' post :=
  ⟨htasks, fun y hy => hid ▸ h.only y hy⟩

end Lists

/-! ### Granting a poll's requests -/

/-- What granting the requests of a transcript comes to, for the task `x`. -/
def granted (b : Bridge σ) (pre : List (Task σ)) (x : Task σ) (post : List (Task σ))
    (tr : Transcript σ) : Bridge σ :=
  { b with
    futures := b.futures.extend tr.programs.length {}
    outbox := b.outbox ++ invocations x.caller b.futures.cells.size tr.programs
    notes := b.notes ++ tr.notes.toArray
    tasks := pre ++ { x with
      issued := x.issued ++ List.range' b.futures.cells.size tr.programs.length } :: post }

theorem granted_ended (b : Bridge σ) {pre post : List (Task σ)} {x : Task σ}
    (h : b.Lists pre x post) (a : Answer σ) :
    b.granted pre x post { answer := a } = b := by
  simp [granted, invocations, ← h.tasks]

/-- One invocation first, then the rest of a poll. -/
theorem granted_issue (b : Bridge σ) {pre post : List (Task σ)} {x : Task σ}
    (h : b.Lists pre x post) (p : Program) (rest : Transcript σ) :
    (b.issue x.id x.caller p).2.granted pre
        { x with issued := x.issued ++ [b.futures.cells.size] } post rest =
      b.granted pre x post { rest with programs := p :: rest.programs } := by
  have hlists : ({ b with
      futures := b.futures.extend 1 {}
      outbox := b.outbox ++ [⟨p, b.futures.cells.size, x.caller⟩] } : Bridge σ).Lists pre x post :=
    ⟨h.tasks, h.only⟩
  simp only [issue, FutureStore.create_eq, hlists.modifyTask, granted, FutureStore.size_extend,
    FutureStore.extend_succ, invocations, List.append_assoc, List.singleton_append,
    List.length_cons, List.range'_succ]

theorem issue_fst (b : Bridge σ) (t : TaskId) (caller : FrameId) (p : Program) :
    (b.issue t caller p).1 = b.futures.cells.size := by
  simp [issue, FutureStore.create_eq]

theorem issue_lists {b : Bridge σ} {pre post : List (Task σ)} {x : Task σ}
    (h : b.Lists pre x post) (p : Program) :
    (b.issue x.id x.caller p).2.Lists pre
      { x with issued := x.issued ++ [b.futures.cells.size] } post := by
  have hlists : ({ b with
      futures := b.futures.extend 1 {}
      outbox := b.outbox ++ [⟨p, b.futures.cells.size, x.caller⟩] } : Bridge σ).Lists pre x post :=
    ⟨h.tasks, h.only⟩
  simp only [issue, FutureStore.create_eq, hlists.modifyTask]
  exact h.replace rfl rfl

theorem issue_frame (b : Bridge σ) (t : TaskId) (caller : FrameId) (p : Program) :
    (b.issue t caller p).2.library = b.library ∧
      (b.issue t caller p).2.futures.outcome? = b.futures.outcome? ∧
      (b.issue t caller p).2.futures.cells.size = b.futures.cells.size + 1 := by
  simp only [issue, FutureStore.create_eq, modifyTask, FutureStore.size_extend, and_true, true_and]
  exact FutureStore.outcome?_extend _ _ rfl

/-- Granting a restrained poll's requests does what its transcript says, and nothing else. -/
theorem converse_restrained (fire : Continuation → Bridge σ → Bridge σ) {keep : σ → Prop}
    {q : Poll σ} (hq : q.Restrained keep) {b : Bridge σ} {pre post : List (Task σ)} {x : Task σ}
    (h : b.Lists pre x post) :
    converse fire x.id x.caller q b =
      ((q.transcript b.futures.outcome? b.library x.id x.caller b.futures.cells.size).answer,
        b.granted pre x post
          (q.transcript b.futures.outcome? b.library x.id x.caller b.futures.cells.size)) := by
  have hissue : ∀ (k : FutureId → Poll σ) (p : Program) (b : Bridge σ) (x : Task σ),
      b.Lists pre x post →
      (∀ f, ∀ {b : Bridge σ} {x : Task σ}, b.Lists pre x post →
        converse fire x.id x.caller (k f) b =
          (((k f).transcript b.futures.outcome? b.library x.id x.caller
              b.futures.cells.size).answer,
            b.granted pre x post ((k f).transcript b.futures.outcome? b.library x.id x.caller
              b.futures.cells.size))) →
      converse fire x.id x.caller (k (b.issue x.id x.caller p).1) (b.issue x.id x.caller p).2 =
        (((k b.futures.cells.size).transcript b.futures.outcome? b.library x.id x.caller
            (b.futures.cells.size + 1)).answer,
          b.granted pre x post
            { (k b.futures.cells.size).transcript b.futures.outcome? b.library x.id x.caller
                (b.futures.cells.size + 1) with
              programs := p :: ((k b.futures.cells.size).transcript b.futures.outcome? b.library
                x.id x.caller (b.futures.cells.size + 1)).programs }) := by
    intro k p b x h ih
    obtain ⟨hlibrary, hlook, hsize⟩ := issue_frame b x.id x.caller p
    have hrest := ih b.futures.cells.size (issue_lists h p)
    rw [hlibrary, hlook, hsize] at hrest
    rw [issue_fst, ← granted_issue b h]
    exact hrest
  induction q generalizing b x with
  | ready r => rw [Poll.transcript, granted_ended b h]; rfl
  | pending s => rw [Poll.transcript, granted_ended b h]; rfl
  | context k ih => exact ih _ _ (hq _ _) h
  | invoke p k ih => exact hissue k p b x h fun f _ _ hb => ih f (hq f) hb
  | invokeNamed name k ih =>
      simp only [converse, Poll.transcript]
      cases hget : b.library.get? name with
      | none => exact ih _ (hq _) h
      | some p => exact hissue (fun f => k (.ok f)) p b x h fun f _ _ hb => ih _ (hq _) hb
  | observe f k ih => exact ih _ (hq _) h
  | resolve f o k ih => exact hq.elim
  | register f slot k ih => exact hq.elim
  | note n k ih =>
      have hnote : (b.addNote n).Lists pre x post := ⟨h.tasks, h.only⟩
      rw [converse, ih hq hnote, Poll.transcript]
      simp [granted, addNote]

end Bridge

end Reentrant
