import Reentrant.Proofs.HostReaction

/-!
The bridge's bookkeeping against the frame stack. Frames and futures are numbered alongside: the entry
frame is 1, and the frame of the future `f` is `f + 2`. The ledger says what the table, the futures
and the tasks hold for the numbers of the frames on the stack.

Each change of the stack is one of a few moves: a frame is loaded, the current frame ends, a task
comes or goes. Every move keeps the ledger; the counters of tasks may run down to zero in between.
-/

namespace Reentrant

variable {σ : Type}

/-! ### Definitions -/

/-- Whether the end of the frame `id` resumes the task `t`. -/
def FutureStore.resumes (s : FutureStore Continuation) (t : TaskId) (id : FrameId) : Bool :=
  decide (2 ≤ id) && decide ((s.get (id - 2)).waiting = some (.resume t))

/-- The table's entries for frames on the stack: all but the entry frame, oldest first. -/
def tabled (ids : List FrameId) : List (FrameId × FutureId) :=
  (ids.filter (2 ≤ ·)).reverse.map fun id => (id, id - 2)

/-- A task between two steps. -/
structure Task.Rests (keep : σ → Prop) (nextTask : TaskId) (x : Task σ) : Prop where
  numbered : x.id < nextTask
  idle : ∃ s, x.activity = .idle s ∧ keep s
  issued : x.issued = []
  listed : x.listed = true
  drives : x.drives = 0

/-- The bookkeeping for a stack, except that a task may wait for nothing. -/
structure Ledger (keep : σ → Prop) (ids : List FrameId) (futures : FutureStore Continuation)
    (entries : List (FrameId × FutureId)) (tasks : List (Task σ)) (nextTask : TaskId) : Prop where
  descending : ids.Pairwise fun d e => e < d
  bounds : ∀ id ∈ ids, 1 ≤ id ∧ id < futures.cells.size + 2
  entry : ids ≠ [] → 1 ∈ ids
  entries : entries = tabled ids
  pending : ∀ id ∈ ids, 2 ≤ id → (futures.get (id - 2)).outcome = none
  waiting : ∀ f k, (futures.get f).waiting = some k → ∃ t < nextTask, k = .resume t
  rests : ∀ x ∈ tasks, x.Rests keep nextTask
  distinct : tasks.Pairwise fun x y => x.id ≠ y.id ∧ x.caller ≠ y.caller
  callers : ∀ x ∈ tasks, x.caller ∈ ids
  outstanding : ∀ x ∈ tasks, x.outstanding = ids.countP (futures.resumes x.id)
  above : ∀ x ∈ tasks, ∀ id ∈ ids, futures.resumes x.id id = true → x.caller < id

/-- The task once `n` more futures have the cell `c`. -/
def Task.await (c : Cell Continuation) (n : Nat) (x : Task σ) : Task σ :=
  { x with outstanding := x.outstanding + if c.waiting = some (.resume x.id) then n else 0 }

/-- The task once the frame `id` has ended. -/
def Task.hear (futures : FutureStore Continuation) (id : FrameId) (x : Task σ) : Task σ :=
  { x with outstanding := x.outstanding - if futures.resumes x.id id = true then 1 else 0 }

/-! ### Futures under the moves -/

namespace FutureStore

theorem resumes_iff {s : FutureStore Continuation} {t : TaskId} {id : FrameId} :
    s.resumes t id = true ↔ 2 ≤ id ∧ (s.get (id - 2)).waiting = some (.resume t) := by
  rw [resumes, Bool.and_eq_true, decide_eq_true_iff, decide_eq_true_iff]

theorem resumes_extend_of_lt (s : FutureStore Continuation) (n : Nat) (c : Cell Continuation)
    (t : TaskId) {id : Nat} (hid : id < s.cells.size + 2) :
    (s.extend n c).resumes t id = s.resumes t id := by
  rw [resumes, resumes]
  by_cases htwo : 2 ≤ id
  · rw [get_extend_of_lt s n c (by omega)]
  · simp [htwo]

theorem resumes_extend_self (s : FutureStore Continuation) (c : Cell Continuation) (t : TaskId) :
    (s.extend 1 c).resumes t (s.cells.size + 2) = decide (c.waiting = some (.resume t)) := by
  rw [resumes, Nat.add_sub_cancel,
    get_extend_of_ge s 1 c (Nat.le_refl _) (Nat.lt_succ_self _), decide_eq_true (Nat.le_add_left _ _),
    Bool.true_and]

variable {κ : Type}

theorem get_resolved_self (s : FutureStore κ) {f : Nat} (hf : f < s.cells.size) (o : Outcome) :
    (s.resolved f o).get f = { s.get f with outcome := some o, waiting := none } := by
  rw [resolved, set, get, Array.getElem?_setIfInBounds_self_of_lt hf, Option.getD_some]

theorem get_resolved_of_ne (s : FutureStore κ) {f g : FutureId} (hne : f ≠ g) (o : Outcome) :
    (s.resolved f o).get g = s.get g := by
  rw [resolved, set, get, Array.getElem?_setIfInBounds_ne hne]
  rfl

end FutureStore

theorem FutureStore.resumes_resolved_of_ne (s : FutureStore Continuation) {id id' : Nat}
    (hid : 2 ≤ id) (hne : id' ≠ id) (o : Outcome) (t : TaskId) :
    (s.resolved (id - 2) o).resumes t id' = s.resumes t id' := by
  rw [resumes, resumes]
  by_cases htwo : 2 ≤ id'
  · rw [get_resolved_of_ne s (show id - 2 ≠ id' - 2 by omega)]
  · simp [htwo]

/-! ### The table's entries -/

theorem tabled_cons {id : FrameId} (hid : 2 ≤ id) (ids : List FrameId) :
    tabled (id :: ids) = tabled ids ++ [(id, id - 2)] := by
  rw [tabled, List.filter_cons_of_pos (by simpa using hid), List.reverse_cons, List.map_append]
  rfl

theorem mem_tabled {ids : List FrameId} {e : FrameId × FutureId} :
    e ∈ tabled ids ↔ ∃ id ∈ ids, 2 ≤ id ∧ e = (id, id - 2) := by
  simp only [tabled, List.mem_map, List.mem_reverse, List.mem_filter, decide_eq_true_iff, and_assoc,
    eq_comm (b := e)]

/-! ### The counters -/

theorem map_await_succ (c : Cell Continuation) (n : Nat) (tasks : List (Task σ)) :
    (tasks.map (Task.await c 1)).map (Task.await c n) = tasks.map (Task.await c (n + 1)) := by
  rw [List.map_map]
  refine List.map_congr_left fun x _ => ?_
  rw [Function.comp_apply]
  by_cases hw : c.waiting = some (.resume x.id)
  · simp [Task.await, hw, Nat.add_assoc, Nat.add_comm 1]
  · simp [Task.await, hw]

theorem map_await_eq {c : Cell Continuation} {n : Nat} {tasks : List (Task σ)}
    (h : ∀ x ∈ tasks, c.waiting = some (.resume x.id) → n = 0) :
    tasks.map (Task.await c n) = tasks := by
  rw [List.map_congr_left fun x hx => ?_, List.map_id']
  by_cases hw : c.waiting = some (.resume x.id)
  · simp [Task.await, h x hx hw]
  · simp [Task.await, hw]

theorem map_hear_eq {futures : FutureStore Continuation} {id : FrameId} {tasks : List (Task σ)}
    (h : ∀ x ∈ tasks, futures.resumes x.id id ≠ true) :
    tasks.map (Task.hear futures id) = tasks := by
  rw [List.map_congr_left fun x hx => ?_, List.map_id']
  simp [Task.hear, h x hx]

/-- A task among tasks that differ in number and caller. -/
theorem Task.only_of_distinct {pre post : List (Task σ)} {x : Task σ}
    (h : (pre ++ x :: post).Pairwise fun x y => x.id ≠ y.id ∧ x.caller ≠ y.caller) :
    ∀ y ∈ pre ++ post, y.id ≠ x.id ∧ y.caller ≠ x.caller := by
  have hcons := (List.pairwise_middle fun hne => hne.imp Ne.symm Ne.symm).1 h
  exact fun y hy => ((List.pairwise_cons.1 hcons).1 y hy).imp Ne.symm Ne.symm

namespace Ledger

variable {keep : σ → Prop} {ids : List FrameId} {futures : FutureStore Continuation}
  {entries : List (FrameId × FutureId)} {tasks pre post : List (Task σ)} {x : Task σ}
  {nextTask : TaskId}

/-! ### Facts -/

/-- Entered frames and futures were given out. -/
theorem entries_lt (h : Ledger keep ids futures entries tasks nextTask) :
    ∀ e ∈ entries, e.1 < futures.cells.size + 2 ∧ e.2 < futures.cells.size := by
  intro e he
  rw [h.entries, mem_tabled] at he
  obtain ⟨id, hid, htwo, rfl⟩ := he
  have hlt := (h.bounds id hid).2
  refine ⟨hlt, ?_⟩
  simp only [FrameId, FutureId] at *
  omega

/-- A task stands alone with its number. -/
theorem only (h : Ledger keep ids futures entries (pre ++ x :: post) nextTask) :
    ∀ y ∈ pre ++ post, y.id ≠ x.id ∧ y.caller ≠ x.caller :=
  Task.only_of_distinct h.distinct

/-- The current frame is the newest. -/
theorem lt_top {id : FrameId} (h : Ledger keep (id :: ids) futures entries tasks nextTask) :
    ∀ id' ∈ ids, id' < id :=
  (List.pairwise_cons.1 h.descending).1

/-! ### A task comes or goes -/

/-- The bookkeeping of a fresh bridge under a lone entry frame. -/
theorem initial : Ledger keep [1] {} [] ([] : List (Task σ)) nextTask where
  descending := List.pairwise_singleton _ _
  bounds := by simp
  entry _ := List.mem_cons_self
  entries := rfl
  pending := by simp
  waiting f k hk := by
    rw [FutureStore.get_of_ge _ (Nat.zero_le _)] at hk
    cases hk
  rests := by simp
  distinct := List.Pairwise.nil
  callers := by simp
  outstanding := by simp
  above := by simp

/-- Task numbers that were spent without a task. -/
theorem spend (h : Ledger keep ids futures entries tasks nextTask) (n : Nat) :
    Ledger keep ids futures entries tasks (nextTask + n) :=
  { h with
    waiting := fun f k hk => by
      obtain ⟨t, ht, hkt⟩ := h.waiting f k hk
      exact ⟨t, Nat.lt_add_right n ht, hkt⟩
    rests := fun x hx =>
      { h.rests x hx with numbered := Nat.lt_add_right n (h.rests x hx).numbered } }

/-- A task starts on a frame that has none. -/
theorem enlist (h : Ledger keep ids futures entries tasks nextTask) (hid : x.id = nextTask)
    (hcaller : x.caller ∈ ids) (hfree : ∀ y ∈ tasks, y.caller ≠ x.caller)
    (hrests : x.Rests keep (nextTask + 1)) (hzero : x.outstanding = 0) :
    Ledger keep ids futures entries (x :: tasks) (nextTask + 1) := by
  have hspent := h.spend 1
  -- no future waits for a task that has not been numbered yet
  have hfresh : ∀ id, futures.resumes x.id id ≠ true := by
    intro id hresumes
    obtain ⟨t, ht, hk⟩ := h.waiting _ _ (FutureStore.resumes_iff.1 hresumes).2
    cases hk
    exact absurd hid (Nat.ne_of_lt ht)
  have hne : ∀ y ∈ tasks, x.id ≠ y.id ∧ x.caller ≠ y.caller := fun y hy =>
    ⟨hid ▸ Nat.ne_of_gt (h.rests y hy).numbered, (hfree y hy).symm⟩
  exact { hspent with
    rests := List.forall_mem_cons.2 ⟨hrests, hspent.rests⟩
    distinct := List.pairwise_cons.2 ⟨hne, h.distinct⟩
    callers := List.forall_mem_cons.2 ⟨hcaller, h.callers⟩
    outstanding := List.forall_mem_cons.2
      ⟨by rw [hzero, eq_comm, List.countP_eq_zero]; exact fun id _ => hfresh id, h.outstanding⟩
    above := List.forall_mem_cons.2
      ⟨fun id _ hresumes => absurd hresumes (hfresh id), h.above⟩ }

/-- A task is over. -/
theorem unlist (h : Ledger keep ids futures entries (pre ++ x :: post) nextTask) :
    Ledger keep ids futures entries (pre ++ post) nextTask := by
  have hsub : (pre ++ post).Sublist (pre ++ x :: post) :=
    (List.Sublist.refl pre).append (List.sublist_cons_self x post)
  exact { h with
    rests := fun y hy => h.rests y (hsub.mem hy)
    distinct := h.distinct.sublist hsub
    callers := fun y hy => h.callers y (hsub.mem hy)
    outstanding := fun y hy => h.outstanding y (hsub.mem hy)
    above := fun y hy => h.above y (hsub.mem hy) }

/-- What a task does and what it lets the outside know of it may change. -/
theorem revise (h : Ledger keep ids futures entries (pre ++ x :: post) nextTask) {y : Task σ}
    (hid : y.id = x.id) (hcaller : y.caller = x.caller) (houtstanding : y.outstanding = x.outstanding)
    (hrests : y.Rests keep nextTask) :
    Ledger keep ids futures entries (pre ++ y :: post) nextTask := by
  have hall : ∀ {P : Task σ → Prop}, (∀ z ∈ pre ++ x :: post, P z) → (P x → P y) →
      ∀ z ∈ pre ++ y :: post, P z := by
    intro P hP hxy
    rw [List.forall_mem_append, List.forall_mem_cons] at hP ⊢
    exact ⟨hP.1, hxy hP.2.1, hP.2.2⟩
  exact { h with
    rests := hall h.rests fun _ => hrests
    distinct := by
      have hdistinct := h.distinct
      simp only [List.pairwise_append, List.pairwise_cons, List.forall_mem_cons] at hdistinct ⊢
      rw [hid, hcaller]
      exact hdistinct
    callers := hall h.callers fun hx => hcaller ▸ hx
    outstanding := hall h.outstanding fun hx => by rw [houtstanding, hid]; exact hx
    above := hall h.above fun hx => by rw [hcaller, hid]; exact hx }

/-! ### Frames come -/

/-- A program is loaded; its future's cell is `c`. -/
theorem load (h : Ledger keep ids futures entries tasks nextTask) (hids : ids ≠ [])
    {c : Cell Continuation} (hpending : c.outcome = none)
    (hwaiting : ∀ k, c.waiting = some k → ∃ t < nextTask, k = .resume t) :
    Ledger keep ((futures.cells.size + 2) :: ids) (futures.extend 1 c)
      (entries ++ [(futures.cells.size + 2, futures.cells.size)]) (tasks.map (Task.await c 1))
      nextTask := by
  have hlt : ∀ id ∈ ids, id < futures.cells.size + 2 := fun id hid => (h.bounds id hid).2
  have hself : (futures.extend 1 c).get futures.cells.size = c :=
    FutureStore.get_extend_of_ge futures 1 c (Nat.le_refl _) (Nat.lt_succ_self _)
  have hold : ∀ id ∈ ids, 2 ≤ id → (futures.extend 1 c).get (id - 2) = futures.get (id - 2) := by
    intro id hid htwo
    have := hlt id hid
    exact FutureStore.get_extend_of_lt futures 1 c (Nat.sub_lt_right_of_lt_add htwo this)
  exact {
    descending := List.pairwise_cons.2 ⟨hlt, h.descending⟩
    bounds := List.forall_mem_cons.2
      ⟨⟨Nat.le_add_left 1 _, by rw [FutureStore.size_extend]; exact Nat.lt_succ_self _⟩,
        fun id hid => ⟨(h.bounds id hid).1, by
          rw [FutureStore.size_extend]; exact Nat.lt_succ_of_lt (hlt id hid)⟩⟩
    entry := fun _ => List.mem_cons_of_mem _ (h.entry hids)
    entries := by rw [tabled_cons (Nat.le_add_left 2 _), h.entries]; rfl
    pending := List.forall_mem_cons.2
      ⟨fun _ => (congrArg Cell.outcome hself).trans hpending,
        fun id hid htwo => by rw [hold id hid htwo]; exact h.pending id hid htwo⟩
    waiting := by
      intro f k hk
      by_cases hf : f < futures.cells.size
      · rw [FutureStore.get_extend_of_lt futures 1 c hf] at hk
        exact h.waiting f k hk
      · by_cases hself' : f = futures.cells.size
        · rw [hself', hself] at hk
          exact hwaiting k hk
        · rw [FutureStore.get_of_ge _ (by rw [FutureStore.size_extend]; grind)] at hk
          cases hk
    rests := List.forall_mem_map.2 fun x hx => { h.rests x hx with }
    distinct := List.pairwise_map.2 h.distinct
    callers := List.forall_mem_map.2 fun x hx => List.mem_cons_of_mem _ (h.callers x hx)
    outstanding := List.forall_mem_map.2 fun x hx => by
      have hcount : ids.countP ((futures.extend 1 c).resumes x.id) =
          ids.countP (futures.resumes x.id) :=
        List.countP_congr fun id hid => by
          rw [FutureStore.resumes_extend_of_lt futures 1 c x.id (hlt id hid)]
      simp only [Task.await, List.countP_cons, FutureStore.resumes_extend_self, hcount,
        h.outstanding x hx, decide_eq_true_iff]
    above := List.forall_mem_map.2 fun x hx => List.forall_mem_cons.2
      ⟨fun _ => hlt x.caller (h.callers x hx), fun id hid hresumes =>
        h.above x hx id hid (by
          rwa [← FutureStore.resumes_extend_of_lt futures 1 c x.id (hlt id hid)])⟩ }

/-- Programs are loaded one after the other; all their futures' cells are `c`. -/
theorem loadAll (h : Ledger keep ids futures entries tasks nextTask) (limits : Limits)
    (ps : List Program) (depth : Nat) (hids : ids ≠ [])
    {c : Cell Continuation} (hpending : c.outcome = none)
    (hwaiting : ∀ k, c.waiting = some k → ∃ t < nextTask, k = .resume t) :
    Ledger keep ((limits.freshAll (futures.cells.size + 2) depth ps).map (·.id) ++ ids)
      (futures.extend ps.length c)
      (entries ++ entered (futures.cells.size + 2) futures.cells.size ps)
      (tasks.map (Task.await c ps.length)) nextTask := by
  induction ps generalizing ids futures entries tasks depth with
  | nil =>
      have hawait : tasks.map (Task.await c 0) = tasks := map_await_eq fun _ _ _ => rfl
      rw [List.length_nil, FutureStore.extend_zero, hawait, entered, List.append_nil]
      exact h
  | cons p ps ih =>
      have hrest := ih (h.load hids hpending hwaiting) (depth + 1) (List.cons_ne_nil _ _)
      rw [FutureStore.size_extend, FutureStore.extend_succ, map_await_succ, List.append_assoc] at hrest
      rw [Limits.freshAll, List.map_append, List.append_assoc]
      exact hrest

/-! ### The current frame ends -/

/-- Nothing stands below the entry frame, and when it ends nothing is left to do. -/
theorem close_entry (h : Ledger keep (1 :: ids) futures entries tasks nextTask)
    (hfree : ∀ x ∈ tasks, x.caller ≠ 1) : ids = [] ∧ entries = [] ∧ tasks = [] := by
  have hids : ids = [] := List.eq_nil_iff_forall_not_mem.2 fun id hid =>
    absurd (h.lt_top id hid) (Nat.not_lt.2 (h.bounds id (List.mem_cons_of_mem _ hid)).1)
  subst hids
  refine ⟨rfl, h.entries, List.eq_nil_iff_forall_not_mem.2 fun x hx => ?_⟩
  exact hfree x hx (List.mem_singleton.1 (h.callers x hx))

/-- The bookkeeping once no frame is left. -/
theorem empty (h : Ledger keep ids futures entries tasks nextTask) :
    Ledger keep [] futures [] ([] : List (Task σ)) nextTask where
  descending := List.Pairwise.nil
  bounds := by simp
  entry hne := absurd rfl hne
  entries := rfl
  pending := by simp
  waiting := h.waiting
  rests := by simp
  distinct := List.Pairwise.nil
  callers := by simp
  outstanding := by simp
  above := by simp

/-- The current frame ends and its future is resolved. -/
theorem close {id : FrameId} (h : Ledger keep (id :: ids) futures entries tasks nextTask)
    (htwo : 2 ≤ id) (hfree : ∀ x ∈ tasks, x.caller ≠ id) (o : Outcome) :
    Ledger keep ids (futures.resolved (id - 2) o) (tabled ids) (tasks.map (Task.hear futures id))
      nextTask := by
  have hne : ∀ id' ∈ ids, id' ≠ id := fun id' hid' => Nat.ne_of_lt (h.lt_top id' hid')
  have hlt : id - 2 < futures.cells.size :=
    Nat.sub_lt_right_of_lt_add htwo (h.bounds id List.mem_cons_self).2
  have hresumes : ∀ t, ∀ id' ∈ ids,
      (futures.resolved (id - 2) o).resumes t id' = futures.resumes t id' := fun t id' hid' =>
    FutureStore.resumes_resolved_of_ne futures htwo (hne id' hid') o t
  exact {
    descending := (List.pairwise_cons.1 h.descending).2
    bounds := fun id' hid' => by
      rw [FutureStore.size_resolved]
      exact h.bounds id' (List.mem_cons_of_mem _ hid')
    entry := fun hids => by
      obtain ⟨id', hid'⟩ := List.exists_mem_of_ne_nil ids hids
      rcases List.mem_cons.1 (h.entry (List.cons_ne_nil _ _)) with hone | hone
      · exact absurd htwo (hone ▸ by decide)
      · exact hone
    entries := rfl
    pending := fun id' hid' htwo' => by
      have hcell : id - 2 ≠ id' - 2 := by
        have := hne id' hid'
        grind
      rw [FutureStore.get_resolved_of_ne futures hcell]
      exact h.pending id' (List.mem_cons_of_mem _ hid') htwo'
    waiting := fun f k hk => by
      by_cases hf : id - 2 = f
      · rw [← hf, FutureStore.get_resolved_self futures hlt] at hk
        cases hk
      · rw [FutureStore.get_resolved_of_ne futures hf] at hk
        exact h.waiting f k hk
    rests := List.forall_mem_map.2 fun x hx => { h.rests x hx with }
    distinct := List.pairwise_map.2 h.distinct
    callers := List.forall_mem_map.2 fun x hx =>
      (List.mem_cons.1 (h.callers x hx)).resolve_left (hfree x hx)
    outstanding := List.forall_mem_map.2 fun x hx => by
      have hcount : ids.countP ((futures.resolved (id - 2) o).resumes x.id) =
          ids.countP (futures.resumes x.id) :=
        List.countP_congr fun id' hid' => by rw [hresumes x.id id' hid']
      simp only [Task.hear, hcount, h.outstanding x hx, List.countP_cons, Nat.add_sub_cancel]
    above := List.forall_mem_map.2 fun x hx id' hid' hwaits =>
      h.above x hx id' (List.mem_cons_of_mem _ hid') (by rwa [← hresumes x.id id' hid']) }

end Ledger

end Reentrant
