import Reentrant.Proofs.InvocationOutcome

/-!
What a sequence of events must look like to be the journal of a run, and the moves by which a run
extends its journal: a routine starts or finishes, a frame is loaded or ends, a routine is resumed. The
chronicle says of the events so far what they tell of the frame stack and of the waiting tasks; each
move keeps it.
-/

namespace Reentrant

variable {σ : Type}

/-! ### Brackets -/

/-- The load or the end of a frame. -/
inductive Bracket where
  | opens (id : FrameId)
  | closes (id : FrameId)
  deriving DecidableEq

namespace Bracket

def opened? : Bracket → Option FrameId
  | .opens id => some id
  | .closes _ => none

def closed? : Bracket → Option FrameId
  | .opens _ => none
  | .closes id => some id

/-- Properly nested: between the load and the end of a frame others are loaded and end, in pairs. -/
inductive Nested : List Bracket → Prop where
  | nil : Nested []
  | pair {id : FrameId} {inside rest : List Bracket} (hinside : Nested inside) (hrest : Nested rest) :
      Nested (.opens id :: inside ++ .closes id :: rest)

/-- Every loaded frame ends, once for each time it is loaded. -/
theorem Nested.perm {bs : List Bracket} (h : Nested bs) :
    (bs.filterMap closed?).Perm (bs.filterMap opened?) := by
  induction h with
  | nil => exact .refl _
  | @pair id inside rest _ _ hinside hrest =>
      simp only [List.cons_append, List.filterMap_cons, List.filterMap_append, opened?, closed?]
      exact List.perm_middle.trans ((hinside.append hrest).cons id)

/-- The frames on the stack once the brackets have been read, if each end was that of the top frame. -/
def read : List FrameId → List Bracket → Option (List FrameId)
  | ids, [] => some ids
  | ids, .opens id :: bs => read (id :: ids) bs
  | [], .closes _ :: _ => none
  | top :: ids, .closes id :: bs => if top = id then read ids bs else none

theorem read_append (ids : List FrameId) (bs bs' : List Bracket) :
    read ids (bs ++ bs') = (read ids bs).bind (read · bs') := by
  induction bs generalizing ids with
  | nil => rfl
  | cons b bs ih =>
      cases b with
      | opens id => exact ih (id :: ids)
      | closes id =>
          cases ids with
          | nil => rfl
          | cons top ids =>
              rw [List.cons_append, read, read]
              split
              · exact ih ids
              · rfl

/-- What is read until the top frame ends is nested. -/
theorem read_cons {top : FrameId} {ids : List FrameId} {bs : List Bracket}
    (h : read (top :: ids) bs = some []) :
    ∃ inside rest, Nested inside ∧ bs = inside ++ .closes top :: rest ∧ read ids rest = some [] := by
  match bs with
  | [] => cases h
  | .opens id :: bs =>
      replace h : read (id :: top :: ids) bs = some [] := h
      obtain ⟨first, later, hfirst, rfl, hlater⟩ := read_cons h
      obtain ⟨inside, rest, hinside, rfl, hrest⟩ := read_cons hlater
      exact ⟨.opens id :: first ++ .closes id :: inside, rest, .pair hfirst hinside, by simp, hrest⟩
  | .closes id :: bs =>
      rw [read] at h
      split at h
      · next heq => exact ⟨[], bs, .nil, heq ▸ rfl, h⟩
      · cases h
termination_by bs.length

theorem nested_of_read {bs : List Bracket} (h : read [] bs = some []) : Nested bs := by
  match bs with
  | [] => exact .nil
  | .opens id :: bs =>
      replace h : read [id] bs = some [] := h
      obtain ⟨inside, rest, hinside, rfl, hrest⟩ := read_cons h
      exact .pair hinside (nested_of_read hrest)
  | .closes id :: bs => cases h
termination_by bs.length

end Bracket

/-! ### Events -/

namespace Event

def bracket? : Event → Option Bracket
  | .frameLoaded id _ _ => some (.opens id)
  | .frameTornDown id _ => some (.closes id)
  | _ => none

/-- The registered routine that the frame `c` calls. -/
def started? (c : FrameId) : Event → Option String
  | .dispatchStarted c' r _ => if c' = c then some r else none
  | _ => none

/-- Whether the event ends a native call. -/
def isFinish : Event → Bool
  | .routineFinished _ _ _ => true
  | _ => false

/-- Whether the event is the end of a call of the routine `r` by the frame `c`. -/
def finishes (c : FrameId) (r : String) : Event → Bool
  | .routineFinished c' r' _ => c' == c && r' == r
  | _ => false

/-- Whether a poll of the routine `r` for the frame `c` comes right after the event. -/
def polls (c : FrameId) (r : String) (e : Event) : Prop :=
  e = .resumed c r ∨ ∃ id, e = .dispatchStarted c r id

/-- The end of another frame's call, or of a call of another routine. -/
theorem finishes_eq_false {c caller : FrameId} {r r' : String} (h : caller = c → r' ≠ r)
    (result : DispatchResult) : (Event.routineFinished caller r' result).finishes c r = false := by
  rw [finishes, Bool.and_eq_false_iff, beq_eq_false_iff_ne, beq_eq_false_iff_ne]
  by_cases hc : caller = c
  · exact .inr (h hc)
  · exact .inl hc

theorem started?_eq_some {c : FrameId} {e : Event} {r : String} (h : e.started? c = some r) :
    ∃ id, e = .dispatchStarted c r id := by
  unfold started? at h
  split at h
  · split at h
    · next c' r' id heq =>
        cases h
        exact ⟨id, heq ▸ rfl⟩
    · cases h
  · cases h

end Event

/-- The last call of a registered routine by the frame `c` among the events, and the events since. -/
def lastCall (c : FrameId) (es : List Event) : Option (String × List Event) :=
  es.foldl (fun last e =>
    match e.started? c with
    | some r => some (r, [])
    | none => last.map fun call => (call.1, call.2 ++ [e])) none

theorem lastCall_concat (c : FrameId) (es : List Event) (e : Event) :
    lastCall c (es ++ [e]) =
      match e.started? c with
      | some r => some (r, [])
      | none => (lastCall c es).map fun call => (call.1, call.2 ++ [e]) := by
  rw [lastCall, List.foldl_append]
  rfl

theorem lastCall_start (c : FrameId) (r : String) (id : RoutineId) (es : List Event) :
    lastCall c (es ++ [.dispatchStarted c r id]) = some (r, []) := by
  rw [lastCall_concat]
  simp only [Event.started?, if_true]

theorem lastCall_concat_iff {c : FrameId} {es : List Event} {e : Event} {r : String}
    {since : List Event} (he : e.started? c = none) :
    lastCall c (es ++ [e]) = some (r, since) ↔
      ∃ earlier, lastCall c es = some (r, earlier) ∧ since = earlier ++ [e] := by
  rw [lastCall_concat, he]
  constructor
  · intro h
    obtain ⟨⟨r, earlier⟩, hold, heq⟩ := Option.map_eq_some_iff.1 h
    cases heq
    exact ⟨earlier, hold, rfl⟩
  · rintro ⟨earlier, hold, rfl⟩
    rw [hold]
    rfl

/-- Nothing but a further call hides a call. -/
theorem lastCall_append {c : FrameId} {es later : List Event} {r : String} {since : List Event}
    (h : lastCall c es = some (r, since)) (hlater : ∀ e ∈ later, e.started? c = none) :
    lastCall c (es ++ later) = some (r, since ++ later) := by
  induction later generalizing es since with
  | nil => rw [List.append_nil, List.append_nil, h]
  | cons e later ih =>
      have hnext : lastCall c (es ++ [e]) = some (r, since ++ [e]) :=
        (lastCall_concat_iff (hlater e List.mem_cons_self)).2 ⟨since, h, rfl⟩
      have hrest := ih hnext fun e' he' => hlater e' (List.mem_cons_of_mem _ he')
      rwa [List.append_assoc, List.append_assoc] at hrest

/-! ### Laws for single events -/

/-- Whether the event `e` may come right after the events `before`. -/
def Event.Follows (g : Registry σ) (before : List Event) : Event → Prop
  /- Whatever the frame called before has finished, once. -/
  | .dispatchStarted c _ _ => ∀ r since, lastCall c before = some (r, since) →
      since.countP (·.finishes c r) = 1
  /- A registered routine finishes in a poll. -/
  | .routineFinished c r _ => (∃ q ∈ g.routines, q.name = r) →
      ∃ earlier e, before = earlier ++ [e] ∧ e.polls c r
  /- A routine is resumed right after the end of a frame that was loaded for its call. -/
  | .resumed c r => ∃ earlier frame faulted, before = earlier ++ [.frameTornDown frame faulted] ∧
      ∃ since program, lastCall c earlier = some (r, since) ∧ .frameLoaded frame program c ∈ since
  | _ => True

/-- Every event may come where it does. -/
def Lawful (g : Registry σ) (es : List Event) : Prop :=
  ∀ before e after, es = before ++ e :: after → e.Follows g before

theorem Lawful.concat {g : Registry σ} {es : List Event} (h : Lawful g es) {e : Event}
    (he : e.Follows g es) : Lawful g (es ++ [e]) := by
  intro before e' after heq
  rcases List.eq_nil_or_concat after with rfl | ⟨after, last, rfl⟩
  · obtain ⟨hbefore, hlast⟩ := List.append_inj' heq rfl
    cases hlast
    exact hbefore ▸ he
  · rw [List.concat_eq_append, ← List.cons_append, ← List.append_assoc] at heq
    exact h before e' after (List.append_inj' heq rfl).1

/-! ### The chronicle -/

/-- What the events so far tell of the frames on the stack, of the futures and of the waiting tasks,
after that many native calls. -/
structure Chronicle (g : Registry σ) (ids : List FrameId) (futures : FutureStore Continuation)
    (tasks : List (Task σ)) (calls : Nat) (es : List Event) : Prop where
  stack : Bracket.read [1] (es.filterMap Event.bracket?) = some ids
  loaded : (es.filterMap Event.bracket?).filterMap Bracket.opened? =
    List.range' 2 futures.cells.size
  named : ∀ c r since, lastCall c es = some (r, since) → ∃ q ∈ g.routines, q.name = r
  /-- A task waits in the last call of its caller, for frames loaded for that call. -/
  waiting : ∀ x ∈ tasks, ∃ since, lastCall x.caller es = some (x.routine, since) ∧
    since.countP (·.finishes x.caller x.routine) = 0 ∧
    ∀ id ∈ ids, futures.resumes x.id id = true → ∃ p, .frameLoaded id p x.caller ∈ since
  finished : ∀ c r since, lastCall c es = some (r, since) → (∀ x ∈ tasks, x.caller ≠ c) →
    since.countP (·.finishes c r) = 1
  counted : es.countP Event.isFinish + tasks.length = calls
  lawful : Lawful g es

namespace Chronicle

variable {g : Registry σ} {ids : List FrameId} {futures : FutureStore Continuation}
  {tasks pre post : List (Task σ)} {calls : Nat} {es : List Event} {x : Task σ}

theorem initial (g : Registry σ) : Chronicle g [1] {} [] 0 [] where
  stack := rfl
  loaded := rfl
  named c r since h := by cases h
  waiting := by simp
  finished c r since h := by cases h
  counted := rfl
  lawful before e after h := by simp at h

/-! #### What one more event leaves as it was -/

section Concat

variable {e : Event} {c : FrameId} {r : String} {since : List Event}

theorem named_concat (h : Chronicle g ids futures tasks calls es) (hstart : e.started? c = none)
    (hcall : lastCall c (es ++ [e]) = some (r, since)) : ∃ q ∈ g.routines, q.name = r := by
  obtain ⟨earlier, hold, -⟩ := (lastCall_concat_iff hstart).1 hcall
  exact h.named c r earlier hold

/-- A task goes on waiting, for what it waited for or for a frame that the event loads for it. -/
theorem waiting_concat (h : Chronicle g ids futures tasks calls es) (hx : x ∈ tasks)
    (hstart : e.started? x.caller = none) (hfinish : e.finishes x.caller x.routine = false)
    {ids' : List FrameId} {futures' : FutureStore Continuation}
    (hawaited : ∀ id ∈ ids', futures'.resumes x.id id = true →
      id ∈ ids ∧ futures.resumes x.id id = true ∨ ∃ p, e = .frameLoaded id p x.caller) :
    ∃ since, lastCall x.caller (es ++ [e]) = some (x.routine, since) ∧
      since.countP (·.finishes x.caller x.routine) = 0 ∧
      ∀ id ∈ ids', futures'.resumes x.id id = true → ∃ p, .frameLoaded id p x.caller ∈ since := by
  obtain ⟨since, hcall, hzero, hloads⟩ := h.waiting x hx
  refine ⟨since ++ [e], (lastCall_concat_iff hstart).2 ⟨since, hcall, rfl⟩, ?_,
    fun id hid hresumes => ?_⟩
  · rw [List.countP_append, hzero, List.countP_singleton, hfinish]
    rfl
  · rcases hawaited id hid hresumes with ⟨hid, hresumes⟩ | ⟨p, rfl⟩
    · obtain ⟨p, hp⟩ := hloads id hid hresumes
      exact ⟨p, List.mem_append_left _ hp⟩
    · exact ⟨p, List.mem_append_right _ List.mem_cons_self⟩

theorem finished_concat (h : Chronicle g ids futures tasks calls es)
    (hstart : e.started? c = none) (hfinish : e.finishes c r = false)
    (hcall : lastCall c (es ++ [e]) = some (r, since)) (hfree : ∀ x ∈ tasks, x.caller ≠ c) :
    since.countP (·.finishes c r) = 1 := by
  obtain ⟨earlier, hold, rfl⟩ := (lastCall_concat_iff hstart).1 hcall
  rw [List.countP_append, h.finished c r earlier hold hfree, List.countP_singleton, hfinish]
  rfl

end Concat

/-! #### Moves -/

/-- An event that neither starts nor ends a call. -/
theorem remark (h : Chronicle g ids futures tasks calls es) {e : Event}
    (hstart : ∀ c, e.started? c = none) (hfinish : e.isFinish = false) (hfollows : e.Follows g es)
    {ids' : List FrameId} {futures' : FutureStore Continuation}
    (hstack : Bracket.read ids e.bracket?.toList = some ids')
    (hloaded : List.range' 2 futures.cells.size ++ e.bracket?.toList.filterMap Bracket.opened? =
      List.range' 2 futures'.cells.size)
    (hawaited : ∀ x ∈ tasks, ∀ id ∈ ids', futures'.resumes x.id id = true →
      id ∈ ids ∧ futures.resumes x.id id = true ∨ ∃ p, e = .frameLoaded id p x.caller) :
    Chronicle g ids' futures' tasks calls (es ++ [e]) := by
  have hnot : ∀ c r, e.finishes c r = false := by
    intro c r
    cases e <;> first | rfl | cases hfinish
  have hbrackets : [e].filterMap Event.bracket? = e.bracket?.toList := by
    cases hb : e.bracket? <;> simp [hb]
  exact {
    stack := by rw [List.filterMap_append, hbrackets, Bracket.read_append, h.stack]; exact hstack
    loaded := by rw [List.filterMap_append, hbrackets, List.filterMap_append, h.loaded, hloaded]
    named := fun c _ _ hcall => h.named_concat (hstart c) hcall
    waiting := fun x hx => h.waiting_concat hx (hstart x.caller) (hnot _ _) (hawaited x hx)
    finished := fun c r _ hcall hfree => h.finished_concat (hstart c) (hnot c r) hcall hfree
    counted := by
      rw [List.countP_append, List.countP_singleton, hfinish]
      exact h.counted
    lawful := h.lawful.concat hfollows }

/-- The top frame ends. -/
theorem tear {id : FrameId} (h : Chronicle g (id :: ids) futures tasks calls es) (faulted : Bool)
    {futures' : FutureStore Continuation} (hsize : futures'.cells.size = futures.cells.size)
    (hresumes : ∀ t, ∀ id' ∈ ids, futures'.resumes t id' = futures.resumes t id') :
    Chronicle g ids futures' tasks calls (es ++ [.frameTornDown id faulted]) := by
  refine h.remark (e := .frameTornDown id faulted) (fun _ => rfl) rfl trivial ?_ ?_
    fun x _ id' hid' hwaits => .inl ⟨List.mem_cons_of_mem _ hid', ?_⟩
  · exact if_pos rfl
  · rw [hsize]
    exact List.append_nil _
  · rw [← hresumes x.id id' hid']
    exact hwaits

/-- A task is resumed right after the end of a frame that it waited for. -/
theorem resume {id : FrameId} {faulted : Bool}
    (h : Chronicle g ids futures tasks calls (es ++ [.frameTornDown id faulted]))
    {since : List Event} (hcall : lastCall x.caller es = some (x.routine, since)) {p : String}
    (hloaded : .frameLoaded id p x.caller ∈ since) :
    Chronicle g ids futures tasks calls
      (es ++ [.frameTornDown id faulted] ++ [.resumed x.caller x.routine]) := by
  refine h.remark (fun _ => rfl) rfl ?_ rfl (List.append_nil _) fun _ _ _ hid hwaits =>
    .inl ⟨hid, hwaits⟩
  exact ⟨es, id, faulted, rfl, since, p, hcall, hloaded⟩

/-- A frame is loaded. -/
theorem load (h : Chronicle g ids futures tasks calls es) (p : String) (caller : FrameId)
    {c : Cell Continuation}
    (hwaiting : ∀ y ∈ tasks, c.waiting = some (.resume y.id) → y.caller = caller)
    (hids : ∀ id ∈ ids, id < futures.cells.size + 2) :
    Chronicle g ((futures.cells.size + 2) :: ids) (futures.extend 1 c) tasks calls
      (es ++ [.frameLoaded (futures.cells.size + 2) p caller]) := by
  refine h.remark (e := .frameLoaded (futures.cells.size + 2) p caller) (fun _ => rfl) rfl trivial
    rfl ?_ fun x hx id hid hresumes => ?_
  · rw [FutureStore.size_extend, List.range'_concat, Nat.one_mul, Nat.add_comm 2]
    rfl
  · rcases List.mem_cons.1 hid with rfl | hid
    · rw [FutureStore.resumes_extend_self, decide_eq_true_iff] at hresumes
      exact .inr ⟨p, by rw [hwaiting x hx hresumes]⟩
    · rw [FutureStore.resumes_extend_of_lt _ _ _ _ (hids id hid)] at hresumes
      exact .inl ⟨hid, hresumes⟩

/-- Every event that neither loads nor ends a frame leaves the brackets as they are. -/
theorem brackets_concat {e : Event} (he : e.bracket? = none) :
    (es ++ [e]).filterMap Event.bracket? = es.filterMap Event.bracket? := by
  rw [List.filterMap_append, List.filterMap_cons_none he, List.filterMap_nil, List.append_nil]

/-- A registered routine is called by a frame whose earlier calls have finished. -/
theorem start (h : Chronicle g ids futures tasks calls es) {r : Routine σ} (hr : r ∈ g.routines)
    (hroutine : x.routine = r.name) (hfree : ∀ y ∈ tasks, y.caller ≠ x.caller)
    (hfresh : ∀ id ∈ ids, futures.resumes x.id id ≠ true) (id : RoutineId) :
    Chronicle g ids futures (x :: tasks) (calls + 1)
      (es ++ [.dispatchStarted x.caller x.routine id]) := by
  have hself := lastCall_start x.caller x.routine id es
  have hother : ∀ c, x.caller ≠ c →
      (Event.dispatchStarted x.caller x.routine id).started? c = none := fun c hc => if_neg hc
  exact {
    stack := by rw [brackets_concat rfl]; exact h.stack
    loaded := by rw [brackets_concat rfl]; exact h.loaded
    named := by
      intro c r' since hcall
      by_cases hc : x.caller = c
      · subst hc
        rw [hself] at hcall
        cases hcall
        exact ⟨r, hr, hroutine.symm⟩
      · exact h.named_concat (hother c hc) hcall
    waiting := List.forall_mem_cons.2
      ⟨⟨[], hself, rfl, fun id hid hresumes => absurd hresumes (hfresh id hid)⟩, fun y hy =>
        h.waiting_concat hy (hother y.caller (hfree y hy).symm) rfl fun _ hid hresumes =>
          .inl ⟨hid, hresumes⟩⟩
    finished := by
      intro c r' since hcall hnone
      rw [List.forall_mem_cons] at hnone
      exact h.finished_concat (hother c hnone.1) rfl hcall hnone.2
    counted := by
      rw [List.countP_append, List.countP_singleton, List.length_cons, ← h.counted]
      rfl
    lawful := h.lawful.concat fun r' since hcall => h.finished x.caller r' since hcall hfree }

/-- The poll of a task ends its call. -/
theorem finish (h : Chronicle g ids futures (pre ++ x :: post) calls es)
    (honly : ∀ y ∈ pre ++ post, y.caller ≠ x.caller)
    (hpolled : ∃ earlier e, es = earlier ++ [e] ∧ e.polls x.caller x.routine)
    (result : DispatchResult) :
    Chronicle g ids futures (pre ++ post) calls
      (es ++ [.routineFinished x.caller x.routine result]) := by
  have hsub : ∀ y ∈ pre ++ post, y ∈ pre ++ x :: post := fun y hy =>
    List.mem_append.2 ((List.mem_append.1 hy).imp_right (List.mem_cons_of_mem _))
  exact {
    stack := by rw [brackets_concat rfl]; exact h.stack
    loaded := by rw [brackets_concat rfl]; exact h.loaded
    named := fun _ _ _ hcall => h.named_concat rfl hcall
    waiting := fun y hy => h.waiting_concat (hsub y hy) rfl
      (Event.finishes_eq_false (fun heq => absurd heq.symm (honly y hy)) result)
      fun _ hid hresumes => .inl ⟨hid, hresumes⟩
    finished := by
      intro c r since hcall hnone
      by_cases hc : x.caller = c
      · subst hc
        obtain ⟨earlier, hold, rfl⟩ := (lastCall_concat_iff rfl).1 hcall
        obtain ⟨since, hcall', hzero, -⟩ :=
          h.waiting x (List.mem_append_right _ List.mem_cons_self)
        cases hcall'.symm.trans hold
        rw [List.countP_append, hzero]
        simp [Event.finishes]
      · have hother : (Event.routineFinished x.caller x.routine result).finishes c r = false :=
          Event.finishes_eq_false (fun heq => absurd heq hc) result
        refine h.finished_concat rfl hother hcall ?_
        rw [List.forall_mem_append] at hnone ⊢
        exact ⟨hnone.1, List.forall_mem_cons.2 ⟨hc, hnone.2⟩⟩
    counted := by
      have hcounted := h.counted
      rw [List.length_append, List.length_cons] at hcounted
      rw [List.countP_append, List.countP_singleton, List.length_append, Event.isFinish, if_pos rfl]
      omega
    lawful := h.lawful.concat fun _ => hpolled }

/-- A call of a number under which nothing is registered. -/
theorem refuse (h : Chronicle g ids futures tasks calls es) {caller : FrameId}
    (hfree : ∀ y ∈ tasks, y.caller ≠ caller) {name : String} (hname : ∀ q ∈ g.routines, q.name ≠ name)
    (result : DispatchResult) :
    Chronicle g ids futures tasks (calls + 1) (es ++ [.routineFinished caller name result]) where
  stack := by rw [brackets_concat rfl]; exact h.stack
  loaded := by rw [brackets_concat rfl]; exact h.loaded
  named _ _ _ hcall := h.named_concat rfl hcall
  waiting y hy := h.waiting_concat hy rfl
    (Event.finishes_eq_false (fun heq => absurd heq.symm (hfree y hy)) result)
    fun _ hid hresumes => .inl ⟨hid, hresumes⟩
  finished := by
    intro c r since hcall hnone
    obtain ⟨q, hq, rfl⟩ := h.named_concat rfl hcall
    exact h.finished_concat rfl
      (Event.finishes_eq_false (fun _ => (hname q hq).symm) result) hcall hnone
  counted := by
    rw [List.countP_append, List.countP_singleton, Event.isFinish, if_pos rfl, ← h.counted]
    omega
  lawful := h.lawful.concat fun hq => by
    obtain ⟨q, hq, hqname⟩ := hq
    exact absurd hqname (hname q hq)

/-- What a task waits in and what it waits for may change, but not what it is. -/
theorem revise (h : Chronicle g ids futures (pre ++ x :: post) calls es) {y : Task σ}
    (hid : y.id = x.id) (hcaller : y.caller = x.caller) (hroutine : y.routine = x.routine) :
    Chronicle g ids futures (pre ++ y :: post) calls es := by
  have hmap : ∀ {P : Task σ → Prop}, (∀ z ∈ pre ++ x :: post, P z) → (P x → P y) →
      ∀ z ∈ pre ++ y :: post, P z := by
    intro P hall hxy
    rw [List.forall_mem_append, List.forall_mem_cons] at hall ⊢
    exact ⟨hall.1, hxy hall.2.1, hall.2.2⟩
  have hback : ∀ {P : Task σ → Prop}, (∀ z ∈ pre ++ y :: post, P z) → (P y → P x) →
      ∀ z ∈ pre ++ x :: post, P z := by
    intro P hall hyx
    rw [List.forall_mem_append, List.forall_mem_cons] at hall ⊢
    exact ⟨hall.1, hyx hall.2.1, hall.2.2⟩
  exact { h with
    waiting := hmap h.waiting (by rw [hid, hcaller, hroutine]; exact id)
    finished := fun c r since hcall hnone =>
      h.finished c r since hcall (hback hnone (by rw [hcaller]; exact id))
    counted := by
      rw [← h.counted, List.length_append, List.length_append]
      rfl }

end Chronicle

end Reentrant
