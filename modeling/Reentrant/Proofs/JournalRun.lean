import Reentrant.Proofs.JournalTrace

/-!
The journal of a run. Whatever a step records is a chain of the moves of the chronicle: a native call
starts a routine, the end of a frame resumes one, and a poll finishes the routine or not and loads what
it asked for. So the journal of a completed run is a well-formed trace.
-/

namespace Reentrant

variable {σ : Type}

/-! ### The events of a poll -/

/-- What a poll of a routine records: its result, if it has one, and the frames that are loaded for it,
from the frame `id` on. -/
def pollEvents (caller : FrameId) (routine : String) (result : Option DispatchResult) (id : FrameId)
    (ps : List Program) : List Event :=
  (result.map (Event.routineFinished caller routine)).toList ++ loadEvents caller id ps

namespace Journal

theorem recordAll_append (j : Journal) (es es' : List Event) :
    j.recordAll (es ++ es') = (j.recordAll es).recordAll es' :=
  List.foldl_append

/-- A journal that is kept keeps every event, in order. -/
theorem recordAll_enabled {j : Journal} (hj : j.enabled = true) (es : List Event) :
    (j.recordAll es).enabled = true ∧ (j.recordAll es).events.toList = j.events.toList ++ es := by
  induction es generalizing j with
  | nil => exact ⟨hj, (List.append_nil _).symm⟩
  | cons e es ih =>
      have hrecord : j.record e = { j with events := j.events.push e } := if_pos hj
      obtain ⟨henabled, hevents⟩ := ih (j := j.record e) (by rw [hrecord]; exact hj)
      refine ⟨henabled, hevents.trans ?_⟩
      rw [hrecord, Array.toList_push, List.append_assoc]
      rfl

end Journal

theorem Bridge.journal_reacted (b : Bridge σ) (pre : List (Task σ)) (x : Task σ)
    (post : List (Task σ)) (tr : Transcript σ) (id : FrameId) :
    (b.reacted pre x post tr id).journal =
      b.journal.recordAll (pollEvents x.caller x.routine (tr.result? x) id tr.programs) := by
  rw [reacted, loaded, driven, pollEvents, Journal.recordAll_append]
  cases tr.result? x <;> rfl

namespace Chronicle

variable {g : Registry σ} {ids : List FrameId} {futures : FutureStore Continuation}
  {tasks pre post : List (Task σ)} {calls : Nat} {es : List Event} {x : Task σ}

/-- Programs are loaded for one caller, one after the other. -/
theorem loadAll (h : Chronicle g ids futures tasks calls es) (ps : List Program) (caller : FrameId)
    {c : Cell Continuation}
    (hwaiting : ∀ y ∈ tasks, c.waiting = some (.resume y.id) → y.caller = caller)
    (hids : ∀ id ∈ ids, id < futures.cells.size + 2) :
    Chronicle g ((List.range' (futures.cells.size + 2) ps.length).reverse ++ ids)
      (futures.extend ps.length c) tasks calls
      (es ++ loadEvents caller (futures.cells.size + 2) ps) := by
  induction ps generalizing ids futures es with
  | nil =>
      rw [loadEvents, List.append_nil, List.length_nil, FutureStore.extend_zero]
      exact h
  | cons p ps ih =>
      have hids' : ∀ id ∈ (futures.cells.size + 2) :: ids, id < (futures.extend 1 c).cells.size + 2 := by
        rw [FutureStore.size_extend, List.forall_mem_cons]
        exact ⟨Nat.lt_succ_self _, fun id hid => Nat.lt_succ_of_lt (hids id hid)⟩
      have hrest := ih (h.load p.name caller hwaiting hids) hids'
      rw [FutureStore.size_extend, FutureStore.extend_succ] at hrest
      rw [loadEvents, List.length_cons, List.range'_succ, List.reverse_cons, List.append_assoc]
      rw [List.append_assoc] at hrest
      exact hrest

/-- A poll of the task `x`, right after its call has started or it has been resumed. -/
theorem polled (h : Chronicle g ids futures (pre ++ x :: post) calls es)
    (honly : ∀ y ∈ pre ++ post, y.id ≠ x.id ∧ y.caller ≠ x.caller)
    (hpolled : ∃ earlier e, es = earlier ++ [e] ∧ e.polls x.caller x.routine)
    (hids : ∀ id ∈ ids, id < futures.cells.size + 2) (tr : Transcript σ) :
    Chronicle g ((List.range' (futures.cells.size + 2) tr.programs.length).reverse ++ ids)
      (futures.extend tr.programs.length (tr.cell x.id)) (tr.remaining pre x post) calls
      (es ++ pollEvents x.caller x.routine (tr.result? x) (futures.cells.size + 2) tr.programs) := by
  -- whoever waits for a new future is the polled task
  have hself : ∀ y, (tr.cell x.id).waiting = some (.resume y) → y = x.id := fun y hy =>
    Continuation.resume.inj (Transcript.waiting_cell hy)
  rw [Transcript.remaining, pollEvents]
  cases hr : tr.result? x with
  | some r =>
      have hfinished := h.finish (fun y hy => (honly y hy).2) hpolled r
      have hloaded := hfinished.loadAll tr.programs x.caller (c := tr.cell x.id)
        (fun y hy hwaits => absurd (hself y.id hwaits) (honly y hy).1) hids
      rwa [List.append_assoc] at hloaded
  | none =>
      have hrevised := h.revise (y := tr.waiting x) rfl rfl rfl
      refine hrevised.loadAll tr.programs x.caller (c := tr.cell x.id) (fun y hy hwaits => ?_) hids
      have hid := hself y.id hwaits
      rcases List.mem_append.1 hy with hy | hy
      · exact absurd hid (honly y (List.mem_append_left _ hy)).1
      · rcases List.mem_cons.1 hy with rfl | hy
        · rfl
        · exact absurd hid (honly y (List.mem_append_right _ hy)).1

end Chronicle

/-! ### What a step records -/

/-- No routine has the name under which the calls of an unregistered number are recorded. -/
def Registry.NamesApart (g : Registry σ) : Prop :=
  ∀ id, g.get? id = none → ∀ r ∈ g.routines, r.name ≠ "#" ++ Decimal.text id.toNat

namespace Bridge

variable {keep : σ → Prop} {m m' : Machine} {b b' : Bridge σ} {calls : Nat} {es : List Event}

/-- What the bridge's books tell of the journal. -/
abbrev Chronicled (m : Machine) (b : Bridge σ) (calls : Nat) (es : List Event) : Prop :=
  Chronicle b.registry (m.frames.map (·.id)) b.futures b.tasks calls es

theorem Reaction.chronicled_called {f : Frame} {below : List Frame} {id : RoutineId}
    (hreaction : Reaction (.call id f.id) m b m' b') (h : Aligned keep m b)
    (hframes : m.frames = f :: below) (hnames : b.registry.NamesApart)
    (hc : Chronicled m b calls es) :
    ∃ es', b'.journal = b.journal.recordAll es' ∧ Chronicled m' b' (calls + 1) (es ++ es') := by
  have hcall := hreaction.of_call hframes
  have hfree := h.free_top hframes
  have hids : ∀ id ∈ m.frames.map (·.id), id < b.futures.cells.size + 2 := fun id hid =>
    (h.ledger.bounds id hid).2
  have hnumbered : ∀ y ∈ b.tasks, y.id ≠ b.nextTask := fun y hy =>
    Nat.ne_of_lt (h.ledger.rests y hy).numbered
  -- no future waits for a task that has not been numbered yet
  have hfresh : ∀ id ∈ m.frames.map (·.id), b.futures.resumes b.nextTask id ≠ true := by
    intro id _ hresumes
    obtain ⟨t, ht, hk⟩ := h.ledger.waiting _ _ (FutureStore.resumes_iff.1 hresumes).2
    cases hk
    exact Nat.lt_irrefl _ ht
  cases hintake : b.registry.intake id f.stack with
  | mk intake rest =>
      rw [hintake] at hcall
      cases intake with
      | settled result notes spent =>
          obtain ⟨rfl, rfl⟩ := hcall
          refine ⟨_, rfl, ?_⟩
          have hsame : (({ f with stack := rest } : Frame).receive result :: below).map (·.id) =
              m.frames.map (·.id) := by
            rw [hframes, List.map_cons, Frame.id_receive]
            rfl
          simp only [Chronicled, taken, hsame, startEvents, routineName]
          cases hget : b.registry.get? id with
          | none => exact hc.refuse hfree (hnames id hget) result
          | some r =>
              have hr := List.mem_of_find?_eq_some hget
              let x : Task σ := { id := b.nextTask, caller := f.id, routine := r.name, activity := .over }
              have hstart : Chronicle _ _ _ ([] ++ x :: b.tasks) _ _ :=
                hc.start hr rfl hfree hfresh id
              have hfinish := Chronicle.finish hstart hfree
                ⟨es, _, rfl, .inr ⟨id, rfl⟩⟩ result
              rwa [List.append_assoc] at hfinish
      | begun routine s =>
          obtain ⟨hlt, rfl, rfl⟩ := hcall
          obtain ⟨r, start, xs, hget, -, -, -, rfl, -, -⟩ := Registry.begun_of_intake hintake
          have hr := List.mem_of_find?_eq_some hget
          let x : Task σ := { id := b.nextTask, caller := f.id, routine := r.name, activity := .idle s }
          refine ⟨_, by rw [journal_reacted, ← Journal.recordAll_append], ?_⟩
          have hstart : Chronicle _ _ _ ([] ++ x :: b.tasks) _ _ :=
            hc.start hr rfl hfree hfresh id
          have hpolled := Chronicle.polled hstart
            (fun y hy => ⟨hnumbered y hy, hfree y hy⟩) ⟨es, _, rfl, .inr ⟨id, rfl⟩⟩ hids
            ((b.registry.poll s).transcript b.futures.outcome? b.library b.nextTask f.id
              b.futures.cells.size)
          rw [Chronicled, Machine.loadAll_answer _ _ (by exact hlt), reacted_eq]
          simp only [startEvents, hget, List.map_append, Limits.ids_freshAll, ids_answered,
            Frame.id_answered, List.map_cons, h.next]
          rw [hframes, List.append_assoc] at hpolled
          exact hpolled

theorem Reaction.chronicled_ended {t : Teardown} (hreaction : Reaction (.ended t) m b m' b')
    (hnext : m.nextFrame = b.futures.cells.size + 2)
    (hids : ∀ id ∈ m.frames.map (·.id), id < m.nextFrame ∧ id ≠ t.frame)
    (hdistinct : b.tasks.Pairwise fun x y => x.id ≠ y.id ∧ x.caller ≠ y.caller)
    (hc : Chronicle b.registry (t.frame :: m.frames.map (·.id)) b.futures b.tasks calls es) :
    ∃ es', b'.journal = b.journal.recordAll es' ∧ Chronicled m' b' calls (es ++ es') := by
  have hclosed : 2 ≤ t.frame → Chronicle b.registry (m.frames.map (·.id))
      (b.futures.resolved (t.frame - 2) t.outcome) b.tasks calls
      (es ++ [.frameTornDown t.frame t.faulted]) := fun htwo =>
    hc.tear t.faulted (FutureStore.size_resolved _ _ _) fun t' id hid =>
      FutureStore.resumes_resolved_of_ne _ htwo (hids id hid).2 _ _
  cases hreaction with
  | left => exact ⟨_, rfl, hc.tear t.faulted rfl fun _ _ _ => rfl⟩
  | unheard htwo => exact ⟨_, rfl, hclosed htwo⟩
  | @resumed _ _ _ entries pre post y z s tr htwo htable htasks hidle hresumes hothers hz htr hqueued
      hcaller =>
      subst hz
      obtain ⟨since, hcall, -, hloads⟩ :=
        hc.waiting y (htasks ▸ List.mem_append_right _ List.mem_cons_self)
      obtain ⟨p, hp⟩ := hloads t.frame List.mem_cons_self hresumes
      have hresumed := (hclosed htwo).resume hcall hp
      rw [htasks] at hresumed hdistinct
      have honly := Task.only_of_distinct hdistinct
      have hsize := FutureStore.size_resolved b.futures (t.frame - 2) t.outcome
      have hpolled := (hresumed.revise (y := { y with outstanding := y.outstanding - 1 }) rfl rfl
        rfl).polled honly ⟨_, _, rfl, .inl rfl⟩
        (fun id hid => by rw [hsize, ← hnext]; exact (hids id hid).1) tr
      refine ⟨[.frameTornDown t.frame t.faulted] ++ ([.resumed y.caller y.routine] ++
        pollEvents y.caller y.routine (tr.result? { y with outstanding := y.outstanding - 1 })
          m.nextFrame tr.programs), ?_, ?_⟩
      · rw [journal_reacted, Journal.recordAll_append, Journal.recordAll_append]
        rfl
      · rw [Chronicled, Machine.loadAll_answer _ _ hcaller, reacted_eq]
        simp only [List.map_append, Limits.ids_freshAll, ids_answered, hnext]
        rw [hsize, List.append_assoc, List.append_assoc] at hpolled
        exact hpolled

/-- A step extends the journal, and counts as a native call if it makes one. -/
theorem Stepped.chronicled {r : Except (Halt HookError) Progress} (hstep : Stepped m b (r, m', b'))
    (h : Aligned keep m b) (hnames : b.registry.NamesApart) (hc : Chronicled m b calls es)
    {called : Option (RoutineId × FrameId)}
    (hcalled : called = match @Machine.advance HookError m with
      | (.ok (.call id caller), _) => some (id, caller)
      | _ => none) :
    ∃ es', b'.journal = b.journal.recordAll es' ∧
      Chronicled m' b' (calls + called.isSome.toNat) (es ++ es') := by
  cases hstep with
  | done hnil =>
      have hadvance : @Machine.advance HookError m = (.ok .done, m) := by rw [Machine.advance, hnil]
      rw [hadvance] at hcalled
      exact ⟨[], rfl, by rw [hcalled, List.append_nil]; exact hc⟩
  | refused hlimit hadvance =>
      rw [hadvance] at hcalled
      exact ⟨[], rfl, by rw [hcalled, List.append_nil]; exact hc⟩
  | @counted f below s m₁ _ _ hframes hadvanced hadvance hreaction =>
      rw [hadvance] at hcalled
      have hledger := h.ledger
      rw [Chronicled, hframes, List.map_cons] at hc
      cases hadvanced with
      | @proceed g hid hblocked logged =>
          cases hreaction
          refine ⟨[], rfl, ?_⟩
          rw [hcalled, List.append_nil, Chronicled, List.map_cons, hid]
          exact hc
      | @call g hid hblocked routine =>
          have hcontinues : Aligned keep
              { m with steps := m.steps + 1, frames := g :: below } b :=
            h.continues hframes hid hblocked rfl rfl rfl rfl
          have hc' : Chronicled { m with steps := m.steps + 1, frames := g :: below } b calls es := by
            rw [Chronicled, List.map_cons, hid]
            exact hc
          rw [hcalled]
          exact hreaction.chronicled_called hcontinues rfl hnames hc'
      | ended fault stack =>
          rw [hcalled]
          refine hreaction.chronicled_ended (by exact h.next) (fun id hid => ?_) h.ledger.distinct hc
          rw [hframes, List.map_cons] at hledger
          have hlt := hledger.lt_top id hid
          refine ⟨?_, Nat.ne_of_lt hlt⟩
          calc
            id < f.id := hlt
            _ < m.nextFrame := h.lt_next hframes

end Bridge

/-! ### Runs -/

namespace Launch

/-- The journal after `n` steps. -/
def trace (c : Launch σ) (n : Nat) : List Event := (c.after n).2.journal.events.toList

/-- How many of the first `n` steps make a native call. -/
def calls (c : Launch σ) (n : Nat) : Nat := (List.range n).countP fun k => (c.calling k).isSome

theorem calls_succ (c : Launch σ) (n : Nat) :
    c.calls (n + 1) = c.calls n + ((c.calling n).isSome).toNat := by
  rw [calls, List.range_succ, List.countP_append, List.countP_singleton, calls]
  cases (c.calling n).isSome <;> rfl

/-- In every state the journal tells of the frames and of the tasks what is true of them. -/
theorem chronicled_after {keep : σ → Prop} {c : Launch σ} (hkeep : c.registry.KeepsTo keep)
    (hjournal : c.journal = true) (hnames : c.registry.NamesApart) (n : Nat) :
    (c.after n).2.journal.enabled = true ∧
      Bridge.Chronicled (c.after n).1 (c.after n).2 (c.calls n) (c.trace n) := by
  induction n with
  | zero => exact ⟨hjournal, Chronicle.initial c.registry⟩
  | succ n ih =>
      obtain ⟨henabled, hc⟩ := ih
      obtain ⟨es, hrecorded, hc'⟩ := (stepped_after hkeep n).chronicled (aligned_after hkeep n)
        (by rw [(host_after hkeep n).1]; exact hnames) hc rfl
      obtain ⟨henabled', hevents⟩ := Journal.recordAll_enabled henabled es
      rw [← hrecorded] at henabled' hevents
      refine ⟨henabled', ?_⟩
      rw [trace, hevents, c.calls_succ]
      exact hc'

end Launch

/-! ### Completed runs -/

/-- What the journal of a completed run looks like, for that many native calls. -/
structure WellFormed (g : Registry σ) (calls : Nat) (es : List Event) : Prop where
  /-- The loads and ends of frames are nested, once the load of the entry frame is put first. -/
  nested : Bracket.Nested (.opens 1 :: es.filterMap Event.bracket?)
  /-- Every frame is loaded once, in the order of the numbers. -/
  loaded : ∃ n, (Bracket.opens 1 :: es.filterMap Event.bracket?).filterMap Bracket.opened? =
    List.range' 1 n
  /-- Every frame ends once. -/
  ended : ((Bracket.opens 1 :: es.filterMap Event.bracket?).filterMap Bracket.closed?).Perm
    ((Bracket.opens 1 :: es.filterMap Event.bracket?).filterMap Bracket.opened?)
  /-- A call of a registered routine has one end before the next such call of its frame. -/
  answered : ∀ before c r id after, es = before ++ .dispatchStarted c r id :: after →
    (after.takeWhile fun e => (e.started? c).isNone).countP (·.finishes c r) = 1
  /-- Every native call has one end. -/
  counted : es.countP Event.isFinish = calls
  /-- A registered routine finishes right after it was started or resumed. -/
  finished : ∀ before c r result after, es = before ++ .routineFinished c r result :: after →
    (∃ q ∈ g.routines, q.name = r) → ∃ earlier e, before = earlier ++ [e] ∧ e.polls c r
  /-- A routine is resumed right after the end of a frame that was loaded for its call. -/
  resumed : ∀ before c r after, es = before ++ .resumed c r :: after →
    ∃ earlier frame faulted, before = earlier ++ [.frameTornDown frame faulted] ∧
      ∃ since program, lastCall c earlier = some (r, since) ∧ .frameLoaded frame program c ∈ since

namespace Chronicle

variable {g : Registry σ} {futures : FutureStore Continuation} {calls : Nat} {es : List Event}

/-- Once no task waits, every call has one end before the next. -/
theorem answered {ids : List FrameId} (h : Chronicle g ids futures [] calls es)
    {before after : List Event} {c : FrameId} {r : String} {id : RoutineId}
    (hes : es = before ++ .dispatchStarted c r id :: after) :
    (after.takeWhile fun e => (e.started? c).isNone).countP (·.finishes c r) = 1 := by
  have hstart := lastCall_start c r id before
  have hsplit := List.takeWhile_append_dropWhile (p := fun e : Event => (e.started? c).isNone)
    (l := after)
  generalize hmid : after.takeWhile (fun e => (e.started? c).isNone) = mid at hsplit ⊢
  have hquiet : ∀ e ∈ mid, e.started? c = none := by
    intro e he
    have hall := List.all_takeWhile (p := fun e : Event => (e.started? c).isNone) (l := after)
    rw [hmid, List.all_eq_true] at hall
    exact Option.isNone_iff_eq_none.1 (hall e he)
  have hcall := lastCall_append hstart hquiet
  rw [List.append_assoc, List.nil_append, List.singleton_append] at hcall
  cases hrest : after.dropWhile (fun e => (e.started? c).isNone) with
  | nil =>
      rw [hrest, List.append_nil] at hsplit
      subst hsplit
      rw [← hes] at hcall
      exact h.finished c r mid hcall (by simp)
  | cons e rest =>
      have hhead := List.head_dropWhile_not (l := after) (fun e : Event => (e.started? c).isNone)
        (by rw [hrest]; exact List.cons_ne_nil _ _)
      simp only [hrest, List.head_cons] at hhead
      obtain ⟨r', hr'⟩ := Option.isSome_iff_exists.1 (Option.isNone_eq_false_iff.1 hhead)
      obtain ⟨id', rfl⟩ := Event.started?_eq_some hr'
      rw [hrest] at hsplit
      rw [← hsplit, ← List.cons_append, ← List.append_assoc] at hes
      exact h.lawful _ _ _ hes r mid hcall

theorem wellFormed (h : Chronicle g [] futures [] calls es) : WellFormed g calls es := by
  have hnested : Bracket.Nested (.opens 1 :: es.filterMap Event.bracket?) :=
    Bracket.nested_of_read h.stack
  exact {
    nested := hnested
    loaded := ⟨futures.cells.size + 1, by
      rw [List.filterMap_cons, h.loaded, List.range'_succ]
      rfl⟩
    ended := hnested.perm
    answered := fun _ _ _ _ _ hes => h.answered hes
    counted := h.counted
    finished := fun _ _ _ _ _ hes => h.lawful _ _ _ hes
    resumed := fun _ _ _ _ hes => h.lawful _ _ _ hes }

end Chronicle

namespace Launch

/-- The call of a number under which nothing is registered records its end only. -/
theorem trace_unregistered {keep : σ → Prop} {c : Launch σ} (hkeep : c.registry.KeepsTo keep)
    (hjournal : c.journal = true) (hnames : c.registry.NamesApart) {k : Nat} {id : RoutineId}
    {caller : FrameId} (hcalls : c.calling k = some (id, caller)) (hid : c.registry.get? id = none) :
    c.trace (k + 1) = c.trace k ++ [.routineFinished caller ("#" ++ Decimal.text id.toNat)
      (.fault (DispatchError.unknownRoutine id).toFault)] := by
  have hstepped := stepped_after hkeep k
  have henabled := (chronicled_after hkeep hjournal hnames k).1
  have hregistry := (host_after hkeep k).1
  rw [calling] at hcalls
  rw [trace, trace]
  generalize c.result k = r, (c.after (k + 1)).1 = m', (c.after (k + 1)).2 = b' at hstepped ⊢
  cases hstepped with
  | done hnil =>
      rw [Machine.advance, hnil] at hcalls
      cases hcalls
  | refused hlimit hadvance =>
      rw [hadvance] at hcalls
      cases hcalls
  | counted hframes hadvanced hadvance hreaction =>
      rw [hadvance] at hcalls
      cases hadvanced with
      | proceed => cases hcalls
      | ended => cases hcalls
      | @call g hid' hblocked routine =>
          cases hcalls
          have hcall := hreaction.of_call rfl
          simp only [Registry.intake, hregistry, hid] at hcall
          obtain ⟨-, rfl⟩ := hcall
          have hevents := (Journal.recordAll_enabled henabled (Bridge.startEvents
            (c.after k).2.registry id g.id ++ [.routineFinished g.id ((c.after k).2.routineName id)
              (.fault (DispatchError.unknownRoutine id).toFault)])).2
          refine hevents.trans ?_
          simp only [Bridge.startEvents, Bridge.routineName, hregistry, hid]
          rfl

/-- The journal of a completed run is a well-formed trace, if no routine is registered under a name
that stands for an unregistered number. -/
theorem journal_well_formed (c : Launch σ) (hc : c.registry.WellBehaved)
    (hnames : c.registry.NamesApart) (hjournal : c.journal = true) {n : Nat}
    (hdone : (c.after n).1.frames = []) :
    WellFormed c.registry (c.calls n) (c.trace n) ∧
      ∀ k id caller, c.calling k = some (id, caller) → c.registry.get? id = none →
        c.trace (k + 1) = c.trace k ++ [.routineFinished caller ("#" ++ Decimal.text id.toNat)
          (.fault (DispatchError.unknownRoutine id).toFault)] := by
  obtain ⟨keep, hkeep⟩ := hc
  have hchronicled := (chronicled_after hkeep hjournal hnames n).2
  have hledger := (aligned_after hkeep n).ledger
  rw [Bridge.Chronicled, (host_after hkeep n).1, hdone] at hchronicled
  rw [hdone] at hledger
  have htasks : (c.after n).2.tasks = [] := List.eq_nil_iff_forall_not_mem.2 fun x hx =>
    List.not_mem_nil (hledger.callers x hx)
  rw [htasks] at hchronicled
  exact ⟨hchronicled.wellFormed, fun _ _ _ => trace_unregistered hkeep hjournal hnames⟩

/-- No built-in has the name of a number. -/
theorem namesApart_builtin : Builtin.registry.NamesApart := by
  intro id _ r hr heq
  have hfirst : r.name.toList.head? = some '#' := by
    rw [heq, String.toList_append]
    rfl
  have hall : ∀ q ∈ Builtin.registry.routines, q.name.toList.head? ≠ some '#' := by decide
  exact hall r hr hfirst

/-- A program that calls `call_both`, with the journal kept. -/
def callBothKept : Launch Builtin.Waiting := { callBoth with journal := true }

theorem journal_well_formed_callBoth :
    (callBothKept.after 5).1.frames = [] ∧ callBothKept.calls 5 = 1 ∧
      WellFormed Builtin.registry 1 (callBothKept.trace 5) := by
  have hdone : (callBothKept.after 5).1.frames = [] := by decide
  have hcalls : callBothKept.calls 5 = 1 := by decide
  obtain ⟨hwell, -⟩ := callBothKept.journal_well_formed Builtin.wellBehaved namesApart_builtin rfl
    hdone
  rw [hcalls] at hwell
  exact ⟨hdone, hcalls, hwell⟩

/-- A routine under the name that stands for the number 99, and a program that calls it and then the
number 99, which is not registered. -/
def clash : Launch Empty where
  registry :=
    { poll := Empty.elim
      routines := [{ id := 5, name := "#99", params := [], body := .sync fun _ => ([], .ok .void) }] }
  journal := true
  program := ⟨"main", [.native 5, .native 99]⟩

/-- Both ends are recorded under one name, so the one call of a registered routine has two. -/
theorem two_ends_clash :
    clash.registry.WellBehaved ∧ clash.journal = true ∧ (clash.after 3).1.frames = [] ∧
      ∃ after, clash.trace 3 = .dispatchStarted 1 "#99" 5 :: after ∧
        (after.takeWhile fun e => (e.started? 1).isNone).countP (·.finishes 1 "#99") = 2 := by
  have hname : "#" ++ Decimal.text 99 = "#99" := by
    rw [Decimal.text, Decimal.ofNat, Decimal.ofNat]
    rfl
  have htrace : clash.trace 3 = [.dispatchStarted 1 "#99" 5, .routineFinished 1 "#99" .void,
      .routineFinished 1 ("#" ++ Decimal.text 99)
        (.fault (DispatchError.unknownRoutine 99).toFault), .frameTornDown 1 true] := rfl
  rw [hname] at htrace
  exact ⟨⟨fun _ => True, ⟨fun _ _ _ _ _ => trivial, fun s => s.elim⟩⟩, rfl, by decide, _, htrace,
    by decide⟩

end Launch

end Reentrant
