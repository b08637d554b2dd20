import Reentrant.Proofs.Alignment

/-!
What a step of a machine with a bridge can do. The machine's own part ends in a signal; the bridge's
reaction to the signal is one of six kinds. Each kind leaves the two aligned.
-/

namespace Reentrant

variable {σ : Type}

namespace Bridge

/-- The invocations that wait to be loaded when the reaction to a signal reaches its flush, oldest
first. -/
def queued : Signal → Machine → Bridge σ → List Invocation
  | .call id caller, m, b => (call id caller m b).2.2.outbox
  | .ended t, _, b => (b.settled t).2.outbox
  | _, _, _ => []

/-- How the bridge answers a signal, given the machine after its own part of the step. -/
inductive Reaction : Signal → Machine → Bridge σ → Machine → Bridge σ → Prop where
  /-- The host is not told. -/
  | untold {m : Machine} {b : Bridge σ} : Reaction .proceed m b m b
  /-- A native call that is over at once. -/
  | settled {m : Machine} {b : Bridge σ} {f : Frame} {below : List Frame} {id : RoutineId}
      {result : DispatchResult} {notes : List Note} {spent : Nat} {rest : List Value}
      (hframes : m.frames = f :: below)
      (hintake : b.registry.intake id f.stack = (.settled result notes spent, rest))
      (hqueued : queued (.call id f.id) m b = []) :
      Reaction (.call id f.id) m b
        { m with frames := ({ f with stack := rest } : Frame).receive result :: below }
        (b.taken id f.id result notes spent)
  /-- A native call that starts a routine, which is polled once. -/
  | begun {m : Machine} {b : Bridge σ} {f : Frame} {below : List Frame} {id : RoutineId}
      {routine : String} {s : σ} {rest : List Value} {x : Task σ} {tr : Transcript σ}
      (hframes : m.frames = f :: below)
      (hintake : b.registry.intake id f.stack = (.begun routine s, rest))
      (hx : x = { id := b.nextTask, caller := f.id, routine, activity := .idle s })
      (htr : tr = (b.registry.poll s).transcript b.futures.outcome? b.library b.nextTask f.id
        b.futures.cells.size)
      (hqueued : queued (.call id f.id) m b = invocations f.id b.futures.cells.size tr.programs)
      (hcaller : f.id < m.nextFrame) :
      Reaction (.call id f.id) m b
        ((({ m with
            frames := { f with stack := rest, blocked := (tr.result? x).isNone } :: below } :
              Machine).loadAll tr.programs).answer f.id (tr.result? x))
        (({ b with
          journal := b.journal.recordAll (startEvents b.registry id f.id)
          nextTask := b.nextTask + 1 } : Bridge σ).reacted [] x b.tasks tr m.nextFrame)
  /-- The end of a frame that no invocation waits for. -/
  | left {m : Machine} {b : Bridge σ} {t : Teardown}
      (hframe : t.frame = 1) (habsent : ∀ e ∈ b.table.entries, e.1 ≠ t.frame)
      (hqueued : queued (.ended t) m b = []) :
      Reaction (.ended t) m b m (b.record (.frameTornDown t.frame t.faulted))
  /-- The end of an invoked frame, of which only its future learns. -/
  | unheard {m : Machine} {b : Bridge σ} {t : Teardown} {es : List (FrameId × FutureId)}
      (hframe : 2 ≤ t.frame) (htable : b.table.entries = es ++ [(t.frame, t.frame - 2)])
      (hsilent : ∀ x ∈ b.tasks, b.futures.resumes x.id t.frame ≠ true)
      (hqueued : queued (.ended t) m b = []) :
      Reaction (.ended t) m b m (b.closed t (t.frame - 2) es)
  /-- The end of an invoked frame that a task waits for; the task is polled once. -/
  | resumed {m : Machine} {b : Bridge σ} {t : Teardown} {es : List (FrameId × FutureId)}
      {pre post : List (Task σ)} {y z : Task σ} {s : σ} {tr : Transcript σ}
      (hframe : 2 ≤ t.frame) (htable : b.table.entries = es ++ [(t.frame, t.frame - 2)])
      (htasks : b.tasks = pre ++ y :: post) (hidle : y.activity = .idle s)
      (hresumes : b.futures.resumes y.id t.frame = true)
      (hothers : ∀ x ∈ pre ++ post, b.futures.resumes x.id t.frame ≠ true)
      (hz : z = { y with outstanding := y.outstanding - 1 })
      (htr : tr = (b.registry.poll s).transcript (b.futures.resolved (t.frame - 2) t.outcome).outcome?
        b.library y.id y.caller b.futures.cells.size)
      (hqueued : queued (.ended t) m b = invocations y.caller b.futures.cells.size tr.programs)
      (hcaller : y.caller < m.nextFrame) :
      Reaction (.ended t) m b ((m.loadAll tr.programs).answer y.caller (tr.result? z))
        (((b.closed t (t.frame - 2) es).record (.resumed y.caller y.routine)).reacted pre z post tr
          m.nextFrame)

/-- The task that the end of a frame resumes, as it is found in the list. -/
theorem find?_resumed {b : Bridge σ} {pre post : List (Task σ)} {y : Task σ} {id : FrameId}
    (htasks : b.tasks = pre ++ y :: post) (hresumes : b.futures.resumes y.id id = true)
    (hothers : ∀ x ∈ pre ++ post, b.futures.resumes x.id id ≠ true) :
    b.tasks.find? (fun x => b.futures.resumes x.id id) = some y := by
  rw [htasks, List.find?_append, List.find?_eq_none.2 fun x hx =>
    hothers x (List.mem_append_left _ hx), Option.none_or,
    List.find?_cons_of_pos (p := fun x : Task σ => b.futures.resumes x.id id) hresumes]

/-- No task waits for the entry frame. -/
theorem find?_entry {b : Bridge σ} {id : FrameId} (hone : id = 1) :
    b.tasks.find? (fun x => b.futures.resumes x.id id) = none := by
  refine List.find?_eq_none.2 fun x _ hresumes => ?_
  have htwo := (FutureStore.resumes_iff.1 hresumes).1
  rw [hone] at htwo
  exact absurd htwo (by decide)

/-- The bridge changes neither the limits nor the entry frame and its outcome, nor the log. -/
theorem Reaction.keeps {s : Signal} {m m' : Machine} {b b' : Bridge σ}
    (h : Reaction s m b m' b') :
    m'.limits = m.limits ∧ m'.entry = m.entry ∧ m'.exit = m.exit ∧ m'.logged = m.logged := by
  cases h with
  | untold => exact ⟨rfl, rfl, rfl, rfl⟩
  | settled => exact ⟨rfl, rfl, rfl, rfl⟩
  | begun => exact Machine.loadAll_answer_keeps _ _ _ _
  | left => exact ⟨rfl, rfl, rfl, rfl⟩
  | unheard => exact ⟨rfl, rfl, rfl, rfl⟩
  | resumed => exact Machine.loadAll_answer_keeps _ _ _ _

/-- The bridge changes neither its registry nor its library. -/
theorem Reaction.keeps_host {s : Signal} {m m' : Machine} {b b' : Bridge σ}
    (h : Reaction s m b m' b') : b'.registry = b.registry ∧ b'.library = b.library := by
  cases h with
  | untold => exact ⟨rfl, rfl⟩
  | settled => exact ⟨rfl, rfl⟩
  | begun => rw [reacted_eq]; exact ⟨rfl, rfl⟩
  | left => exact ⟨rfl, rfl⟩
  | unheard => exact ⟨rfl, rfl⟩
  | resumed => rw [reacted_eq]; exact ⟨rfl, rfl⟩

theorem Reaction.of_call {m m' : Machine} {b b' : Bridge σ} {g : Frame} {below : List Frame}
    {id : RoutineId} (h : Reaction (.call id g.id) m b m' b') (hframes : m.frames = g :: below) :
    match b.registry.intake id g.stack with
    | (.settled result notes spent, rest) =>
        m' = { m with frames := ({ g with stack := rest } : Frame).receive result :: below } ∧
          b' = b.taken id g.id result notes spent
    | (.begun routine s, rest) =>
        g.id < m.nextFrame ∧
        let x : Task σ := { id := b.nextTask, caller := g.id, routine, activity := .idle s }
        let tr := (b.registry.poll s).transcript b.futures.outcome? b.library b.nextTask g.id
          b.futures.cells.size
        let waits : Frame := { g with stack := rest, blocked := (tr.result? x).isNone }
        m' = (({ m with frames := waits :: below } : Machine).loadAll tr.programs).answer g.id
            (tr.result? x) ∧
          b' = ({ b with
            journal := b.journal.recordAll (startEvents b.registry id g.id)
            nextTask := b.nextTask + 1 } : Bridge σ).reacted [] x b.tasks tr m.nextFrame := by
  generalize hcall : Signal.call id g.id = signal at h
  cases h with
  | untold => cases hcall
  | left => cases hcall
  | unheard => cases hcall
  | resumed => cases hcall
  | settled hframes' hintake =>
      obtain ⟨rfl, -⟩ := Signal.call.inj hcall
      rw [hframes] at hframes'
      cases hframes'
      rw [hintake]
      exact ⟨rfl, rfl⟩
  | begun hframes' hintake hx htr _ hcaller =>
      obtain ⟨rfl, -⟩ := Signal.call.inj hcall
      rw [hframes] at hframes'
      cases hframes'
      subst hx htr
      rw [hintake]
      exact ⟨hcaller, rfl, rfl⟩

/-- The answer to the end of a frame that the first task in the list waits for. -/
theorem Reaction.of_heard {m m' : Machine} {b b' : Bridge σ} {t : Teardown} {y : Task σ}
    {post : List (Task σ)} (h : Reaction (.ended t) m b m' b') (htasks : b.tasks = y :: post)
    (hheard : b.futures.resumes y.id t.frame = true) :
    ∃ es s, y.activity = .idle s ∧ y.caller < m.nextFrame ∧
      let z : Task σ := { y with outstanding := y.outstanding - 1 }
      let tr := (b.registry.poll s).transcript (b.futures.resolved (t.frame - 2) t.outcome).outcome?
        b.library y.id y.caller b.futures.cells.size
      m' = (m.loadAll tr.programs).answer y.caller (tr.result? z) ∧
        b' = ((b.closed t (t.frame - 2) es).record (.resumed y.caller y.routine)).reacted [] z post
          tr m.nextFrame := by
  have hy : y ∈ b.tasks := htasks ▸ List.mem_cons_self
  cases h with
  | left hone =>
      have htwo := (FutureStore.resumes_iff.1 hheard).1
      rw [hone] at htwo
      exact absurd htwo (by decide)
  | unheard _ _ hsilent => exact absurd hheard (hsilent y hy)
  | @resumed _ _ _ es pre post' y' z s tr _ _ htasks' hidle _ hothers hz htr _ hcaller =>
      rw [htasks] at htasks'
      have hpre : pre = [] := by
        cases pre with
        | nil => rfl
        | cons x pre =>
            obtain ⟨rfl, -⟩ := List.cons.inj htasks'
            exact absurd hheard (hothers y List.mem_cons_self)
      subst hpre
      obtain ⟨rfl, rfl⟩ := List.cons.inj htasks'
      subst hz htr
      exact ⟨es, s, hidle, hcaller, rfl, rfl⟩

/-- How a step can end. -/
inductive Stepped (m : Machine) (b : Bridge σ) :
    Except (Halt HookError) Progress × Machine × Bridge σ → Prop where
  | done (hframes : m.frames = []) : Stepped m b (.ok .done, m, b)
  | refused {limit : Nat} (hlimit : m.limits.maxSteps = some limit)
      (hadvance : @Machine.advance HookError m = (.error (.stepLimit limit), m)) :
      Stepped m b (.error (.stepLimit limit), m, b)
  | counted {f : Frame} {below : List Frame} {s : Signal} {m₁ m' : Machine} {b' : Bridge σ}
      (hframes : m.frames = f :: below) (hadvanced : m.Advanced f below s m₁)
      (hadvance : @Machine.advance HookError m = (.ok s, m₁)) (hreaction : Reaction s m₁ b m' b') :
      Stepped m b (.ok .proceed, m', b')

namespace Aligned

variable {keep : σ → Prop} {m : Machine} {b : Bridge σ} {f : Frame} {below : List Frame}

/-- No frame stands above the current one that its caller could wait for. -/
theorem free_top (h : Aligned keep m b) (hframes : m.frames = f :: below) :
    ∀ x ∈ b.tasks, x.caller ≠ f.id := by
  intro x hx heq
  have hpos := h.waits x hx
  have hledger := h.ledger
  rw [hframes, List.map_cons] at hledger
  rw [hledger.outstanding x hx, List.countP_pos_iff] at hpos
  obtain ⟨id, hid, hresumes⟩ := hpos
  have hlt := hledger.above x hx id hid hresumes
  rw [heq] at hlt
  rcases List.mem_cons.1 hid with rfl | hid
  · exact Nat.lt_irrefl _ hlt
  · exact Nat.lt_asymm hlt (hledger.lt_top id hid)

/-- The current frame is never blocked. -/
theorem unblocked_top (h : Aligned keep m b) (hframes : m.frames = f :: below) :
    f.blocked = false := by
  refine Bool.eq_false_iff.2 fun hblocked => ?_
  obtain ⟨x, hx, heq⟩ := (h.blocked f (hframes ▸ List.mem_cons_self)).1 hblocked
  exact h.free_top hframes x hx heq

theorem ne_top (h : Aligned keep m b) (hframes : m.frames = f :: below) :
    ∀ g ∈ below, g.id ≠ f.id := by
  intro g hg
  have hledger := h.ledger
  rw [hframes, List.map_cons] at hledger
  exact Nat.ne_of_lt (hledger.lt_top g.id (List.mem_map_of_mem hg))

theorem continues (h : Aligned keep m b) (hframes : m.frames = f :: below) {m' : Machine}
    {g : Frame} (hid : g.id = f.id) (hblocked : g.blocked = f.blocked)
    (hframes' : m'.frames = g :: below) (hnext : m'.nextFrame = m.nextFrame)
    (hentry : m'.entry = m.entry) (hexit : m'.exit = m.exit) : Aligned keep m' b :=
  { h with
    ledger := by
      have hledger := h.ledger
      rw [hframes, List.map_cons] at hledger
      rw [hframes', List.map_cons, hid]
      exact hledger
    blocked := by
      have hall := h.blocked
      rw [hframes, List.forall_mem_cons] at hall
      rw [hframes', List.forall_mem_cons, hid, hblocked]
      exact hall
    next := hnext.trans h.next
    entry := hentry.trans h.entry
    exit := by
      have hold := h.exit
      rw [hframes] at hold
      rw [hframes', hexit]
      simpa using hold }

/-- Notes, journal entries and spent task numbers. -/
theorem taken (h : Aligned keep m b) (id : RoutineId) (caller : FrameId) (result : DispatchResult)
    (notes : List Note) (spent : Nat) : Aligned keep m (b.taken id caller result notes spent) :=
  { h with
    quiet := ⟨h.quiet.fatal, h.quiet.outbox, h.quiet.completions⟩
    ledger := h.ledger.spend spent }

theorem exit_none (h : Aligned keep m b) (hframes : m.frames = f :: below) : m.exit = none := by
  have hexit := h.exit
  rw [hframes] at hexit
  simpa using hexit

/-- Frames entered in the table were loaded, and their futures were created. -/
theorem entries_lt (h : Aligned keep m b) :
    ∀ e ∈ b.table.entries, e.1 < m.nextFrame ∧ e.2 < b.futures.cells.size := by
  rw [h.next]
  exact h.ledger.entries_lt

theorem lt_next (h : Aligned keep m b) (hframes : m.frames = f :: below) : f.id < m.nextFrame := by
  rw [h.next]
  exact (h.ledger.bounds f.id (by rw [hframes]; exact List.mem_cons_self)).2

theorem dispatch (h : Aligned keep m b) (hframes : m.frames = f :: below) (id : RoutineId) :
    ∃ m' b', Bridge.dispatch id f.id m b = (.ok (), m', b') ∧
      Reaction (.call id f.id) m b m' b' ∧ Aligned keep m' b' := by
  have hblocked := h.unblocked_top hframes
  have hbelow := h.ne_top hframes
  cases hintake : b.registry.intake id f.stack with
  | mk intake rest =>
      cases intake with
      | settled result notes spent =>
          obtain ⟨r, b', hcall, -, hrefused⟩ := call_settled hframes f.id hintake
          have hqueued : queued (.call id f.id) m b = [] := by
            rw [queued, hcall, ← outbox_refused b' id f.id r, hrefused]
            exact h.quiet.outbox
          refine ⟨_, _, dispatch_settled h.quiet hframes hbelow hintake,
            .settled hframes hintake hqueued, ?_⟩
          exact (h.taken id f.id result notes spent).continues hframes
            (g := ({ f with stack := rest } : Frame).receive result) (Frame.id_receive _ _)
            ((Frame.blocked_receive _ _).trans hblocked.symm) rfl rfl rfl rfl
      | begun routine s =>
          have hs := h.registry.keep_of_begun hintake
          have hpoll := h.registry.polls s hs
          have hnumbered : ∀ y ∈ b.tasks, y.id < b.nextTask := fun y hy =>
            (h.ledger.rests y hy).numbered
          have hqueued := congrArg (fun r => r.2.2.outbox)
            (call_begun h.registry hnumbered hframes hintake)
          simp only [outbox_driven, h.quiet.outbox, List.nil_append] at hqueued
          refine ⟨_, _, dispatch_begun h.quiet h.entries_lt h.registry hnumbered hframes hbelow
            hblocked hintake, .begun hframes hintake rfl rfl hqueued (h.lt_next hframes), ?_⟩
          have hledger := h.ledger
          rw [hframes, List.map_cons] at hledger
          refine reacted_aligned (m := { m with frames := _ :: below }) [] b.tasks h.registry
            h.nesting h.quiet.fatal ?_ h.waits ?_ ?_ h.next h.entry (h.exit_none hframes)
            fun _ => hpoll.keep_of_pending
          · rw [List.map_cons]
            exact hledger.enlist rfl List.mem_cons_self (h.free_top hframes)
              ⟨Nat.lt_succ_self _, ⟨s, rfl, hs⟩, rfl, rfl, rfl⟩ rfl
          · intro g hg hne
            rcases List.mem_cons.1 hg with rfl | hg
            · exact absurd rfl hne
            · exact h.blocked g (hframes ▸ List.mem_cons_of_mem _ hg)
          · intro hr g hg heq
            rcases List.mem_cons.1 hg with rfl | hg
            · simp [hr]
            · exact absurd heq (hbelow g hg)

section Invoked

variable (h : Aligned keep m b) (hframes : m.frames = f :: below) (htwo : 2 ≤ f.id)

include h hframes htwo

/-- The current frame, if it was invoked, is the newest entry of the table. -/
theorem table_top :
    b.table.entries = tabled (below.map (·.id)) ++ [(f.id, f.id - 2)] ∧
      ∀ e ∈ tabled (below.map (·.id)), e.1 < f.id := by
  have hledger := h.ledger
  rw [hframes, List.map_cons] at hledger
  refine ⟨by rw [hledger.entries, tabled_cons htwo], fun e he => ?_⟩
  obtain ⟨id, hid, -, rfl⟩ := mem_tabled.1 he
  exact hledger.lt_top id hid

theorem pending_top : (b.futures.get (f.id - 2)).outcome = none :=
  h.ledger.pending f.id (by rw [hframes]; exact List.mem_cons_self) htwo

/-- An invoked frame stands above the entry frame. -/
theorem below_ne_nil : below ≠ [] := by
  intro hnil
  have hone := h.ledger.entry (by rw [hframes]; exact List.cons_ne_nil _ _)
  rw [hframes, hnil, List.map_singleton, List.mem_singleton] at hone
  exact absurd htwo (hone ▸ by decide)

/-- The ledger once the current frame has ended. -/
theorem ledger_closed (o : Outcome) :
    Ledger keep (below.map (·.id)) (b.futures.resolved (f.id - 2) o) (tabled (below.map (·.id)))
      (b.tasks.map (Task.hear b.futures f.id)) b.nextTask := by
  have hledger := h.ledger
  rw [hframes, List.map_cons] at hledger
  exact hledger.close htwo (h.free_top hframes) o

/-- The end of an invoked frame does not give the run its outcome. -/
theorem exit_invoked {m₁ : Machine} {o : Outcome}
    (hexit₁ : m₁.exit = if m.entry = some f.id then some o else m.exit) : m₁.exit = none := by
  have hne : ¬some 1 = some f.id := fun heq => absurd htwo (Option.some.inj heq ▸ by decide)
  rw [hexit₁, h.entry, if_neg hne, h.exit_none hframes]

end Invoked

section Ended

variable (h : Aligned keep m b) (hframes : m.frames = f :: below) {t : Teardown}
  (ht : t.frame = f.id) {m₁ : Machine} (hframes₁ : m₁.frames = below)
  (hnext₁ : m₁.nextFrame = m.nextFrame) (hentry₁ : m₁.entry = m.entry)
  (hexit₁ : m₁.exit = if m.entry = some f.id then some t.outcome else m.exit)

include h hframes ht hframes₁ hnext₁ hentry₁ hexit₁

/-- The end of the entry frame leaves nothing behind. -/
theorem complete_entry (hone : f.id = 1) :
    ∃ m' b', Bridge.complete t m₁ b = (.ok (), m', b') ∧
      Reaction (.ended t) m₁ b m' b' ∧ Aligned keep m' b' := by
  have hledger := h.ledger
  rw [hframes, List.map_cons, hone] at hledger
  obtain ⟨hbelow, hentries, htasks⟩ := hledger.close_entry (hone ▸ h.free_top hframes)
  have habsent : ∀ e ∈ b.table.entries, e.1 ≠ t.frame := by
    rw [hentries]
    exact fun e he => absurd he List.not_mem_nil
  have hnil : m₁.frames = [] := hframes₁.trans (List.map_eq_nil_iff.1 hbelow)
  have hqueued : queued (.ended t) m₁ b = [] := by
    rw [queued, settled_unwaited habsent]
    exact h.quiet.outbox
  refine ⟨_, _, complete_unwaited h.quiet habsent m₁, .left (ht.trans hone) habsent hqueued, ?_⟩
  exact {
    registry := h.registry
    nesting := h.nesting
    quiet := ⟨h.quiet.fatal, h.quiet.outbox, h.quiet.completions⟩
    ledger := by
      rw [hnil]
      simp only [record, hentries, htasks]
      exact hledger.empty
    waits := h.waits
    blocked := by simp [hnil]
    next := hnext₁.trans h.next
    entry := hentry₁.trans h.entry
    exit := by simp [hexit₁, h.entry, hone, hnil] }

/-- The end of an invoked frame that the task `y` waits for resolves the frame's future and resumes
the task. -/
theorem complete_heard (htwo : 2 ≤ f.id) {y : Task σ} (hy : y ∈ b.tasks)
    (hresumes : b.futures.resumes y.id f.id = true) :
    ∃ m' b', Bridge.complete t m₁ b = (.ok (), m', b') ∧
      Reaction (.ended t) m₁ b m' b' ∧ Aligned keep m' b' := by
  obtain ⟨htable, hes⟩ := h.table_top hframes htwo
  have hpending := h.pending_top hframes htwo
  have hclosed := h.ledger_closed hframes htwo t.outcome
  have hexit := h.exit_invoked hframes htwo hexit₁
  have hfree := h.free_top hframes y hy
  have hledger := h.ledger
  have hblocked : ∀ g ∈ below, g.blocked = true ↔ ∃ x ∈ b.tasks, x.caller = g.id := fun g hg =>
    h.blocked g (hframes ▸ List.mem_cons_of_mem _ hg)
  obtain ⟨pre, post, htasks⟩ := List.append_of_mem hy
  have hrests := hledger.rests y hy
  obtain ⟨s, hidle, hs⟩ := hrests.idle
  rw [htasks] at hledger hclosed hblocked
  rw [← ht] at htable hes hpending hresumes hclosed htwo
  have hothers : ∀ z ∈ pre ++ post, b.futures.resumes z.id t.frame ≠ true := by
    intro z hz hz'
    have hsame := (FutureStore.resumes_iff.1 hz').2.symm.trans
      (FutureStore.resumes_iff.1 hresumes).2
    exact (hledger.only z hz).1 (Continuation.resume.inj (Option.some.inj hsame))
  have hold : y.caller ∈ m.frames.map (·.id) :=
    hledger.callers y (List.mem_append_right _ List.mem_cons_self)
  have hcaller : ∃ g ∈ m₁.frames, g.id = y.caller := by
    rw [hframes, List.map_cons] at hold
    rw [hframes₁]
    exact List.mem_map.1 ((List.mem_cons.1 hold).resolve_left hfree)
  have hcaller_lt : y.caller < m₁.nextFrame := by
    rw [hnext₁, h.next]
    exact (hledger.bounds _ hold).2
  have hlists : b.Lists pre y post := ⟨htasks, fun z hz => (hledger.only z hz).1⟩
  have hwaiting := (FutureStore.resumes_iff.1 hresumes).2
  have hqueued := congrArg (fun r => r.2.outbox) (settled_resumes htable hes hpending h.registry
    hlists hidle hs hrests.issued hrests.listed hrests.drives hwaiting h.nesting)
  simp only [outbox_driven, record, closed, FutureStore.size_resolved, h.quiet.outbox,
    List.nil_append] at hqueued
  refine ⟨_, _, complete_resumes htable hes hpending h.quiet h.registry hlists hidle hs
    hrests.issued hrests.listed hrests.drives hwaiting h.nesting ?_
    (Machine.hasFrame_iff.2 hcaller),
    .resumed htwo htable htasks hidle hresumes hothers rfl rfl hqueued hcaller_lt, ?_⟩
  · intro e he
    rw [hnext₁]
    exact h.entries_lt e (htable ▸ List.mem_append_left _ he)
  · refine reacted_aligned pre post h.registry h.nesting h.quiet.fatal ?_ ?_ ?_ ?_ ?_
      (hentry₁.trans h.entry) hexit fun _ => (h.registry.polls s hs).keep_of_pending
    · have hhear : (pre ++ y :: post).map (Task.hear b.futures t.frame) =
          pre ++ { y with outstanding := y.outstanding - 1 } :: post := by
        rw [List.map_append, List.map_cons,
          map_hear_eq fun z hz => hothers z (List.mem_append_left _ hz),
          map_hear_eq fun z hz => hothers z (List.mem_append_right _ hz), Task.hear,
          if_pos hresumes]
      rw [hhear] at hclosed
      rw [hframes₁]
      exact hclosed
    · have hwaits := h.waits
      rw [htasks, List.forall_mem_append, List.forall_mem_cons] at hwaits
      exact List.forall_mem_append.2 ⟨hwaits.1, hwaits.2.2⟩
    · intro g hg hne
      rw [hframes₁] at hg
      rw [hblocked g hg]
      simp only [List.mem_append, List.mem_cons]
      constructor
      · rintro ⟨z, hz | rfl | hz, heq⟩
        · exact ⟨z, .inl hz, heq⟩
        · exact absurd heq.symm hne
        · exact ⟨z, .inr hz, heq⟩
      · rintro ⟨z, hz, heq⟩
        exact ⟨z, hz.imp_right .inr, heq⟩
    · intro _ g hg heq
      rw [hframes₁] at hg
      exact (hblocked g hg).2 ⟨y, List.mem_append_right _ List.mem_cons_self, heq.symm⟩
    · rw [hnext₁, h.next]
      simp only [closed, record, FutureStore.size_resolved]

/-- The end of an invoked frame that no task waits for resolves the frame's future. -/
theorem complete_silent (htwo : 2 ≤ f.id)
    (hsilent : ∀ x ∈ b.tasks, b.futures.resumes x.id f.id ≠ true) :
    ∃ m' b', Bridge.complete t m₁ b = (.ok (), m', b') ∧
      Reaction (.ended t) m₁ b m' b' ∧ Aligned keep m' b' := by
  obtain ⟨htable, hes⟩ := h.table_top hframes htwo
  have hpending := h.pending_top hframes htwo
  have hclosed := h.ledger_closed hframes htwo t.outcome
  have hexit := h.exit_invoked hframes htwo hexit₁
  have hbelow := h.below_ne_nil hframes htwo
  rw [map_hear_eq hsilent] at hclosed
  rw [← ht] at htable hes hpending hsilent hclosed htwo
  have hwaiting : ∀ k, (b.futures.get (t.frame - 2)).waiting = some k →
      ∃ id, k = .resume id ∧ ∀ y ∈ b.tasks, y.id ≠ id := by
    intro k hk
    obtain ⟨id, -, rfl⟩ := h.ledger.waiting _ k hk
    exact ⟨id, rfl, fun y hy heq =>
      hsilent y hy (FutureStore.resumes_iff.2 ⟨htwo, heq ▸ hk⟩)⟩
  have hqueued : queued (.ended t) m₁ b = [] := by
    rw [queued, settled_unheard htable hes hpending hwaiting h.nesting]
    exact h.quiet.outbox
  refine ⟨_, _, complete_unheard htable hes hpending h.quiet hwaiting h.nesting m₁,
    .unheard htwo htable hsilent hqueued, ?_⟩
  exact {
    registry := h.registry
    nesting := h.nesting
    quiet := ⟨h.quiet.fatal, h.quiet.outbox, h.quiet.completions⟩
    ledger := by
      rw [hframes₁]
      exact hclosed
    waits := h.waits
    blocked := by
      rw [hframes₁]
      exact fun g hg => h.blocked g (hframes ▸ List.mem_cons_of_mem _ hg)
    next := by
      rw [hnext₁, h.next]
      simp only [closed, FutureStore.size_resolved]
    entry := hentry₁.trans h.entry
    exit := by simp [hexit, hframes₁, hbelow] }

theorem complete :
    ∃ m' b', Bridge.complete t m₁ b = (.ok (), m', b') ∧
      Reaction (.ended t) m₁ b m' b' ∧ Aligned keep m' b' := by
  have hbounds := h.ledger.bounds f.id (by rw [hframes]; exact List.mem_cons_self)
  rcases Nat.lt_or_eq_of_le hbounds.1 with htwo | hone
  · by_cases hheard : ∃ y ∈ b.tasks, b.futures.resumes y.id f.id = true
    · obtain ⟨y, hy, hresumes⟩ := hheard
      exact h.complete_heard hframes ht hframes₁ hnext₁ hentry₁ hexit₁ htwo hy hresumes
    · exact h.complete_silent hframes ht hframes₁ hnext₁ hentry₁ hexit₁ htwo
        fun x hx hresumes => hheard ⟨x, hx, hresumes⟩
  · exact h.complete_entry hframes ht hframes₁ hnext₁ hentry₁ hexit₁ hone.symm

end Ended

/-- The bridge's reaction to what the machine's part of a step ended in. -/
theorem reacts (h : Aligned keep m b) (hframes : m.frames = f :: below) {s : Signal} {m₁ : Machine}
    (hadvanced : m.Advanced f below s m₁) (hadvance : @Machine.advance HookError m = (.ok s, m₁)) :
    ∃ m' b', m.step host b = (.ok .proceed, m', b') ∧ Reaction s m₁ b m' b' ∧
      Aligned keep m' b' := by
  rw [Machine.step, hadvance]
  cases hadvanced with
  | proceed hid hblocked logged =>
      exact ⟨_, b, rfl, .untold, h.continues hframes hid hblocked rfl rfl rfl rfl⟩
  | @call g hid hblocked routine =>
      have hcalled : Aligned keep { m with steps := m.steps + 1, frames := g :: below } b :=
        h.continues hframes hid hblocked rfl rfl rfl rfl
      obtain ⟨m', b', hdispatch, hreaction, haligned⟩ := hcalled.dispatch rfl routine
      refine ⟨m', b', ?_, hreaction, haligned⟩
      simp only [Machine.call, host, hdispatch, Machine.atSite]
  | ended fault stack =>
      let m₁ : Machine := { m with
        steps := m.steps + 1
        frames := below
        lastFault := fault.or m.lastFault
        exit := if m.entry = some f.id then some (Teardown.outcome ⟨f.id, fault, stack⟩)
          else m.exit }
      have hframes₁ : m₁.frames = below := rfl
      obtain ⟨m', b', hcomplete, hreaction, haligned⟩ :=
        h.complete hframes (t := ⟨f.id, fault, stack⟩) rfl hframes₁ rfl rfl rfl
      refine ⟨m', b', ?_, hreaction, haligned⟩
      simp only [m₁] at hcomplete
      simp only [Machine.report, host, hcomplete, Machine.atSite]

/-- A step is as described, and what it leaves is aligned again. -/
theorem step (h : Aligned keep m b) :
    Stepped m b (m.step host b) ∧ Aligned keep (m.step host b).2.1 (m.step host b).2.2 := by
  cases hframes : m.frames with
  | nil =>
      have hstep : m.step host b = (.ok .done, m, b) := by
        rw [Machine.step, Machine.advance, hframes]
      rw [hstep]
      exact ⟨.done hframes, h⟩
  | cons f below =>
      rcases @Machine.advance_cases HookError m f below hframes (h.unblocked_top hframes) with
        ⟨limit, hlimit, hadvance⟩ | ⟨s, m₁, hadvanced, hadvance⟩
      · have hstep : m.step host b = (.error (.stepLimit limit), m, b) := by
          rw [Machine.step, hadvance]
        rw [hstep]
        exact ⟨.refused hlimit hadvance, h⟩
      · obtain ⟨m', b', hstep, hreaction, haligned⟩ := h.reacts hframes hadvanced hadvance
        rw [hstep]
        exact ⟨.counted hframes hadvanced hadvance hreaction, haligned⟩

end Aligned

end Bridge

end Reentrant
