import Reentrant.Proofs.LaunchedRun

/-!
What a calling frame sees of its native call. As long as the routine waits, the caller stands blocked
and everything that happens happens to the frames above it; these serve the caller or one another,
never a frame further down. When the routine is over, its result reaches the caller, once. So the
caller goes on as if the routine had returned at once.
-/

namespace Reentrant

variable {σ : Type}

/-! ### Verdicts -/

namespace Bridge

/-- What the routine that is polled in reaction to a signal comes to, and the frame that called it; a
routine that goes on waiting comes to nothing yet. -/
def verdict : Signal → Machine → Bridge σ → Option Completion
  | .call id caller, m, b =>
      match (b.registry.intake id ((m.frames.head?.map (·.stack)).getD [])).1 with
      | .settled result _ _ => some ⟨caller, result⟩
      | .begun routine s =>
          let tr := (b.registry.poll s).transcript b.futures.outcome? b.library b.nextTask caller
            b.futures.cells.size
          (tr.result? { id := b.nextTask, caller, routine, activity := .idle s }).map (⟨caller, ·⟩)
  | .ended t, _, b =>
      match b.tasks.find? fun x => b.futures.resumes x.id t.frame with
      | some x =>
          match x.activity with
          | .idle s =>
              let tr := (b.registry.poll s).transcript
                (b.futures.resolved (t.frame - 2) t.outcome).outcome? b.library x.id x.caller
                b.futures.cells.size
              (tr.result? { x with outstanding := x.outstanding - 1 }).map (⟨x.caller, ·⟩)
          | _ => none
      | none => none
  | _, _, _ => none

/-- The result that the next step brings to the frame `id`, if it brings one. -/
def brings (m : Machine) (b : Bridge σ) (id : FrameId) : Option DispatchResult :=
  match @Machine.advance HookError m with
  | (.ok s, m) => ((verdict s m b).filter (·.caller = id)).map (·.result)
  | _ => none

end Bridge

namespace Launch

/-- The result that the step after `n` steps brings to the frame `id`, if it brings one. -/
def brings (c : Launch σ) (n : Nat) (id : FrameId) : Option DispatchResult :=
  Bridge.brings (c.after n).1 (c.after n).2 id

end Launch

/-! ### What a reaction does to the frames -/

/-- The frame once a verdict, if there is one, has been brought to its caller. -/
def Frame.told (v : Option Completion) (f : Frame) : Frame :=
  match v with
  | none => f
  | some q => f.answered q.caller (some q.result)

theorem Frame.told_map (caller : FrameId) (r : Option DispatchResult) (f : Frame) :
    f.told (r.map (Completion.mk caller)) = f.answered caller r := by
  cases r <;> rfl

@[simp] theorem Frame.id_told (v : Option Completion) (f : Frame) : (f.told v).id = f.id := by
  cases v with
  | none => rfl
  | some q => exact f.id_answered _ _

theorem Frame.told_of_ne {v : Option Completion} {f : Frame} (h : ∀ q, v = some q → q.caller ≠ f.id) :
    f.told v = f := by
  cases v with
  | none => rfl
  | some q => exact if_neg fun hid => h q rfl hid.symm

theorem Frame.told_eq (v : Option Completion) (f : Frame) :
    f.told v = f.answered f.id ((v.filter (·.caller = f.id)).map (·.result)) := by
  cases v with
  | none => rfl
  | some q =>
      by_cases hq : q.caller = f.id
      · simp [Frame.told, Frame.answered, Option.filter, hq]
      · rw [Frame.told_of_ne fun p hp heq => hq (by cases hp; exact heq)]
        simp [Frame.answered, Option.filter, hq]

/-- The calling frame: it has the result of its native call, or waits for it. -/
def Frame.served (f : Frame) : Option DispatchResult → Frame
  | none => { f with blocked := true }
  | some r => f.receive r

@[simp] theorem Frame.id_served (f : Frame) (v : Option DispatchResult) : (f.served v).id = f.id := by
  cases v with
  | none => rfl
  | some r => exact f.id_receive r

/-- The result finds the frame as it called. -/
theorem Frame.served_of_waits (f : Frame) (blocked : Bool) (r : DispatchResult) :
    ({ f with blocked } : Frame).answered f.id (some r) = f.served (some r) := by
  simp only [answered, if_true, served]
  cases r <;> rfl

namespace Bridge.Reaction

variable {s : Signal} {m m' : Machine} {b b' : Bridge σ}

/-- A native call loads frames above the calling frame, which has its result or waits for it. -/
theorem frames_called {f : Frame} {below : List Frame} {id : RoutineId}
    (h : Reaction (.call id f.id) m b m' b') (hframes : m.frames = f :: below)
    (hbelow : ∀ g ∈ below, g.id ≠ f.id) :
    ∃ fresh, m'.frames = fresh ++
        ({ f with stack := (b.registry.intake id f.stack).2 } : Frame).served
          ((verdict (.call id f.id) m b).map (·.result)) :: below ∧
      ∀ g ∈ fresh, m.nextFrame ≤ g.id := by
  have hcall := h.of_call hframes
  simp only [verdict, hframes, List.head?_cons, Option.map_some, Option.getD_some]
  generalize b.registry.intake id f.stack = intake at hcall ⊢
  obtain ⟨intake, rest⟩ := intake
  cases intake with
  | settled result notes spent =>
      obtain ⟨rfl, -⟩ := hcall
      exact ⟨[], rfl, by simp⟩
  | begun routine s =>
      obtain ⟨hlt, rfl, -⟩ := hcall
      rw [Option.map_map]
      dsimp only
      generalize ((b.registry.poll s).transcript b.futures.outcome? b.library b.nextTask f.id
        b.futures.cells.size) = tr at hlt ⊢
      rw [Machine.loadAll_answer _ _ (by exact hlt), List.map_cons, map_answered_of_ne hbelow]
      refine ⟨_, congrArg (_ ++ · :: below) ?_, fun g hg => (Limits.id_mem_freshAll hg).1⟩
      cases tr.result? { id := b.nextTask, caller := f.id, routine, activity := .idle s } with
      | none => rfl
      | some r => exact Frame.served_of_waits { f with stack := rest } false r

theorem frames_ended {t : Teardown} (h : Reaction (.ended t) m b m' b') :
    ∃ fresh, m'.frames = fresh ++ m.frames.map (Frame.told (verdict (.ended t) m b)) ∧
      ∀ g ∈ fresh, m.nextFrame ≤ g.id := by
  have huntold : m.frames = [] ++ m.frames.map (Frame.told none) := (List.map_id' _).symm
  cases h with
  | left hframe habsent =>
      simp only [verdict, find?_entry hframe]
      exact ⟨[], huntold, by simp⟩
  | unheard hframe htable hsilent =>
      simp only [verdict, List.find?_eq_none.2 hsilent]
      exact ⟨[], huntold, by simp⟩
  | @resumed _ _ _ es pre post y z s tr hframe htable htasks hidle hresumes hothers hz htr hqueued
      hcaller =>
      subst hz htr
      simp only [verdict, find?_resumed htasks hresumes hothers, hidle]
      rw [Machine.loadAll_answer _ _ hcaller]
      exact ⟨_, congrArg _ (List.map_congr_left fun g _ => (Frame.told_map y.caller _ g).symm),
        fun g hg => (Limits.id_mem_freshAll hg).1⟩

end Bridge.Reaction

/-! ### Frames that serve a frame below -/

/-- Whoever waits for a frame above `id` is the frame `id` or stands above it, too. -/
def Shields (id : FrameId) (ids : List FrameId) (futures : FutureStore Continuation)
    (tasks : List (Task σ)) : Prop :=
  ∀ x ∈ tasks, ∀ above ∈ ids, id < above → futures.resumes x.id above = true → id ≤ x.caller

/-- A poll of a task whose caller is the frame `id` or stands above it. -/
theorem Shields.reacted {id : FrameId} {ids : List FrameId} {futures : FutureStore Continuation}
    {pre post : List (Task σ)} {x : Task σ} (h : Shields id ids futures (pre ++ post))
    (hids : ∀ above ∈ ids, above < futures.cells.size + 2) (hne : ∀ y ∈ pre ++ post, y.id ≠ x.id)
    (hcaller : id ≤ x.caller) (tr : Transcript σ) (l : Limits) (depth : Nat) :
    Shields id ((l.freshAll (futures.cells.size + 2) depth tr.programs).map (·.id) ++ ids)
      (futures.extend tr.programs.length (tr.cell x.id)) (tr.remaining pre x post) := by
  intro y hy above habove hlt hresumes
  have hwho : y ∈ pre ++ post ∨ y.caller = x.caller := by
    rw [Transcript.remaining] at hy
    cases hr : tr.result? x with
    | some r =>
        rw [hr] at hy
        exact .inl hy
    | none =>
        rw [hr, List.mem_append, List.mem_cons] at hy
        rcases hy with hy | rfl | hy
        · exact .inl (List.mem_append_left _ hy)
        · exact .inr rfl
        · exact .inl (List.mem_append_right _ hy)
  rcases hwho with hy | heq
  · rcases List.mem_append.1 habove with hnew | hold
    · -- the end of a new frame resumes the polled task only
      obtain ⟨g, hg, rfl⟩ := List.mem_map.1 hnew
      obtain ⟨hge, hbound⟩ := Limits.id_mem_freshAll hg
      have hcell := (FutureStore.resumes_iff.1 hresumes).2
      rw [FutureStore.get_extend_of_ge _ _ _ (Nat.le_sub_of_add_le hge) (by grind)] at hcell
      exact absurd (Continuation.resume.inj (Transcript.waiting_cell hcell)) (hne y hy)
    · rw [FutureStore.resumes_extend_of_lt _ _ _ _ (hids above hold)] at hresumes
      exact h y hy above hold hlt hresumes
  · rw [heq]
    exact hcaller

namespace Bridge

/-- The frame `g` stands on `below`, and the frames above it serve it or one another. -/
structure Stands (g : Frame) (below : List Frame) (m : Machine) (b : Bridge σ) : Prop where
  frames : ∃ above, m.frames = above ++ g :: below ∧ ∀ a ∈ above, g.id < a.id
  shields : Shields g.id (m.frames.map (·.id)) b.futures b.tasks

variable {keep : σ → Prop} {m m' : Machine} {b b' : Bridge σ}

theorem Reaction.shields_called {f : Frame} {below : List Frame} {routine : RoutineId}
    (h : Reaction (.call routine f.id) m b m' b') (hframes : m.frames = f :: below)
    (haligned : Aligned keep m b) {id : FrameId} (hid : id ≤ f.id)
    (hs : Shields id (m.frames.map (·.id)) b.futures b.tasks) :
    Shields id (m'.frames.map (·.id)) b'.futures b'.tasks := by
  have hcall := h.of_call hframes
  generalize b.registry.intake routine f.stack = intake at hcall
  obtain ⟨intake, rest⟩ := intake
  cases intake with
  | settled result notes spent =>
      obtain ⟨rfl, rfl⟩ := hcall
      rw [hframes] at hs
      simpa only [List.map_cons, Frame.id_receive, taken] using hs
  | begun name s =>
      obtain ⟨hlt, rfl, rfl⟩ := hcall
      have hnumbered : ∀ y ∈ [] ++ b.tasks, y.id ≠ b.nextTask := fun y hy =>
        Nat.ne_of_lt (haligned.ledger.rests y hy).numbered
      rw [Machine.loadAll_answer _ _ (by exact hlt), reacted_eq, List.map_append, ids_answered,
        haligned.next]
      rw [hframes] at hs
      have hids := fun above habove => (haligned.ledger.bounds above habove).2
      rw [hframes] at hids
      let x : Task σ := { id := b.nextTask, caller := f.id, routine := name, activity := .idle s }
      replace hs : Shields _ _ _ ([] ++ b.tasks) := hs
      exact Shields.reacted (x := x) hs hids hnumbered hid _ m.limits _

theorem Reaction.shields_ended {t : Teardown} (h : Reaction (.ended t) m b m' b')
    (hnext : m.nextFrame = b.futures.cells.size + 2)
    (hids : ∀ above ∈ m.frames.map (·.id), above < m.nextFrame ∧ above ≠ t.frame)
    (hdistinct : b.tasks.Pairwise fun x y => x.id ≠ y.id ∧ x.caller ≠ y.caller) {id : FrameId}
    (hid : 1 ≤ id) (hlt : id < t.frame)
    (hs : Shields id (t.frame :: m.frames.map (·.id)) b.futures b.tasks) :
    Shields id (m'.frames.map (·.id)) b'.futures b'.tasks := by
  have hbelow : Shields id (m.frames.map (·.id)) b.futures b.tasks := fun x hx above habove =>
    hs x hx above (List.mem_cons_of_mem _ habove)
  have hclosed : 2 ≤ t.frame → Shields id (m.frames.map (·.id))
      (b.futures.resolved (t.frame - 2) t.outcome) b.tasks := by
    intro htwo x hx above habove habove_lt hresumes
    rw [FutureStore.resumes_resolved_of_ne _ htwo (hids above habove).2] at hresumes
    exact hbelow x hx above habove habove_lt hresumes
  cases h with
  | left hone => exact absurd hlt (by rw [hone]; exact Nat.not_lt.2 hid)
  | unheard htwo => exact hclosed htwo
  | @resumed _ _ _ es pre post y z s tr htwo htable htasks hidle hresumes hothers hz htr hqueued
      hcaller =>
      subst hz
      have hy := hs y (htasks ▸ List.mem_append_right _ List.mem_cons_self) t.frame List.mem_cons_self
        hlt hresumes
      have honly := Task.only_of_distinct (htasks ▸ hdistinct)
      have hothers : Shields id (m.frames.map (·.id))
          (b.futures.resolved (t.frame - 2) t.outcome) (pre ++ post) := by
        intro x hx
        refine hclosed htwo x (htasks ▸ List.mem_append.2 ?_)
        exact (List.mem_append.1 hx).imp_right (List.mem_cons_of_mem _)
      have hsize := FutureStore.size_resolved b.futures (t.frame - 2) t.outcome
      rw [Machine.loadAll_answer _ _ hcaller, reacted_eq, List.map_append, ids_answered, hnext,
        ← hsize]
      refine hothers.reacted (x := { y with outstanding := y.outstanding - 1 }) ?_
        (fun x hx => (honly x hx).1) hy tr m.limits _
      intro above habove
      rw [hsize, ← hnext]
      exact (hids above habove).1

/-! ### A frame that is not the current one -/

/-- The verdict on a native call is for the frame that makes it. -/
theorem caller_of_verdict {routine : RoutineId} {caller : FrameId} {q : Completion}
    (h : verdict (.call routine caller) m b = some q) : q.caller = caller := by
  simp only [verdict] at h
  split at h
  · cases h
    rfl
  · obtain ⟨r, -, rfl⟩ := Option.map_eq_some_iff.1 h
    rfl

/-- Once a frame has ended, the verdict is for the caller of the task that waited for it. -/
theorem waiting_of_verdict {t : Teardown} {q : Completion} (h : verdict (.ended t) m b = some q) :
    ∃ x ∈ b.tasks, b.futures.resumes x.id t.frame = true ∧ x.caller = q.caller := by
  simp only [verdict] at h
  split at h
  · next x hfind =>
      split at h
      · obtain ⟨r, -, rfl⟩ := Option.map_eq_some_iff.1 h
        exact ⟨x, List.mem_of_find?_eq_some hfind, by simpa using List.find?_some hfind, rfl⟩
      · cases h
  · cases h

namespace Stands

variable {f g : Frame} {above below : List Frame}

/-- What is changed of the current frame does not matter, as long as it keeps its number. -/
theorem continues (hs : Stands g below m b) (hframes : m.frames = f :: (above ++ g :: below))
    (habove : ∀ a ∈ f :: above, g.id < a.id) {f' : Frame} (hid : f'.id = f.id)
    (hframes' : m'.frames = f' :: (above ++ g :: below)) : Stands g below m' b := by
  refine ⟨⟨f' :: above, hframes', ?_⟩, ?_⟩
  · rw [List.forall_mem_cons, hid]
    exact List.forall_mem_cons.1 habove
  · have hshields := hs.shields
    rw [hframes, List.map_cons] at hshields
    rw [hframes', List.map_cons, hid]
    exact hshields

theorem called (hs : Stands g below m b) (h : Aligned keep m b)
    (hframes : m.frames = f :: (above ++ g :: below)) (habove : ∀ a ∈ f :: above, g.id < a.id)
    {routine : RoutineId} (hreaction : Reaction (.call routine f.id) m b m' b') :
    Stands g below m' b' := by
  obtain ⟨fresh, hframes', hfresh⟩ := hreaction.frames_called hframes (h.ne_top hframes)
  have hlt : g.id < f.id := habove f List.mem_cons_self
  refine ⟨⟨_, by rw [hframes', ← List.cons_append, ← List.append_assoc], ?_⟩,
    hreaction.shields_called hframes h (Nat.le_of_lt hlt) hs.shields⟩
  rw [List.forall_mem_append, List.forall_mem_cons, Frame.id_served]
  refine ⟨fun a ha => ?_, List.forall_mem_cons.1 habove⟩
  calc
    g.id < f.id := hlt
    _ < m.nextFrame := h.lt_next hframes
    _ ≤ a.id := hfresh a ha

theorem ended (hs : Stands g below m b) (h : Aligned keep m b)
    (hframes : m.frames = f :: (above ++ g :: below)) (habove : ∀ a ∈ f :: above, g.id < a.id)
    {t : Teardown} (ht : t.frame = f.id) {m₁ : Machine} (hframes₁ : m₁.frames = above ++ g :: below)
    (hnext₁ : m₁.nextFrame = m.nextFrame) (hreaction : Reaction (.ended t) m₁ b m' b') :
    Stands (g.told (verdict (.ended t) m₁ b)) below m' b' := by
  have hshields := hs.shields
  have hbounds := h.ledger.bounds
  have hdescending := h.ledger.descending
  rw [hframes, List.map_cons, ← ht] at hshields hbounds hdescending
  rw [List.pairwise_cons] at hdescending
  have hlt : g.id < t.frame := ht ▸ habove f List.mem_cons_self
  have hpos := (hbounds g.id (by simp)).1
  have hbelow : below.map (Frame.told (verdict (.ended t) m₁ b)) = below := by
    have hordered := hdescending.2
    rw [List.map_append, List.map_cons, List.pairwise_append, List.pairwise_cons] at hordered
    refine (List.map_congr_left fun d hd => ?_).trans (List.map_id' _)
    refine Frame.told_of_ne fun q hq heq => ?_
    obtain ⟨x, hx, hresumes, hcaller⟩ := waiting_of_verdict hq
    have hle : g.id ≤ x.caller := hshields x hx t.frame List.mem_cons_self hlt hresumes
    have hgt : d.id < g.id := hordered.2.1.1 d.id (List.mem_map_of_mem hd)
    rw [hcaller, heq] at hle
    exact Nat.not_lt.2 hle hgt
  obtain ⟨fresh, hframes', hfresh⟩ := hreaction.frames_ended
  rw [hframes₁, List.map_append, List.map_cons, hbelow] at hframes'
  refine ⟨⟨fresh ++ above.map (Frame.told (verdict (.ended t) m₁ b)),
    by rw [hframes', List.append_assoc], ?_⟩, ?_⟩
  · rw [Frame.id_told, List.forall_mem_append, List.forall_mem_map]
    refine ⟨fun a ha => ?_, fun a ha => ?_⟩
    · calc
        g.id < t.frame := hlt
        _ < m.nextFrame := ht ▸ h.lt_next hframes
        _ ≤ a.id := hnext₁ ▸ hfresh a ha
    · rw [Frame.id_told]
      exact habove a (List.mem_cons_of_mem _ ha)
  · rw [Frame.id_told]
    refine hreaction.shields_ended (hnext₁.trans h.next) ?_
      h.ledger.distinct hpos hlt (by rw [hframes₁]; exact hshields)
    rw [hframes₁, hnext₁, h.next]
    exact fun a ha => ⟨(hbounds a (List.mem_cons_of_mem _ ha)).2,
      Nat.ne_of_lt (hdescending.1 a ha)⟩

/-- A frame that is not the current one is changed by a step only through the result that the step
brings to it, and the frames below it are not changed at all. -/
theorem step (hs : Stands g below m b) (h : Aligned keep m b) (htop : m.current ≠ some g.id)
    {r : Except (Halt HookError) Progress} (hstep : Stepped m b (r, m', b')) :
    Stands (g.answered g.id (brings m b g.id)) below m' b' := by
  obtain ⟨above, hframes, habove⟩ := hs.frames
  obtain ⟨top, above, rfl⟩ : ∃ top rest, above = top :: rest := by
    cases above with
    | nil => exact absurd (by rw [Machine.current, hframes]; rfl) htop
    | cons top rest => exact ⟨top, rest, rfl⟩
  cases hstep with
  | done hnil =>
      rw [hframes] at hnil
      cases hnil
  | refused hlimit hadvance =>
      rw [brings, hadvance]
      exact hs
  | @counted f _ s m₁ _ _ hframes' hadvanced hadvance hreaction =>
      obtain ⟨rfl, rfl⟩ := List.cons.inj (hframes'.symm.trans hframes)
      rw [brings, hadvance]
      cases hadvanced with
      | proceed hid hblocked logged =>
          cases hreaction
          exact hs.continues hframes habove hid rfl
      | @call f' hid hblocked routine =>
          have hcalled : Aligned keep
              { m with steps := m.steps + 1, frames := f' :: (above ++ g :: below) } b :=
            h.continues hframes hid hblocked rfl rfl rfl rfl
          have hother : (verdict (.call routine f'.id)
              { m with steps := m.steps + 1, frames := f' :: (above ++ g :: below) } b).filter
              (·.caller = g.id) = none := by
            refine Option.filter_eq_none_iff.2 fun q hq => ?_
            rw [caller_of_verdict hq, hid]
            simpa using Nat.ne_of_gt (habove f List.mem_cons_self)
          have habove' : ∀ a ∈ f' :: above, g.id < a.id := by
            rw [List.forall_mem_cons, hid]
            exact List.forall_mem_cons.1 habove
          simp only [List.append_eq] at hreaction hadvance ⊢
          simp only [hother]
          exact (hs.continues hframes habove hid rfl).called hcalled rfl habove' hreaction
      | ended fault stack =>
          rw [← Frame.told_eq]
          exact hs.ended h hframes habove rfl rfl rfl hreaction

/-- Right after its native call a frame has its result, or waits for it with its operands gone. -/
theorem of_call (h : Aligned keep m b) (hframes : m.frames = f :: below) {routine : RoutineId}
    (hreaction : Reaction (.call routine f.id) m b m' b') :
    Stands (({ f with stack := (b.registry.intake routine f.stack).2 } : Frame).served
      ((verdict (.call routine f.id) m b).map (·.result))) below m' b' := by
  obtain ⟨fresh, hframes', hfresh⟩ := hreaction.frames_called hframes (h.ne_top hframes)
  have hlt := h.lt_next hframes
  -- there is no frame above the current one that anybody could wait for
  have hshields : Shields f.id (m.frames.map (·.id)) b.futures b.tasks := by
    have hledger := h.ledger
    rw [hframes, List.map_cons] at hledger ⊢
    intro x _ above habove hgt
    rcases List.mem_cons.1 habove with rfl | habove
    · exact absurd hgt (Nat.lt_irrefl _)
    · exact absurd hgt (Nat.not_lt_of_gt (hledger.lt_top above habove))
  refine ⟨⟨fresh, hframes', fun a ha => ?_⟩, ?_⟩
  · rw [Frame.id_served]
    exact Nat.lt_of_lt_of_le hlt (hfresh a ha)
  · rw [Frame.id_served]
    exact hreaction.shields_called hframes h (Nat.le_refl _) hshields

end Stands

/-- A result comes only to a frame that is blocked, unless the frame is the current one. -/
theorem Aligned.blocked_of_brings (h : Aligned keep m b) {g : Frame} (hg : g ∈ m.frames)
    (htop : m.current ≠ some g.id) {r : DispatchResult} (hbrings : brings m b g.id = some r) :
    g.blocked = true := by
  rw [h.blocked g hg]
  unfold brings at hbrings
  split at hbrings
  · next s m₁ hadvance =>
      obtain ⟨q, hq, -⟩ := Option.map_eq_some_iff.1 hbrings
      obtain ⟨hverdict, hcaller⟩ := Option.filter_eq_some_iff.1 hq
      have hcaller : q.caller = g.id := by simpa using hcaller
      cases hframes : m.frames with
      | nil =>
          rw [hframes] at hg
          cases hg
      | cons f below =>
          rcases @Machine.advance_cases HookError m f below hframes (h.unblocked_top hframes) with
            ⟨limit, -, hrefused⟩ | ⟨s', m', hadvanced, hadvance'⟩
          · rw [hadvance] at hrefused
            cases hrefused
          · rw [hadvance] at hadvance'
            cases hadvance'
            cases hadvanced with
            | proceed => cases hverdict
            | call hid =>
                rw [caller_of_verdict hverdict, hid] at hcaller
                rw [Machine.current, hframes] at htop
                exact absurd (congrArg some hcaller) htop
            | ended =>
                obtain ⟨x, hx, -, heq⟩ := waiting_of_verdict hverdict
                exact ⟨x, hx, heq.trans hcaller⟩
  · cases hbrings

end Bridge

/-! ### Routines that return at once -/

/-- The same signature for a synchronous routine that returns the result at once. -/
def Routine.instant (r : Routine σ) (result : DispatchResult) : Routine σ :=
  { r with body := .sync fun _ => ([], .ok result) }

/-- The registry with the routine `id` replaced by one that returns at once. -/
def Registry.withInstant (g : Registry σ) (id : RoutineId) (result : DispatchResult) : Registry σ :=
  { g with routines := g.routines.map fun r => if r.id = id then r.instant result else r }

theorem Registry.get?_withInstant (g : Registry σ) (id : RoutineId) (result : DispatchResult) :
    (g.withInstant id result).get? id = (g.get? id).map (·.instant result) := by
  have hid : ((·.id == id) ∘ fun r : Routine σ => if r.id = id then r.instant result else r) =
      (·.id == id) := by
    funext r
    by_cases h : r.id = id <;> simp [Routine.instant, h]
  rw [get?, withInstant, List.find?_map, hid, get?]
  cases hfind : g.routines.find? (·.id == id) with
  | none => rfl
  | some r =>
      have heq : r.id = id := by simpa using List.find?_some hfind
      rw [Option.map_some, Option.map_some, if_pos heq]

theorem Registry.KeepsTo.withInstant {g : Registry σ} {keep : σ → Prop} (h : g.KeepsTo keep)
    (id : RoutineId) (result : DispatchResult) : (g.withInstant id result).KeepsTo keep where
  starts r hr start hbody xs := by
    obtain ⟨q, hq, heq⟩ := List.mem_map.1 hr
    split at heq
    · subst heq
      cases hbody
    · subst heq
      exact h.starts q hq start hbody xs
  polls := h.polls

namespace Bridge

variable {keep : σ → Prop} {m m' : Machine} {b b' : Bridge σ} {f : Frame} {below : List Frame}

/-- The bridge with the routine `id` replaced by one that returns at once. -/
def withInstant (b : Bridge σ) (id : RoutineId) (result : DispatchResult) : Bridge σ :=
  { b with registry := b.registry.withInstant id result }

theorem Aligned.withInstant (h : Aligned keep m b) (id : RoutineId) (result : DispatchResult) :
    Aligned keep m (b.withInstant id result) :=
  { h with
    registry := h.registry.withInstant id result
    quiet := ⟨h.quiet.fatal, h.quiet.outbox, h.quiet.completions⟩ }

/-- Operands that are there and convert. -/
structure Accepts (g : Registry σ) (id : RoutineId) (stack : List Value) (r : Routine σ) : Prop where
  found : g.get? id = some r
  present : r.arity ≤ stack.length
  convert : ∃ xs, Arguments.read r.params (stack.take r.arity).reverse = .ok xs

/-- A routine that accepts its operands takes them off the stack. -/
theorem Accepts.rest_eq {g : Registry σ} {id : RoutineId} {stack : List Value} {r : Routine σ}
    (h : Accepts g id stack r) : (g.intake id stack).2 = stack.drop r.arity := by
  rw [Registry.intake, h.found]
  simp only [if_neg (Nat.not_lt.2 h.present)]

theorem Accepts.intake_withInstant {g : Registry σ} {id : RoutineId} {stack : List Value}
    {r : Routine σ} (h : Accepts g id stack r) (result : DispatchResult) :
    (g.withInstant id result).intake id stack =
      (.settled result [] 0, stack.drop r.arity) := by
  obtain ⟨xs, hxs⟩ := h.convert
  have harity : (r.instant result).arity = r.arity := rfl
  rw [Registry.intake, Registry.get?_withInstant, h.found]
  simp only [Option.map_some, harity, if_neg (Nat.not_lt.2 h.present), Routine.intake]
  simp only [Routine.instant, hxs, deliverable]

theorem Aligned.step_instant (h : Aligned keep m b) (hframes : m.frames = f :: below)
    {id : RoutineId} {m₁ : Machine}
    (hadvance : @Machine.advance HookError m = (.ok (.call id f.id), m₁)) {r : Routine σ}
    (haccepts : Accepts b.registry id f.stack r) (result : DispatchResult) :
    (m.step host (b.withInstant id result)).2.1.frames =
      ({ f with ip := f.ip + 1, stack := f.stack.drop r.arity } : Frame).receive result ::
        below := by
  have hstepped := (h.withInstant id result).step.1
  generalize m.step host (b.withInstant id result) = stepped at hstepped ⊢
  obtain ⟨-, -, -, hm₁⟩ := Machine.advance_call hframes hadvance
  cases hstepped with
  | done hnil =>
      rw [hframes] at hnil
      cases hnil
  | refused hlimit hrefused =>
      rw [hadvance] at hrefused
      cases hrefused
  | counted hframes' hadvanced hadvance' hreaction =>
      rw [hadvance] at hadvance'
      obtain ⟨hs, rfl⟩ := Prod.mk.inj hadvance'
      cases hs
      subst hm₁
      have hcall := hreaction.of_call (g := { f with ip := f.ip + 1 }) rfl
      have hintake : (b.withInstant id result).registry.intake id f.stack =
          (.settled result [] 0, f.stack.drop r.arity) := haccepts.intake_withInstant result
      simp only [hintake] at hcall
      rw [hcall.1]

end Bridge

/-! ### The frame of a call, from the call on -/

namespace Launch

/-- The results that the steps from `n` on bring to the frame `id` before step `k`. -/
def brought (c : Launch σ) (n k : Nat) (id : FrameId) : List DispatchResult :=
  (List.range' n (k - n)).filterMap (c.brings · id)

theorem brought_succ (c : Launch σ) {n k : Nat} (hnk : n ≤ k) (id : FrameId) :
    c.brought n (k + 1) id = c.brought n k id ++ (c.brings k id).toList := by
  rw [brought, Nat.succ_sub hnk, List.range'_concat, List.filterMap_append, brought]
  congr 1
  rw [Nat.one_mul, Nat.add_sub_cancel' hnk]
  cases hk : c.brings k id <;> simp [hk]

/-- The frame `f` above `below`, which called a routine at step `n`, as it stands at step `k`: either
one result has been brought to it since the call, once, or none and it waits. -/
structure Serves (c : Launch σ) (n k : Nat) (f : Frame) (below : List Frame)
    (v : Option DispatchResult) : Prop where
  brought : c.brought n k f.id = v.toList
  frames : ∃ above, (c.after k).1.frames = above ++ f.served v :: below

/-- A native call moves the current frame past a native instruction. -/
theorem advance_of_calling {c : Launch σ} {n : Nat} {f : Frame} {below : List Frame}
    (hframes : (c.after n).1.frames = f :: below) {id : RoutineId}
    (hcalls : c.calling n = some (id, f.id)) :
    f.pendingFault = none ∧ f.program.code[f.ip]? = some (.native id) ∧
      @Machine.advance HookError (c.after n).1 = (.ok (.call id f.id), { (c.after n).1 with
        steps := (c.after n).1.steps + 1
        frames := { f with ip := f.ip + 1 } :: below }) := by
  unfold calling at hcalls
  split at hcalls
  · next hadvance =>
      cases hcalls
      obtain ⟨hpending, hop, -, hm₁⟩ := Machine.advance_call hframes hadvance
      exact ⟨hpending, hop, hm₁ ▸ hadvance⟩
  · cases hcalls

section Kept

variable {keep : σ → Prop} {c : Launch σ} (hkeep : c.registry.KeepsTo keep) {n k : Nat} {f : Frame}
  {below : List Frame}

include hkeep

theorem serves_call (hframes : (c.after n).1.frames = f :: below) {id : RoutineId}
    (hcalls : c.calling n = some (id, f.id)) {r : Routine σ}
    (haccepts : Bridge.Accepts c.registry id f.stack r) :
    let called : Frame := { f with ip := f.ip + 1, stack := f.stack.drop r.arity }
    ∃ v, c.brought n (n + 1) f.id = v.toList ∧
      Bridge.Stands (called.served v) below (c.after (n + 1)).1 (c.after (n + 1)).2 := by
  intro called
  have haligned := aligned_after hkeep n
  have hstepped := stepped_after hkeep n
  have hregistry := (host_after hkeep n).1
  have hadvance := (advance_of_calling hframes hcalls).2.2
  rw [c.brought_succ (Nat.le_refl n), brought, Nat.sub_self, List.range'_zero, List.filterMap_nil,
    List.nil_append, brings, Bridge.brings, hadvance]
  generalize c.result n = result, (c.after (n + 1)).1 = m', (c.after (n + 1)).2 = b' at hstepped ⊢
  cases hstepped with
  | done hnil =>
      rw [hframes] at hnil
      cases hnil
  | refused hlimit hrefused =>
      rw [hadvance] at hrefused
      cases hrefused
  | counted hframes' hadvanced hadvance' hreaction =>
      rw [hadvance] at hadvance'
      obtain ⟨hs, rfl⟩ := Prod.mk.inj hadvance'
      cases hs
      have hcalled : Bridge.Aligned keep
          { (c.after n).1 with
            steps := (c.after n).1.steps + 1
            frames := { f with ip := f.ip + 1 } :: below } (c.after n).2 :=
        haligned.continues hframes (g := { f with ip := f.ip + 1 }) rfl rfl rfl rfl rfl rfl
      have hstands := Bridge.Stands.of_call (f := { f with ip := f.ip + 1 }) hcalled rfl hreaction
      rw [hregistry, haccepts.rest_eq] at hstands
      refine ⟨_, ?_, hstands⟩
      dsimp only
      generalize hq : Bridge.verdict _ _ _ = q
      cases q with
      | none => rfl
      | some q =>
          have hcaller : q.caller = f.id := Bridge.caller_of_verdict hq
          simp only [Option.filter, hcaller, decide_true, if_true]

/-- From the call until the frame is stepped again nothing but the result of the call reaches it, and
that once. -/
theorem serves_until (hframes : (c.after n).1.frames = f :: below) {id : RoutineId}
    (hcalls : c.calling n = some (id, f.id)) {r : Routine σ}
    (haccepts : Bridge.Accepts c.registry id f.stack r) (hnk : n < k)
    (hwaits : ∀ j, n < j → j < k → (c.after j).1.current ≠ some f.id) :
    let called : Frame := { f with ip := f.ip + 1, stack := f.stack.drop r.arity }
    ∃ v, c.brought n k f.id = v.toList ∧
      Bridge.Stands (called.served v) below (c.after k).1 (c.after k).2 := by
  intro called
  induction k with
  | zero => cases hnk
  | succ k ih =>
      rcases Nat.lt_succ_iff_lt_or_eq.1 hnk with hlt | rfl
      · obtain ⟨v, hbrought, hstands⟩ := ih hlt fun j hj hjk => hwaits j hj (Nat.lt_succ_of_lt hjk)
        have htop := hwaits k hlt (Nat.lt_succ_self k)
        have hid : (called.served v).id = f.id := Frame.id_served called v
        rw [← hid] at htop
        have hstep := hstands.step (aligned_after hkeep k) htop (stepped_after hkeep k)
        have hbrings : c.brings k f.id =
            Bridge.brings (c.after k).1 (c.after k).2 (called.served v).id := by rw [hid]; rfl
        rw [c.brought_succ (Nat.le_of_lt hlt), hbrought]
        cases hr : c.brings k f.id with
        | none =>
            rw [← hbrings, hr] at hstep
            exact ⟨v, List.append_nil _, hstep⟩
        | some result =>
            have hg : called.served v ∈ (c.after k).1.frames := by
              obtain ⟨above, hframes', -⟩ := hstands.frames
              rw [hframes']
              exact List.mem_append_right _ List.mem_cons_self
            -- the frame is blocked, so it does not have its result yet
            have hblocked := (aligned_after hkeep k).blocked_of_brings hg htop (hbrings ▸ hr)
            rw [← hbrings, hr] at hstep
            cases v with
            | some early =>
                rw [Frame.served, Frame.blocked_receive] at hblocked
                cases hblocked
            | none =>
                refine ⟨some result, rfl, ?_⟩
                rw [← Frame.served_of_waits called true result]
                exact hstep
      · exact serves_call hkeep hframes hcalls haccepts

end Kept

/-- Callers cannot tell whether a routine suspended. From the step in which a frame calls a routine
that accepts its operands, until the frame is stepped again, nothing changes of it but that the
operands are gone and the one result arrives; while there is none, the frame is blocked. Once it is
the current frame again, the whole stack is as if a synchronous routine had returned the result at
once. -/
theorem suspension_unseen (c : Launch σ) (hc : c.registry.WellBehaved) {n k : Nat} {f : Frame}
    {below : List Frame} (hframes : (c.after n).1.frames = f :: below) {id : RoutineId}
    (hcalls : c.calling n = some (id, f.id)) {r : Routine σ}
    (haccepts : Bridge.Accepts c.registry id f.stack r) (hnk : n < k)
    (hwaits : ∀ j, n < j → j < k → (c.after j).1.current ≠ some f.id) :
    let called : Frame := { f with ip := f.ip + 1, stack := f.stack.drop r.arity }
    f.program.code[f.ip]? = some (.native id) ∧
      ∃ v, c.Serves n k called below v ∧
        (∀ fault, (called.served v).pendingFault = some fault ↔ v = some (.fault fault)) ∧
        ((c.after k).1.current = some f.id → ∃ result, v = some result ∧
          (c.after k).1.frames = called.receive result :: below ∧
          (c.after k).1.frames =
            ((c.after n).1.step Bridge.host ((c.after n).2.withInstant id result)).2.1.frames) := by
  intro called
  obtain ⟨keep, hkeep⟩ := hc
  obtain ⟨hpending, hop, hadvance⟩ := advance_of_calling hframes hcalls
  obtain ⟨v, hbrought, hstands⟩ := serves_until hkeep hframes hcalls haccepts hnk hwaits
  obtain ⟨above, hframes', habove⟩ := hstands.frames
  refine ⟨hop, v, ⟨hbrought, above, hframes'⟩, fun fault => ?_, fun hcurrent => ?_⟩
  · cases v with
    | none => simp [Frame.served, called, hpending]
    | some result => cases result <;> simp [Frame.served, Frame.receive, called, hpending]
  · have hnone : above = [] := by
      cases above with
      | nil => rfl
      | cons a above =>
          rw [Machine.current, hframes'] at hcurrent
          have hlt := habove a List.mem_cons_self
          have hid : a.id = f.id := Option.some.inj hcurrent
          rw [Frame.id_served, hid] at hlt
          exact absurd hlt (Nat.lt_irrefl _)
    subst hnone
    have hunblocked := (aligned_after hkeep k).unblocked_top hframes'
    cases v with
    | none => cases hunblocked
    | some result =>
        have hinstant := (aligned_after hkeep n).step_instant hframes hadvance
          ((host_after hkeep n).1.symm ▸ haccepts) result
        exact ⟨result, rfl, hframes', hframes'.trans hinstant.symm⟩

/-- A program that invokes a procedure which returns a number. -/
def invokeSeven : Launch Builtin.Waiting where
  registry := Builtin.registry
  library := { programs := [⟨"seven", [.push (.int 7)]⟩] }
  program := ⟨"main", [.push (.str "seven"), .native 10, .log]⟩

theorem suspension_unseen_invokeSeven :
    invokeSeven.calling 1 = some (10, 1) ∧
      (invokeSeven.after 4).1.frames =
        [{ id := 1, program := invokeSeven.program, ip := 2, stack := [.int 7] }] ∧
      (invokeSeven.after 4).1.frames = ((invokeSeven.after 1).1.step Bridge.host
        ((invokeSeven.after 1).2.withInstant 10 (.value (.int 7)))).2.1.frames := by
  have hwaits : ∀ j, 1 < j → j < 4 → (invokeSeven.after j).1.current ≠ some 1 := by
    intro j hj hjk
    have hcases : j = 2 ∨ j = 3 := by omega
    rcases hcases with rfl | rfl <;> decide
  have hcaller : (invokeSeven.after 1).1.frames =
      [{ id := 1, program := invokeSeven.program, ip := 1, stack := [.str "seven"] }] := rfl
  obtain ⟨-, v, hserves, -, hback⟩ := invokeSeven.suspension_unseen Builtin.wellBehaved hcaller rfl
    (k := 4) (r := (Builtin.routines id)[3]) ⟨rfl, by decide, _, rfl⟩ (by decide) hwaits
  obtain ⟨result, rfl, hframes, hinstant⟩ := hback rfl
  have hbrought : invokeSeven.brought 1 4 1 = [.value (.int 7)] := rfl
  cases hbrought.symm.trans hserves.brought
  exact ⟨rfl, hframes, hinstant⟩

end Launch

end Reentrant
