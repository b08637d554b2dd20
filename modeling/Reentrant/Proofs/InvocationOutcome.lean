import Reentrant.Proofs.LaunchedRun

/-!
Nested invocations and their outcomes. Whatever a poll asks for is loaded by the flush of the same
step, one frame for each invocation, in the order of issue. The future of an invocation stays pending
as long as its frame is on the stack, and holds that frame's outcome from the step on that ends it.
-/

namespace Reentrant

variable {σ : Type}

/-! ### What one reaction loads and resolves -/

theorem length_invocations (caller : FrameId) (next : FutureId) (ps : List Program) :
    (invocations caller next ps).length = ps.length := by
  induction ps generalizing next with
  | nil => rfl
  | cons p ps ih => rw [invocations, List.length_cons, ih, List.length_cons]

theorem programs_invocations (caller : FrameId) (next : FutureId) (ps : List Program) :
    (invocations caller next ps).map (·.program) = ps := by
  induction ps generalizing next with
  | nil => rfl
  | cons p ps ih => rw [invocations, List.map_cons, ih]

theorem futures_invocations (caller : FrameId) (next : FutureId) (ps : List Program) :
    (invocations caller next ps).map (·.future) = List.range' next ps.length := by
  induction ps generalizing next with
  | nil => rfl
  | cons p ps ih => rw [invocations, List.map_cons, ih, List.length_cons, List.range'_succ]

/-- The frame whose end a signal reports. -/
def Signal.teardown? : Signal → Option Teardown
  | .ended t => some t
  | _ => none

/-- The futures once the end of a frame has been taken up; the entry frame has no future. -/
def FutureStore.closing (s : FutureStore Continuation) : Option Teardown → FutureStore Continuation
  | some t => if 2 ≤ t.frame then s.resolved (t.frame - 2) t.outcome else s
  | none => s

namespace FutureStore

theorem size_closing (s : FutureStore Continuation) (ended : Option Teardown) :
    (s.closing ended).cells.size = s.cells.size := by
  cases ended with
  | none => rfl
  | some t =>
      rw [closing]
      split
      · exact size_resolved s _ _
      · rfl

/-- The end of another frame leaves a future as it is. -/
theorem outcome?_closing_of_ne (s : FutureStore Continuation) {ended : Option Teardown} {f : Nat}
    (h : ∀ t, ended = some t → t.frame ≠ f + 2) : (s.closing ended).outcome? f = s.outcome? f := by
  cases ended with
  | none => rfl
  | some t =>
      rw [closing]
      split
      · next htwo =>
          have hne : t.frame - 2 ≠ f := fun heq =>
            h t rfl ((Nat.sub_eq_iff_eq_add htwo).1 heq)
          rw [outcome?, outcome?, get_resolved_of_ne s hne]
      · rfl

theorem outcome?_closing_self (s : FutureStore Continuation) {t : Teardown} {f : Nat}
    (hframe : t.frame = f + 2) (hf : f < s.cells.size) :
    (s.closing (some t)).outcome? f = some t.outcome := by
  rw [closing, hframe, if_pos (Nat.le_add_left 2 f), Nat.add_sub_cancel, outcome?,
    get_resolved_self s hf]

end FutureStore

namespace Bridge

/-- What a step does to the frames and the futures when it ends the frame of `ended` and `is` are
issued in it. -/
structure Effect (ended : Option Teardown) (is : List Invocation) (m : Machine) (b : Bridge σ)
    (m' : Machine) (b' : Bridge σ) : Prop where
  numbered : is.map (·.future) = List.range' b.futures.cells.size is.length
  futures : ∃ c : Cell Continuation, c.outcome = none ∧
    b'.futures = (b.futures.closing ended).extend is.length c
  frames : ∃ old, old.map (·.id) = (m.frames.map (·.id)).filter (fun id => ended.all (·.frame ≠ id)) ∧
    m'.frames = m.limits.freshAll m.nextFrame old.length (is.map (·.program)) ++ old
  next : m'.nextFrame = m.nextFrame + is.length

/-- The programs that the routine polled in reaction to a signal asks for, as its poll tells them. -/
def requests : Signal → Machine → Bridge σ → List Program
  | .call id caller, m, b =>
      match (b.registry.intake id ((m.frames.head?.map (·.stack)).getD [])).1 with
      | .begun _ s => ((b.registry.poll s).transcript b.futures.outcome? b.library b.nextTask caller
          b.futures.cells.size).programs
      | .settled _ _ _ => []
  | .ended t, _, b =>
      match b.tasks.find? fun x => b.futures.resumes x.id t.frame with
      | some x =>
          match x.activity with
          | .idle s => ((b.registry.poll s).transcript
              (b.futures.resolved (t.frame - 2) t.outcome).outcome? b.library x.id x.caller
              b.futures.cells.size).programs
          | _ => []
      | none => []
  | _, _, _ => []

namespace Reaction

variable {s : Signal} {m m' : Machine} {b b' : Bridge σ}

/-- Nothing that a poll asks for is lost before the flush. -/
theorem programs_queued (h : Reaction s m b m' b') :
    (queued s m b).map (·.program) = requests s m b := by
  cases h with
  | untold => rfl
  | settled hframes hintake hqueued => simp [hqueued, requests, hframes, hintake]
  | begun hframes hintake hx htr hqueued hcaller =>
      rw [hqueued, programs_invocations, htr]
      simp [requests, hframes, hintake]
  | @left m b t hframe habsent hqueued =>
      simp [hqueued, requests, find?_entry hframe]
  | @unheard m b t es hframe htable hsilent hqueued =>
      have hnone : b.tasks.find? (fun x => b.futures.resumes x.id t.frame) = none :=
        List.find?_eq_none.2 hsilent
      simp [hqueued, requests, hnone]
  | @resumed m b t es pre post y z s tr hframe htable htasks hidle hresumes hothers hz htr hqueued
      hcaller =>
      rw [hqueued, programs_invocations, htr]
      simp only [requests, find?_resumed htasks hresumes hothers, hidle]

/-- The frames and the futures after a reaction. -/
theorem effect (h : Reaction s m b m' b') :
    (queued s m b).map (·.future) = List.range' b.futures.cells.size (queued s m b).length ∧
      (∃ c : Cell Continuation, c.outcome = none ∧
        b'.futures = (b.futures.closing s.teardown?).extend (queued s m b).length c) ∧
      (∃ old, old.map (·.id) = m.frames.map (·.id) ∧
        m'.frames = m.limits.freshAll m.nextFrame old.length ((queued s m b).map (·.program)) ++
          old) ∧
      m'.nextFrame = m.nextFrame + (queued s m b).length := by
  have hnothing : ∀ futures : FutureStore Continuation, ∃ c : Cell Continuation, c.outcome = none ∧
      futures = futures.extend 0 c := fun futures => ⟨{}, rfl, (futures.extend_zero _).symm⟩
  cases h with
  | untold => exact ⟨rfl, hnothing _, ⟨m.frames, rfl, rfl⟩, rfl⟩
  | settled hframes hintake hqueued =>
      rw [hqueued]
      refine ⟨rfl, hnothing _, ⟨_, ?_, rfl⟩, rfl⟩
      rw [hframes, List.map_cons, List.map_cons, Frame.id_receive]
  | @begun m b f below id routine s rest x tr hframes hintake hx htr hqueued hcaller =>
      have hloaded := Machine.loadAll_answer { m with
          frames := { f with stack := rest, blocked := (tr.result? x).isNone } :: below }
        tr.programs hcaller (tr.result? x)
      rw [hqueued, futures_invocations, programs_invocations, length_invocations, hloaded,
        reacted_eq]
      refine ⟨rfl, ⟨tr.cell x.id, tr.outcome_cell x.id, rfl⟩, ⟨_, ?_, by rw [List.length_map]⟩, rfl⟩
      rw [hframes, ids_answered, List.map_cons, List.map_cons]
  | left hframe habsent hqueued =>
      rw [hqueued]
      refine ⟨rfl, ?_, ⟨m.frames, rfl, rfl⟩, rfl⟩
      simp only [Signal.teardown?, FutureStore.closing, hframe]
      exact hnothing _
  | unheard hframe htable hsilent hqueued =>
      rw [hqueued]
      refine ⟨rfl, ?_, ⟨m.frames, rfl, rfl⟩, rfl⟩
      simp only [Signal.teardown?, FutureStore.closing, if_pos hframe]
      exact hnothing _
  | @resumed m b t es pre post y z s tr hframe htable htasks hidle hresumes hothers hz htr hqueued
      hcaller =>
      subst hz
      rw [hqueued, futures_invocations, programs_invocations, length_invocations,
        Machine.loadAll_answer _ _ hcaller, reacted_eq]
      simp only [record, closed, Signal.teardown?, FutureStore.closing, if_pos hframe]
      exact ⟨trivial, ⟨tr.cell y.id, tr.outcome_cell y.id, rfl⟩,
        ⟨_, ids_answered _ _ _, by rw [List.length_map]⟩, trivial⟩

end Reaction

end Bridge

/-! ### The steps of a run -/

namespace Launch

/-- The invocations issued in the step after `n` steps, oldest first. -/
def issued (c : Launch σ) (n : Nat) : List Invocation :=
  match @Machine.advance HookError (c.after n).1 with
  | (.ok s, m) => Bridge.queued s m (c.after n).2
  | _ => []

/-- The programs that the routine polled in that step asks for. -/
def requests (c : Launch σ) (n : Nat) : List Program :=
  match @Machine.advance HookError (c.after n).1 with
  | (.ok s, m) => Bridge.requests s m (c.after n).2
  | _ => []

/-- Whether the frame `id` has ended within the first `k` steps. -/
def HasEnded (c : Launch σ) (k : Nat) (id : FrameId) : Prop :=
  ∃ j < k, ∃ t, c.ending j = some t ∧ t.frame = id

theorem hasEnded_succ {c : Launch σ} {k : Nat} {id : FrameId} :
    c.HasEnded (k + 1) id ↔ c.HasEnded k id ∨ ∃ t, c.ending k = some t ∧ t.frame = id := by
  constructor
  · rintro ⟨j, hj, rest⟩
    rcases Nat.lt_succ_iff_lt_or_eq.1 hj with hj | rfl
    · exact .inl ⟨j, hj, rest⟩
    · exact .inr rest
  · rintro (⟨j, hj, rest⟩ | rest)
    · exact ⟨j, by omega, rest⟩
    · exact ⟨k, by omega, rest⟩

section Kept

variable {keep : σ → Prop} {c : Launch σ} (hkeep : c.registry.KeepsTo keep)

include hkeep

/-- What a step does to frames and futures, and that it issues what was asked for. -/
theorem effect_after (n : Nat) :
    (c.issued n).map (·.program) = c.requests n ∧
      Bridge.Effect (c.ending n) (c.issued n) (c.after n).1 (c.after n).2 (c.after (n + 1)).1
        (c.after (n + 1)).2 := by
  have haligned := aligned_after hkeep n
  have hstepped := stepped_after hkeep n
  have hids : ∀ ids : List FrameId, ids = ids.filter fun id => (none : Option Teardown).all
      (·.frame ≠ id) := fun ids => (List.filter_eq_self.2 fun _ _ => rfl).symm
  rw [issued, requests, ending]
  generalize c.result n = r, (c.after (n + 1)).1 = m', (c.after (n + 1)).2 = b' at hstepped ⊢
  cases hstepped with
  | done hframes =>
      have hadvance : @Machine.advance HookError (c.after n).1 = (.ok .done, (c.after n).1) := by
        rw [Machine.advance, hframes]
      rw [hadvance]
      exact ⟨rfl, rfl, ⟨{}, rfl, (FutureStore.extend_zero _ _).symm⟩, ⟨_, hids _, rfl⟩, rfl⟩
  | refused hlimit hadvance =>
      rw [hadvance]
      exact ⟨rfl, rfl, ⟨{}, rfl, (FutureStore.extend_zero _ _).symm⟩, ⟨_, hids _, rfl⟩, rfl⟩
  | @counted f below s m₁ _ _ hframes hadvanced hadvance hreaction =>
      rw [hadvance]
      refine ⟨hreaction.programs_queued, ?_⟩
      obtain ⟨hnumbered, hfutures, ⟨old, hold, hloaded⟩, hnext⟩ := hreaction.effect
      have hbelow := haligned.ne_top hframes
      cases hadvanced with
      | proceed hid hblocked logged =>
          refine ⟨hnumbered, hfutures, ⟨old, ?_, hloaded⟩, hnext⟩
          rw [hold, ← hids, hframes, List.map_cons, List.map_cons, hid]
      | call hid hblocked routine =>
          refine ⟨hnumbered, hfutures, ⟨old, ?_, hloaded⟩, hnext⟩
          rw [hold, ← hids, hframes, List.map_cons, List.map_cons, hid]
      | ended fault stack =>
          refine ⟨hnumbered, hfutures, ⟨old, ?_, hloaded⟩, hnext⟩
          rw [hold, hframes, List.map_cons, List.filter_cons_of_neg (by simp), eq_comm,
            List.filter_eq_self]
          intro id hid
          obtain ⟨g, hg, rfl⟩ := List.mem_map.1 hid
          simpa using (hbelow g hg).symm

/-- Only the current frame ends. -/
theorem ending_top {n : Nat} {t : Teardown} (hending : c.ending n = some t) :
    ∃ f below, (c.after n).1.frames = f :: below ∧ f.id = t.frame := by
  have hstepped := stepped_after hkeep n
  rw [ending] at hending
  generalize c.result n = r, (c.after (n + 1)).1 = m', (c.after (n + 1)).2 = b' at hstepped
  cases hstepped with
  | done hframes =>
      rw [Machine.advance, hframes] at hending
      cases hending
  | refused hlimit hadvance =>
      rw [hadvance] at hending
      cases hending
  | @counted f below s m₁ _ _ hframes hadvanced hadvance hreaction =>
      rw [hadvance] at hending
      cases hadvanced with
      | proceed hid hblocked logged => cases hending
      | call hid hblocked routine => cases hending
      | ended fault stack =>
          cases hending
          exact ⟨f, below, hframes, rfl⟩

theorem ending_mem {n : Nat} {t : Teardown} (hending : c.ending n = some t) :
    t.frame ∈ (c.after n).1.frames.map (·.id) := by
  obtain ⟨f, below, hframes, hid⟩ := ending_top hkeep hending
  rw [hframes, ← hid]
  exact List.mem_cons_self

theorem next_mono {j k : Nat} (hjk : j ≤ k) :
    (c.after j).1.nextFrame ≤ (c.after k).1.nextFrame := by
  induction hjk with
  | refl => exact Nat.le_refl _
  | @step k _ ih =>
      calc
        (c.after j).1.nextFrame ≤ (c.after k).1.nextFrame := ih
        _ ≤ (c.after k).1.nextFrame + (c.issued k).length := Nat.le_add_right _ _
        _ = (c.after (k + 1)).1.nextFrame := (effect_after hkeep k).2.next.symm

theorem lt_next_of_ending {n : Nat} {t : Teardown} (hending : c.ending n = some t) :
    t.frame < (c.after n).1.nextFrame := by
  have haligned := aligned_after hkeep n
  rw [haligned.next]
  exact (haligned.ledger.bounds _ (ending_mem hkeep hending)).2

/-- Only frames that were loaded have ended. -/
theorem lt_next_of_hasEnded {k : Nat} {id : FrameId} (h : c.HasEnded k id) :
    id < (c.after k).1.nextFrame := by
  obtain ⟨j, hj, t, hending, rfl⟩ := h
  calc
    t.frame < (c.after j).1.nextFrame := lt_next_of_ending hkeep hending
    _ ≤ (c.after k).1.nextFrame := next_mono hkeep (by omega)

/-- A frame that was loaded is on the stack until it ends, and never again. -/
theorem mem_frames_iff {k : Nat} {id : FrameId} (hpos : 1 ≤ id)
    (hlt : id < (c.after k).1.nextFrame) :
    id ∈ (c.after k).1.frames.map (·.id) ↔ ¬c.HasEnded k id := by
  induction k with
  | zero =>
      have hone : id = 1 := Nat.le_antisymm (Nat.le_of_lt_succ hlt) hpos
      refine iff_of_true (hone ▸ List.mem_cons_self) ?_
      rintro ⟨j, hj, -⟩
      omega
  | succ k ih =>
      have heffect := (effect_after hkeep k).2
      obtain ⟨old, hold, hframes⟩ := heffect.frames
      rw [hframes, List.map_append, List.mem_append, hold, List.mem_filter, hasEnded_succ, not_or]
      rw [heffect.next] at hlt
      by_cases hfresh : (c.after k).1.nextFrame ≤ id
      · refine iff_of_true (.inl ?_) ⟨fun h => ?_, ?_⟩
        · rw [Limits.ids_freshAll, List.mem_reverse, List.mem_range'_1, List.length_map]
          exact ⟨hfresh, hlt⟩
        · exact Nat.not_lt.2 hfresh (lt_next_of_hasEnded hkeep h)
        · rintro ⟨t, hending, rfl⟩
          exact Nat.not_lt.2 hfresh (lt_next_of_ending hkeep hending)
      · have hnew : id ∉ ((c.after k).1.limits.freshAll (c.after k).1.nextFrame old.length
            ((c.issued k).map (·.program))).map (·.id) := by
          rw [Limits.ids_freshAll, List.mem_reverse, List.mem_range'_1]
          exact fun hmem => hfresh hmem.1
        rw [or_iff_right hnew, ih (Nat.lt_of_not_le hfresh)]
        refine and_congr_right fun _ => ?_
        cases c.ending k with
        | none => simp
        | some t => simp

/-- A future is pending as long as its frame has not ended. -/
theorem outcome?_of_not_hasEnded {k : Nat} {f : FutureId} (h : ¬c.HasEnded k (f + 2)) :
    (c.after k).2.futures.outcome? f = none := by
  induction k with
  | zero => exact congrArg Cell.outcome (FutureStore.get_of_ge _ (Nat.zero_le _))
  | succ k ih =>
      rw [hasEnded_succ, not_or] at h
      obtain ⟨cell, hcell, hfutures⟩ := (effect_after hkeep k).2.futures
      rw [hfutures, FutureStore.outcome?_extend _ _ hcell,
        FutureStore.outcome?_closing_of_ne _ fun t ht heq => h.2 ⟨t, ht, heq⟩, ih h.1]

/-- A frame that ends has not ended before. -/
theorem not_hasEnded_of_ending {k : Nat} {t : Teardown} (hending : c.ending k = some t) :
    ¬c.HasEnded k t.frame := by
  have hmem := ending_mem hkeep hending
  have hbounds := (aligned_after hkeep k).ledger.bounds _ hmem
  exact (mem_frames_iff hkeep hbounds.1 (lt_next_of_ending hkeep hending)).1 hmem

/-- No frame ends twice. -/
theorem ending_unique {j k : Nat} {t u : Teardown} (hj : c.ending j = some t)
    (hk : c.ending k = some u) (hframe : t.frame = u.frame) : j = k := by
  rcases Nat.lt_trichotomy j k with hlt | heq | hlt
  · exact absurd ⟨j, hlt, t, hj, hframe⟩ (not_hasEnded_of_ending hkeep hk)
  · exact heq
  · exact absurd ⟨k, hlt, u, hk, hframe.symm⟩ (not_hasEnded_of_ending hkeep hj)

/-- From the step on that ends its frame, a future holds the frame's outcome. -/
theorem outcome?_of_ending {j k : Nat} {t : Teardown} {f : Nat} (hending : c.ending j = some t)
    (hframe : t.frame = f + 2) (hjk : j < k) :
    (c.after k).2.futures.outcome? f = some t.outcome := by
  induction k with
  | zero => omega
  | succ k ih =>
      obtain ⟨cell, hcell, hfutures⟩ := (effect_after hkeep k).2.futures
      rw [hfutures, FutureStore.outcome?_extend _ _ hcell]
      rcases Nat.lt_succ_iff_lt_or_eq.1 hjk with hlt | rfl
      · rw [FutureStore.outcome?_closing_of_ne, ih hlt]
        intro u hu heq
        have hsame := ending_unique hkeep hending hu (hframe.trans heq.symm)
        omega
      · have hnext := lt_next_of_ending hkeep hending
        rw [(aligned_after hkeep j).next, hframe] at hnext
        rw [hending]
        exact FutureStore.outcome?_closing_self _ hframe (Nat.lt_of_add_lt_add_right hnext)

end Kept

/-! ### Every invocation -/

/-- What becomes of the invocations that are issued in the step after `n` steps. -/
structure Delivers (c : Launch σ) (n : Nat) : Prop where
  /-- Everything that the polled routine asks for is issued, in this order. -/
  asked : (c.issued n).map (·.program) = c.requests n
  /-- Each invocation has a future of its own, which is new. -/
  numbered : (c.issued n).map (·.future) =
    List.range' (c.after n).2.futures.cells.size (c.issued n).length
  created : (c.after (n + 1)).2.futures.cells.size =
    (c.after n).2.futures.cells.size + (c.issued n).length
  /-- The same step loads one frame for each invocation, numbered in the order of issue, the last one
  on top. The frames below are the old ones, less the one that ends in this step. -/
  loaded : ∃ old, old.map (·.id) =
      ((c.after n).1.frames.map (·.id)).filter (fun id => (c.ending n).all (·.frame ≠ id)) ∧
    (c.after (n + 1)).1.frames =
      c.limits.freshAll (c.after n).1.nextFrame old.length ((c.issued n).map (·.program)) ++ old
  next : (c.after (n + 1)).1.nextFrame = (c.after n).1.nextFrame + (c.issued n).length
  /-- As long as its frame has not ended, an invocation's frame is on the stack, entered in the table
  with the invocation's future, which is pending. -/
  pending : ∀ i (hi : i < (c.issued n).length) k, n < k →
    (∀ j < k, ∀ t, c.ending j = some t → t.frame ≠ (c.after n).1.nextFrame + i) →
    (c.after k).1.hasFrame ((c.after n).1.nextFrame + i) = true ∧
      ((c.after n).1.nextFrame + i, (c.issued n)[i].future) ∈ (c.after k).2.table.entries ∧
      (c.after k).2.futures.outcome? (c.issued n)[i].future = none
  /-- From the step on that ends the frame, the future holds the fault that ended it or, without one, the
  top of the stack that it left, if there is any. The frame is gone and does not end again. -/
  resolved : ∀ i (hi : i < (c.issued n).length) j t, c.ending j = some t →
    t.frame = (c.after n).1.nextFrame + i →
    n < j ∧ ∀ k, j < k →
      (c.after k).2.futures.outcome? (c.issued n)[i].future =
        some (match t.fault with
          | some fault => .faulted fault
          | none => .returned t.stack.head?) ∧
      (c.after k).1.hasFrame t.frame = false ∧ ∀ u, c.ending k = some u → u.frame ≠ t.frame

/-- Every nested invocation of well-behaved routines is loaded once, by the step in which it is
issued, and its future gets the outcome of its own frame. -/
theorem invocations_deliver (c : Launch σ) (hc : c.registry.WellBehaved) (n : Nat) :
    c.Delivers n := by
  obtain ⟨keep, hkeep⟩ := hc
  obtain ⟨hasked, heffect⟩ := effect_after hkeep n
  obtain ⟨old, hold, hframes⟩ := heffect.frames
  obtain ⟨cell, -, hfutures⟩ := heffect.futures
  have hnext := (aligned_after hkeep n).next
  have hfuture : ∀ i (hi : i < (c.issued n).length),
      (c.issued n)[i].future = (c.after n).2.futures.cells.size + i := by
    intro i hi
    have hget := congrArg (·[i]?) heffect.numbered
    simpa [hi] using hget
  have hframe : ∀ i (hi : i < (c.issued n).length),
      (c.after n).1.nextFrame + i = (c.issued n)[i].future + 2 := by
    intro i hi
    rw [hfuture i hi, hnext]
    exact Nat.add_right_comm _ _ _
  have hlt : ∀ i < (c.issued n).length, ∀ k, n < k →
      (c.after n).1.nextFrame + i < (c.after k).1.nextFrame := by
    intro i hi k hk
    calc
      (c.after n).1.nextFrame + i < (c.after n).1.nextFrame + (c.issued n).length :=
        Nat.add_lt_add_left hi _
      _ = (c.after (n + 1)).1.nextFrame := heffect.next.symm
      _ ≤ (c.after k).1.nextFrame := next_mono hkeep hk
  have hpos : ∀ i, 1 ≤ (c.after n).1.nextFrame + i := fun i => by
    rw [hnext]
    grind
  exact {
    asked := hasked
    numbered := heffect.numbered
    created := by
      rw [hfutures, FutureStore.size_extend, FutureStore.size_closing]
    loaded := ⟨old, hold, by rw [hframes, limits_after hkeep]⟩
    next := heffect.next
    pending := by
      intro i hi k hk hnot
      have hnot' : ¬c.HasEnded k ((c.after n).1.nextFrame + i) := by
        rintro ⟨j, hj, t, hending, heq⟩
        exact hnot j hj t hending heq
      have hmem := (mem_frames_iff hkeep (hpos i) (hlt i hi k hk)).2 hnot'
      refine ⟨Machine.hasFrame_iff.2 (List.mem_map.1 hmem), ?_, ?_⟩
      · rw [(aligned_after hkeep k).ledger.entries, mem_tabled]
        refine ⟨_, hmem, ?_, ?_⟩
        · rw [hframe i hi]
          exact Nat.le_add_left 2 _
        · rw [hframe i hi]
          rfl
      · rw [hframe i hi] at hnot'
        exact outcome?_of_not_hasEnded hkeep hnot'
    resolved := by
      intro i hi j t hending heq
      have hnj : n < j := by
        refine Nat.lt_of_not_le fun hle => ?_
        have hold : t.frame < (c.after n).1.nextFrame :=
          calc
            t.frame < (c.after j).1.nextFrame := lt_next_of_ending hkeep hending
            _ ≤ (c.after n).1.nextFrame := next_mono hkeep hle
        rw [heq] at hold
        exact absurd hold (Nat.not_lt.2 (Nat.le_add_right _ _))
      refine ⟨hnj, fun k hjk => ⟨?_, ?_, ?_⟩⟩
      · exact outcome?_of_ending hkeep hending (heq.trans (hframe i hi)) hjk
      · refine Bool.eq_false_iff.2 fun hframe => ?_
        have hmem := List.mem_map.2 (Machine.hasFrame_iff.1 hframe)
        rw [heq, mem_frames_iff hkeep (hpos i) (hlt i hi k (by omega))] at hmem
        exact hmem ⟨j, hjk, t, hending, heq⟩
      · intro u hu hsame
        have hstep := ending_unique hkeep hending hu hsame.symm
        omega }

/-- The same call, whose first callee faults. -/
def callBothFaulting : Launch Builtin.Waiting :=
  { callBoth with library := { programs := [⟨"call_a", [.pop]⟩, ⟨"call_b", []⟩] } }

theorem invocations_deliver_callBoth :
    (callBoth.issued 0).map (·.program) = [⟨"call_a", [.push (.int 1)]⟩] ∧
      callBoth.ending 2 = some ⟨2, none, [.int 1]⟩ ∧
      (callBoth.after 3).2.futures.outcome? 0 = some (.returned (some (.int 1))) ∧
      callBothFaulting.ending 1 =
        some ⟨2, some ⟨"STACK_UNDERFLOW", "pop on empty stack"⟩, []⟩ ∧
      (callBothFaulting.after 2).2.futures.outcome? 0 =
        some (.faulted ⟨"STACK_UNDERFLOW", "pop on empty stack"⟩) := by
  have hreturns := invocations_deliver callBoth Builtin.wellBehaved 0
  have hending : callBoth.ending 2 = some ⟨2, none, [.int 1]⟩ := by rfl
  obtain ⟨-, hreturned⟩ := hreturns.resolved 0 (by decide) 2 _ hending rfl
  have hfaults := invocations_deliver callBothFaulting Builtin.wellBehaved 0
  have hfaulting : callBothFaulting.ending 1 =
      some ⟨2, some ⟨"STACK_UNDERFLOW", "pop on empty stack"⟩, []⟩ := by rfl
  obtain ⟨-, hfaulted⟩ := hfaults.resolved 0 (by decide) 1 _ hfaulting rfl
  exact ⟨hreturns.asked.trans rfl, hending, (hreturned 3 (by decide)).1, hfaulting,
    (hfaulted 2 (by decide)).1⟩

end Launch

end Reentrant
