import Reentrant.Proofs.MachineAdvance
import Reentrant.Proofs.StackLedger

/-!
The machine and the bridge between two steps. A frame is blocked exactly as long as a task that it
called waits, and a task waits for a frame above its caller. So the current frame is never blocked,
every native call and every end of a frame find their books in order, and a step leaves them so.
-/

namespace Reentrant

variable {σ : Type}

namespace Bridge

/-- How the machine and the bridge stand to each other between two steps. -/
structure Aligned (keep : σ → Prop) (m : Machine) (b : Bridge σ) : Prop where
  registry : b.registry.KeepsTo keep
  nesting : b.nesting ≠ 0
  quiet : b.Quiet
  ledger : Ledger keep (m.frames.map (·.id)) b.futures b.table.entries b.tasks b.nextTask
  waits : ∀ x ∈ b.tasks, 0 < x.outstanding
  blocked : ∀ f ∈ m.frames, f.blocked = true ↔ ∃ x ∈ b.tasks, x.caller = f.id
  next : m.nextFrame = b.futures.cells.size + 2
  entry : m.entry = some 1
  exit : m.exit.isSome = true ↔ m.frames = []

section Reacted

variable {keep : σ → Prop} {m : Machine} {b : Bridge σ} {pre post : List (Task σ)} {x : Task σ}
  {tr : Transcript σ}

/-- The ledger after a drive of the task `x` and the flush that follows. -/
theorem ledger_reacted {ids : List FrameId} (hids : ids ≠ []) (depth : Nat)
    (h : Ledger keep ids b.futures b.table.entries (pre ++ x :: post) b.nextTask)
    (hkeep : ∀ s, tr.answer = .pending s → keep s) (limits : Limits) :
    Ledger keep ((limits.freshAll (b.futures.cells.size + 2) depth tr.programs).map (·.id) ++ ids)
      (b.futures.extend tr.programs.length (tr.cell x.id))
      (b.table.entries ++ entered (b.futures.cells.size + 2) b.futures.cells.size tr.programs)
      (tr.remaining pre x post) b.nextTask := by
  have hx : x ∈ pre ++ x :: post := List.mem_append_right _ List.mem_cons_self
  have hrests := h.rests x hx
  have hwaiting : ∀ k, (tr.cell x.id).waiting = some k → ∃ t < b.nextTask, k = .resume t :=
    fun k hk => ⟨x.id, hrests.numbered, Transcript.waiting_cell hk⟩
  have hothers : ∀ y ∈ pre ++ post, (tr.cell x.id).waiting ≠ some (.resume y.id) := by
    intro y hy hw
    exact (h.only y hy).1 (Continuation.resume.inj (Transcript.waiting_cell hw))
  rw [Transcript.remaining]
  cases hr : tr.result? x with
  | some r =>
      have hloaded := h.unlist.loadAll limits tr.programs depth hids
        (Transcript.outcome_cell tr x.id) hwaiting
      rwa [map_await_eq fun y hy hw => absurd hw (hothers y hy)] at hloaded
  | none =>
      obtain ⟨⟨s, hs⟩, -⟩ := Transcript.pending_of_result?_eq_none hr
      have hrevised := h.revise (y := { x with activity := .idle s }) rfl rfl rfl
        { hrests with idle := ⟨s, rfl, hkeep s hs⟩ }
      have hloaded := hrevised.loadAll limits tr.programs depth hids
        (Transcript.outcome_cell tr x.id) hwaiting
      have hself : (tr.cell x.id).waiting = some (.resume x.id) := by
        rw [Transcript.cell, hs]
        rfl
      have hpre := map_await_eq (n := tr.programs.length) fun y hy hw =>
        absurd hw (hothers y (List.mem_append_left _ hy))
      have hpost := map_await_eq (n := tr.programs.length) fun y hy hw =>
        absurd hw (hothers y (List.mem_append_right _ hy))
      rw [List.map_append, List.map_cons, hpre, hpost] at hloaded
      simp only [Transcript.waiting, hs]
      simp only [Task.await, hself, if_true] at hloaded
      exact hloaded

/-- A drive of the task `x` and the flush that follows leave everything aligned, if it was but for `x`
itself and for what its caller is told. -/
theorem reacted_aligned (pre post : List (Task σ)) (hregistry : b.registry.KeepsTo keep) (hnesting : b.nesting ≠ 0)
    (hfatal : b.fatal = none)
    (hledger : Ledger keep (m.frames.map (·.id)) b.futures b.table.entries (pre ++ x :: post)
      b.nextTask)
    (hwaits : ∀ y ∈ pre ++ post, 0 < y.outstanding)
    (hothers : ∀ f ∈ m.frames, f.id ≠ x.caller →
      (f.blocked = true ↔ ∃ y ∈ pre ++ post, y.caller = f.id))
    (hblocked : tr.result? x = none → ∀ f ∈ m.frames, f.id = x.caller → f.blocked = true)
    (hnext : m.nextFrame = b.futures.cells.size + 2) (hentry : m.entry = some 1)
    (hexit : m.exit = none) (hkeep : ∀ s, tr.answer = .pending s → keep s) :
    Aligned keep ((m.loadAll tr.programs).answer x.caller (tr.result? x))
      (b.reacted pre x post tr m.nextFrame) := by
  have hcaller : x.caller ∈ m.frames.map (·.id) :=
    hledger.callers x (List.mem_append_right _ List.mem_cons_self)
  have hids : m.frames.map (·.id) ≠ [] := List.ne_nil_of_mem hcaller
  have hlt : x.caller < m.nextFrame := hnext ▸ (hledger.bounds _ hcaller).2
  have hremaining : ∀ y ∈ tr.remaining pre x post, y.caller ∈ m.frames.map (·.id) := by
    intro y hy
    rw [Transcript.remaining] at hy
    cases hr : tr.result? x with
    | some r =>
        rw [hr] at hy
        exact hledger.unlist.callers y hy
    | none =>
        rw [hr, List.mem_append, List.mem_cons] at hy
        rcases hy with hy | rfl | hy
        · exact hledger.unlist.callers y (List.mem_append_left _ hy)
        · exact hcaller
        · exact hledger.unlist.callers y (List.mem_append_right _ hy)
  rw [Machine.loadAll_answer m tr.programs hlt, reacted_eq, hnext]
  exact {
    registry := hregistry
    nesting := hnesting
    quiet := ⟨hfatal, rfl, rfl⟩
    ledger := by
      have hreacted := ledger_reacted hids m.frames.length hledger hkeep m.limits
      simp only [List.map_append, ids_answered]
      exact hreacted
    waits := by
      simp only [Transcript.remaining]
      cases hr : tr.result? x with
      | some r => exact hwaits
      | none =>
          rw [List.forall_mem_append] at hwaits
          rw [List.forall_mem_append, List.forall_mem_cons]
          exact ⟨hwaits.1, (Transcript.pending_of_result?_eq_none hr).2, hwaits.2⟩
    blocked := by
      intro f hf
      rcases List.mem_append.1 hf with hf | hf
      · -- a fresh frame is nobody's caller yet
        have hid := (Limits.id_mem_freshAll hf).1
        refine iff_of_false (by simp [Limits.blocked_mem_freshAll hf]) ?_
        rintro ⟨y, hy, heq⟩
        obtain ⟨g, hg, hgid⟩ := List.mem_map.1 (hremaining y hy)
        have hold := (hledger.bounds _ (List.mem_map_of_mem hg)).2
        rw [hgid, heq] at hold
        exact Nat.not_lt.2 hid hold
      · obtain ⟨g, hg, rfl⟩ := List.mem_map.1 hf
        rw [Frame.id_answered]
        simp only [Transcript.remaining]
        cases hr : tr.result? x with
        | some r =>
            by_cases hid : g.id = x.caller
            · refine iff_of_false (by simp [Frame.answered, hid]) ?_
              rintro ⟨y, hy, heq⟩
              exact (hledger.only y hy).2 (heq.trans hid)
            · simp only [Frame.answered, if_neg hid]
              exact hothers g hg hid
        | none =>
            simp only [Frame.answered]
            by_cases hid : g.id = x.caller
            · exact iff_of_true (hblocked hr g hg hid)
                ⟨tr.waiting x, List.mem_append_right _ List.mem_cons_self, hid.symm⟩
            · rw [hothers g hg hid]
              simp only [List.mem_append, List.mem_cons]
              constructor
              · rintro ⟨y, hy, heq⟩
                exact ⟨y, hy.imp_right .inr, heq⟩
              · rintro ⟨y, hy | rfl | hy, heq⟩
                · exact ⟨y, .inl hy, heq⟩
                · exact absurd heq.symm hid
                · exact ⟨y, .inr hy, heq⟩
    next := by
      simp only [FutureStore.size_extend]
      exact Nat.add_right_comm _ _ _
    entry := hentry
    exit := by
      have hframes : m.frames ≠ [] := fun hnil => hids (by rw [hnil]; rfl)
      simp [hexit, hframes] }

end Reacted

end Bridge

end Reentrant
