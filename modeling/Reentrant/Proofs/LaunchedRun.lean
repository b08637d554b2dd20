import Reentrant.Builtin
import Reentrant.Proofs.BridgedStep

/-!
Runs from the start: one program loaded as the entry frame of a fresh machine, one fresh bridge. After
any number of steps the bridge's books match the frame stack, no step fails but by the step limit, and
a run that ends leaves nothing behind.
-/

namespace Reentrant

variable {σ : Type}

/-- What a run starts from. -/
structure Launch (σ : Type) where
  registry : Registry σ
  library : Library := {}
  limits : Limits := {}
  /-- Whether the journal is kept. -/
  journal : Bool := false
  /-- The program of the entry frame. -/
  program : Program

namespace Launch

def machine (c : Launch σ) : Machine := (({ limits := c.limits } : Machine).loadEntry c.program).2

def bridge (c : Launch σ) : Bridge σ :=
  { registry := c.registry, library := c.library, journal := { enabled := c.journal } }

/-- The machine and the bridge after `n` steps, refused ones included. -/
def after (c : Launch σ) : Nat → Machine × Bridge σ
  | 0 => (c.machine, c.bridge)
  | n + 1 => ((c.after n).1.step Bridge.host (c.after n).2).2

/-- What the step after `n` steps comes to. -/
def result (c : Launch σ) (n : Nat) : Except (Halt HookError) Progress :=
  ((c.after n).1.step Bridge.host (c.after n).2).1

/-- The frame that the step after `n` steps ends, if it ends one. -/
def ending (c : Launch σ) (n : Nat) : Option Teardown :=
  match @Machine.advance HookError (c.after n).1 with
  | (.ok (.ended t), _) => some t
  | _ => none

/-- The native call that the step after `n` steps makes, if it makes one: the routine and the calling
frame. -/
def calling (c : Launch σ) (n : Nat) : Option (RoutineId × FrameId) :=
  match @Machine.advance HookError (c.after n).1 with
  | (.ok (.call id caller), _) => some (id, caller)
  | _ => none

/-! ### Every state of a run -/

section Kept

variable {keep : σ → Prop} {c : Launch σ} (hkeep : c.registry.KeepsTo keep)

include hkeep

theorem aligned_start : Bridge.Aligned keep c.machine c.bridge where
  registry := hkeep
  nesting := Nat.succ_ne_zero 65535
  quiet := ⟨rfl, rfl, rfl⟩
  ledger := Ledger.initial
  waits := by simp [bridge]
  blocked := by simp [machine, Machine.loadEntry, Machine.load, bridge]
  next := rfl
  entry := rfl
  exit := by simp [machine, Machine.loadEntry, Machine.load]

theorem aligned_after (n : Nat) : Bridge.Aligned keep (c.after n).1 (c.after n).2 := by
  induction n with
  | zero => exact aligned_start hkeep
  | succ n ih => exact ih.step.2

theorem stepped_after (n : Nat) :
    Bridge.Stepped (c.after n).1 (c.after n).2
      (c.result n, (c.after (n + 1)).1, (c.after (n + 1)).2) :=
  (aligned_after hkeep n).step.1

theorem limits_after (n : Nat) : (c.after n).1.limits = c.limits := by
  induction n with
  | zero => rfl
  | succ n ih =>
      rw [← ih]
      have hstepped := stepped_after hkeep n
      generalize c.result n = r, (c.after (n + 1)).1 = m', (c.after (n + 1)).2 = b' at hstepped
      cases hstepped with
      | done hframes => rfl
      | refused hlimit hadvance => rfl
      | counted hframes hadvanced hadvance hreaction =>
          rw [hreaction.keeps.1]
          cases hadvanced <;> rfl

/-- A run keeps its registry and its library. -/
theorem host_after (n : Nat) :
    (c.after n).2.registry = c.registry ∧ (c.after n).2.library = c.library := by
  induction n with
  | zero => exact ⟨rfl, rfl⟩
  | succ n ih =>
      have hstepped := stepped_after hkeep n
      generalize c.result n = r, (c.after (n + 1)).1 = m', (c.after (n + 1)).2 = b' at hstepped ⊢
      cases hstepped with
      | done hframes => exact ih
      | refused hlimit hadvance => exact ih
      | counted hframes hadvanced hadvance hreaction =>
          exact ⟨hreaction.keeps_host.1.trans ih.1, hreaction.keeps_host.2.trans ih.2⟩

/-- The outcome that a run reports is that of the entry frame. -/
theorem exit_after {n : Nat} {o : Outcome} (hexit : (c.after n).1.exit = some o) :
    ∃ k < n, ∃ t, c.ending k = some t ∧ c.machine.entry = some t.frame ∧ t.outcome = o := by
  induction n with
  | zero => cases hexit
  | succ n ih =>
      have hentry := (aligned_after hkeep n).entry
      have hold : (c.after n).1.exit = some o →
          ∃ k < n + 1, ∃ t, c.ending k = some t ∧ c.machine.entry = some t.frame ∧
            t.outcome = o := by
        intro h
        obtain ⟨k, hk, rest⟩ := ih h
        exact ⟨k, by omega, rest⟩
      have hstepped := stepped_after hkeep n
      generalize c.result n = r, (c.after (n + 1)).1 = m', (c.after (n + 1)).2 = b' at hstepped hexit
      cases hstepped with
      | done hframes => exact hold hexit
      | refused hlimit hadvance => exact hold hexit
      | counted hframes hadvanced hadvance hreaction =>
          rw [hreaction.keeps.2.2.1] at hexit
          cases hadvanced with
          | proceed hid hblocked logged => exact hold hexit
          | call hid hblocked routine => exact hold hexit
          | @ended fault stack =>
              simp only [hentry] at hexit
              split at hexit
              · next heq =>
                  refine ⟨n, by omega, ⟨_, fault, stack⟩, ?_, heq, Option.some.inj hexit⟩
                  rw [ending, hadvance]
              · exact hold hexit

end Kept

end Launch

/-! ### The books and the stack -/

namespace Bridge

/-- Whether an invocation waits for the frame `id` whose end is to resume the task `t`. -/
def resumedBy (b : Bridge σ) (id : FrameId) (t : TaskId) : Bool :=
  b.table.entries.any fun e =>
    e.1 == id && decide ((b.futures.get e.2).waiting = some (.resume t))

/-- The table, the tasks, the futures and the queues say of the frame stack what is true of it. -/
structure BooksMatch (m : Machine) (b : Bridge σ) : Prop where
  frames_nodup : (m.frames.map (·.id)).Nodup
  /-- Every frame but the entry frame is pending, once. -/
  pending : b.table.frames = (m.frames.map (·.id)).reverse.filter (m.entry ≠ some ·)
  listed : ∀ x ∈ b.tasks, x.listed = true
  blocked : ∀ f ∈ m.frames, f.blocked = true ↔ ∃ x ∈ b.tasks, x.caller = f.id
  callers : b.tasks.Pairwise fun x y => x.id ≠ y.id ∧ x.caller ≠ y.caller
  /-- A task counts the frames that are to resume it. They stand above its caller, and there is at
  least one. -/
  outstanding : ∀ x ∈ b.tasks, ∃ above f below, m.frames = above ++ f :: below ∧ f.id = x.caller ∧
    x.outstanding = above.countP (fun g => b.resumedBy g.id x.id) ∧ 1 ≤ x.outstanding ∧
    ∀ g ∈ f :: below, b.resumedBy g.id x.id = false
  unresolved : ∀ e ∈ b.table.entries, b.futures.outcome? e.2 = none
  outbox : b.outbox = []
  completions : b.completions = []
  fatal : b.fatal = none

namespace Aligned

variable {keep : σ → Prop} {m : Machine} {b : Bridge σ}

/-- For a frame on the stack the table leads to its future. -/
theorem resumedBy_eq (h : Aligned keep m b) {f : Frame} (hf : f ∈ m.frames) (t : TaskId) :
    b.resumedBy f.id t = b.futures.resumes t f.id := by
  have hid : f.id ∈ m.frames.map (·.id) := List.mem_map_of_mem hf
  rw [Bool.eq_iff_iff, FutureStore.resumes_iff, resumedBy, h.ledger.entries, List.any_eq_true]
  simp only [Bool.and_eq_true, beq_iff_eq, decide_eq_true_iff]
  constructor
  · rintro ⟨e, he, heq, hwaiting⟩
    obtain ⟨id, -, htwo, rfl⟩ := mem_tabled.1 he
    cases heq
    exact ⟨htwo, hwaiting⟩
  · rintro ⟨htwo, hwaiting⟩
    exact ⟨_, mem_tabled.2 ⟨f.id, hid, htwo, rfl⟩, rfl, hwaiting⟩

theorem pending_eq (h : Aligned keep m b) :
    b.table.frames = (m.frames.map (·.id)).reverse.filter (m.entry ≠ some ·) := by
  have hfilter : (m.frames.map (·.id)).filter (2 ≤ ·) =
      (m.frames.map (·.id)).filter (m.entry ≠ some ·) := by
    refine List.filter_congr fun id hid => ?_
    have hone := (h.ledger.bounds id hid).1
    rw [h.entry, decide_eq_decide, ne_eq, Option.some_inj]
    exact ⟨fun htwo heq => absurd htwo (heq ▸ by decide), Nat.lt_of_le_of_ne hone⟩
  rw [PendingTable.frames, h.ledger.entries, tabled, List.map_map, List.filter_reverse, ← hfilter]
  exact List.map_id' _

/-- What a task waits for stands above its caller. -/
theorem outstanding_eq (h : Aligned keep m b) {x : Task σ} (hx : x ∈ b.tasks) :
    ∃ above f below, m.frames = above ++ f :: below ∧ f.id = x.caller ∧
      x.outstanding = above.countP (fun g => b.resumedBy g.id x.id) ∧ 1 ≤ x.outstanding ∧
      ∀ g ∈ f :: below, b.resumedBy g.id x.id = false := by
  obtain ⟨f, hf, hid⟩ := List.mem_map.1 (h.ledger.callers x hx)
  obtain ⟨above, below, hframes⟩ := List.append_of_mem hf
  have hdescending := h.ledger.descending
  rw [hframes, List.map_append, List.map_cons, List.pairwise_append, List.pairwise_cons]
    at hdescending
  have hsilent : ∀ g ∈ f :: below, b.resumedBy g.id x.id = false := by
    intro g hg
    have hmem : g ∈ m.frames := hframes ▸ List.mem_append_right _ hg
    rw [h.resumedBy_eq hmem, Bool.eq_false_iff]
    intro hresumes
    have hlt := h.ledger.above x hx g.id (List.mem_map_of_mem hmem) hresumes
    rw [← hid] at hlt
    rcases List.mem_cons.1 hg with rfl | hg
    · exact Nat.lt_irrefl _ hlt
    · exact Nat.lt_asymm hlt (hdescending.2.1.1 g.id (List.mem_map_of_mem hg))
  refine ⟨above, f, below, hframes, hid, ?_, h.waits x hx, hsilent⟩
  have hzero : (f :: below).countP (fun g => b.resumedBy g.id x.id) = 0 :=
    List.countP_eq_zero.2 fun g hg => by simp [hsilent g hg]
  have hcount : m.frames.countP (fun g => b.resumedBy g.id x.id) =
      m.frames.countP (fun g => b.futures.resumes x.id g.id) :=
    List.countP_congr fun g hg => by rw [h.resumedBy_eq hg]
  rw [h.ledger.outstanding x hx, List.countP_map, ← Nat.add_zero (above.countP _), ← hzero,
    ← List.countP_append, ← hframes, hcount]
  rfl

theorem booksMatch (h : Aligned keep m b) : BooksMatch m b where
  frames_nodup := h.ledger.descending.imp fun hlt => Nat.ne_of_gt hlt
  pending := h.pending_eq
  listed x hx := (h.ledger.rests x hx).listed
  blocked := h.blocked
  callers := h.ledger.distinct
  outstanding _ hx := h.outstanding_eq hx
  unresolved := by
    intro e he
    rw [h.ledger.entries] at he
    obtain ⟨id, hid, htwo, rfl⟩ := mem_tabled.1 he
    exact h.ledger.pending id hid htwo
  outbox := h.quiet.outbox
  completions := h.quiet.completions
  fatal := h.quiet.fatal

end Aligned

end Bridge

/-- In every state of every run of well-behaved routines the bridge's books match the frame stack. -/
theorem Launch.books_match_stack (c : Launch σ) (hc : c.registry.WellBehaved) (n : Nat) :
    Bridge.BooksMatch (c.after n).1 (c.after n).2 := by
  obtain ⟨keep, hkeep⟩ := hc
  exact (aligned_after hkeep n).booksMatch

/-- A program that calls `call_both`, whose two procedures are there. -/
def Launch.callBoth : Launch Builtin.Waiting where
  registry := Builtin.registry
  library := { programs := [⟨"call_a", [.push (.int 1)]⟩, ⟨"call_b", []⟩] }
  program := ⟨"main", [.native 13]⟩

theorem Launch.books_match_stack_callBoth :
    (callBoth.after 1).2.table.frames = [2] ∧
      Bridge.BooksMatch (callBoth.after 1).1 (callBoth.after 1).2 :=
  ⟨by decide, callBoth.books_match_stack Builtin.wellBehaved 1⟩

/-! ### The end of a run -/

namespace Launch

section Kept

variable {keep : σ → Prop} {c : Launch σ} (hkeep : c.registry.KeepsTo keep)

/-- A run that comes to an end does so with a step that finds no frame, or that fails. -/
theorem drain_after (c : Launch σ) (fuel k : Nat) {r : Except (Halt HookError) Unit} {m : Machine}
    {b : Bridge σ}
    (hdrain : (c.after k).1.drain Bridge.host fuel (c.after k).2 = (some r, m, b)) :
    ∃ n, c.after (n + 1) = (m, b) ∧
      (c.result n = .ok .done ∧ r = .ok () ∨ ∃ e, c.result n = .error e ∧ r = .error e) := by
  induction fuel generalizing k with
  | zero => cases hdrain
  | succ fuel ih =>
      have hsucc : c.after (k + 1) = ((c.after k).1.step Bridge.host (c.after k).2).2 := rfl
      rw [Machine.drain] at hdrain
      cases hstep : (c.after k).1.step Bridge.host (c.after k).2 with
      | mk result state =>
          have hresult : c.result k = result := congrArg Prod.fst hstep
          rw [hstep] at hdrain hsucc
          obtain ⟨m', b'⟩ := state
          cases result with
          | error e =>
              cases hdrain
              exact ⟨k, hsucc, .inr ⟨e, hresult, rfl⟩⟩
          | ok progress =>
              cases progress with
              | proceed =>
                  refine ih (k + 1) ?_
                  rw [hsucc]
                  exact hdrain
              | done =>
                  cases hdrain
                  exact ⟨k, hsucc, .inl ⟨hresult, rfl⟩⟩

include hkeep

/-- No step fails but by the step limit. -/
theorem result_cases (n : Nat) :
    c.result n = .ok .proceed ∨ c.result n = .ok .done ∨
      ∃ limit, c.limits.maxSteps = some limit ∧ c.result n = .error (.stepLimit limit) := by
  have hstepped := stepped_after hkeep n
  have hlimits := limits_after hkeep n
  generalize c.result n = r, (c.after (n + 1)).1 = m', (c.after (n + 1)).2 = b' at hstepped
  cases hstepped with
  | done hframes => exact .inr (.inl rfl)
  | refused hlimit hadvance => exact .inr (.inr ⟨_, hlimits ▸ hlimit, rfl⟩)
  | counted hframes hadvanced hadvance hreaction => exact .inl rfl

/-- A step is the last one only when no frame is left, and it changes nothing. -/
theorem frames_of_done {n : Nat} (hdone : c.result n = .ok .done) :
    (c.after (n + 1)).1.frames = [] := by
  have hstepped := stepped_after hkeep n
  generalize hr : c.result n = r, (c.after (n + 1)).1 = m', (c.after (n + 1)).2 = b' at hstepped
  rw [hdone] at hr
  cases hstepped with
  | done hframes => exact hframes
  | refused hlimit hadvance => cases hr
  | counted hframes hadvanced hadvance hreaction => cases hr

end Kept

end Launch

/-- Once no frame is left, nothing is. -/
theorem Bridge.Aligned.nothing_left {keep : σ → Prop} {m : Machine} {b : Bridge σ}
    (h : Aligned keep m b) (hframes : m.frames = []) :
    b.pending = 0 ∧ b.suspended = 0 ∧ b.outbox = [] ∧ b.completions = [] := by
  have hledger := h.ledger
  rw [hframes, List.map_nil] at hledger
  have htasks : b.tasks = [] := List.eq_nil_iff_forall_not_mem.2 fun x hx =>
    List.not_mem_nil (hledger.callers x hx)
  refine ⟨?_, ?_, h.quiet.outbox, h.quiet.completions⟩
  · rw [pending, PendingTable.size, hledger.entries]
    rfl
  · rw [suspended, htasks]
    rfl

/-- No step of a run of well-behaved routines fails but by the step limit. A run that ends and was not
stopped by the limit gives the outcome of its entry frame and leaves nothing behind. -/
theorem Launch.run_settles (c : Launch σ) (hc : c.registry.WellBehaved) :
    (∀ n, c.result n = .ok .proceed ∨ c.result n = .ok .done ∨
      ∃ limit, c.limits.maxSteps = some limit ∧ c.result n = .error (.stepLimit limit)) ∧
    ∀ fuel r m b, c.machine.run Bridge.host fuel c.bridge = (some r, m, b) →
      (∃ limit, c.limits.maxSteps = some limit ∧ r = .error (.stepLimit limit)) ∨
      ∃ n t, c.ending n = some t ∧ c.machine.entry = some t.frame ∧ r = .ok t.outcome ∧
        b.pending = 0 ∧ b.suspended = 0 ∧ m.frames = [] ∧ b.outbox = [] ∧ b.completions = [] := by
  obtain ⟨keep, hkeep⟩ := hc
  refine ⟨result_cases hkeep, fun fuel r m b hrun => ?_⟩
  rw [Machine.run] at hrun
  cases hdrain : c.machine.drain Bridge.host fuel c.bridge with
  | mk end? state =>
      obtain ⟨m', b'⟩ := state
      rw [hdrain] at hrun
      cases end? with
      | none => cases hrun
      | some ended =>
          obtain ⟨n, hafter, hlast⟩ := c.drain_after fuel 0 hdrain
          have haligned := aligned_after hkeep (n + 1)
          rcases hlast with ⟨hdone, rfl⟩ | ⟨e, herror, rfl⟩
          · have hframes := frames_of_done hkeep hdone
            rw [hafter] at haligned hframes
            obtain ⟨o, ho⟩ := Option.isSome_iff_exists.1 (haligned.exit.2 hframes)
            have hexit : (c.after (n + 1)).1.exit = some o := by
              rw [hafter]
              exact ho
            replace ho : m'.exit = some o := ho
            obtain ⟨k, -, t, hending, hentry, rfl⟩ := exit_after hkeep hexit
            simp only [ho] at hrun
            cases hrun
            obtain ⟨hpending, hsuspended, hqueues⟩ := haligned.nothing_left hframes
            exact .inr ⟨k, t, hending, hentry, rfl, hpending, hsuspended, hframes, hqueues⟩
          · cases hrun
            rcases result_cases hkeep n with hresult | hresult | ⟨limit, hlimit, hresult⟩
            · rw [hresult] at herror
              cases herror
            · rw [hresult] at herror
              cases herror
            · rw [hresult] at herror
              cases herror
              exact .inl ⟨limit, hlimit, rfl⟩

theorem Launch.run_settles_callBoth :
    (callBoth.machine.run Bridge.host 10 callBoth.bridge).1 = some (.ok (.returned none)) ∧
      (callBoth.machine.run Bridge.host 10 callBoth.bridge).2.2.pending = 0 := by
  have hrun : (callBoth.machine.run Bridge.host 10 callBoth.bridge).1 =
      some (.ok (.returned none)) := by rfl
  rcases (callBoth.run_settles Builtin.wellBehaved).2 10 (.ok (.returned none))
    (callBoth.machine.run Bridge.host 10 callBoth.bridge).2.1
    (callBoth.machine.run Bridge.host 10 callBoth.bridge).2.2 (by rw [← hrun]) with
    ⟨limit, hlimit, -⟩ | ⟨n, t, -, -, -, hpending, -⟩
  · cases hlimit
  · exact ⟨hrun, hpending⟩

end Reentrant
