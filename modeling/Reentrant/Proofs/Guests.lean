import Reentrant.Proofs.Lifecycle
import Reentrant.Session

/-!
The hosts of this library are guests: the bridge and scripted hooks change a machine by access alone.
So a machine with one of them is as the facts of its life have it, whatever is done to it.
-/

namespace Reentrant

/-! ### What access leads to -/

/-- Access leads from `m` to `m'`. -/
def Machine.Leads (m m' : Machine) : Prop := ∃ as, m' = m.accessAll as

namespace Machine.Leads

variable {m m₁ m₂ : Machine}

theorem refl (m : Machine) : m.Leads m := ⟨[], rfl⟩

theorem of_access (a : Access) : m.Leads (m.access a) := ⟨[a], rfl⟩

theorem trans (h : m.Leads m₁) (h' : m₁.Leads m₂) : m.Leads m₂ := by
  obtain ⟨as, rfl⟩ := h
  obtain ⟨bs, rfl⟩ := h'
  exact ⟨as ++ bs, List.foldl_append.symm⟩

/-- An access that is granted is one. -/
theorem of_granted (a : Access) {r : Except AccessError Machine} (ha : m.access a = m.granted r)
    (hr : r = .ok m₁) : m.Leads m₁ := by
  have h := of_access (m := m) a
  rw [ha, hr] at h
  exact h

end Machine.Leads

section Hosts

variable {ω ε : Type}

theorem Guest.enact_eq {m : Machine} {r : Except ε Unit × Machine × ω} {as : List Access}
    (h : r.2.1 = m.accessAll as) : Guest.enact m (as, r.1, r.2.2) = r := by
  rw [Guest.enact, ← h]

/-- A host whose hooks change the machine by access alone. -/
structure Host.ByAccess (h : Host ω ε) : Prop where
  native : ∀ hook, h.onNative = some hook → ∀ id caller (m : Machine) w,
    m.Leads (hook id caller m w).2.1
  teardown : ∀ hook, h.onTeardown = some hook → ∀ t (m : Machine) w, m.Leads (hook t m w).2.1

/-- Such a host is a guest. -/
theorem Host.ByAccess.exists_guest {h : Host ω ε} (hh : h.ByAccess) : ∃ g : Guest ω ε, g.host = h := by
  have hnative : ∃ g : Guest ω ε, g.host.onNative = h.onNative := by
    cases hhook : h.onNative with
    | none => exact ⟨{}, rfl⟩
    | some hook =>
        choose as has using hh.native hook hhook
        refine ⟨{ onNative := some fun id caller m w =>
          (as id caller m w, (hook id caller m w).1, (hook id caller m w).2.2) }, ?_⟩
        refine congrArg some ?_
        funext id caller m w
        exact Guest.enact_eq (has id caller m w)
  have hteardown : ∃ g : Guest ω ε, g.host.onTeardown = h.onTeardown := by
    cases hhook : h.onTeardown with
    | none => exact ⟨{}, rfl⟩
    | some hook =>
        choose as has using hh.teardown hook hhook
        refine ⟨{ onTeardown := some fun t m w =>
          (as t m w, (hook t m w).1, (hook t m w).2.2) }, ?_⟩
        refine congrArg some ?_
        funext t m w
        exact Guest.enact_eq (has t m w)
  obtain ⟨g₁, hnative⟩ := hnative
  obtain ⟨g₂, hteardown⟩ := hteardown
  exact ⟨⟨g₁.onNative, g₂.onTeardown⟩, congrArg₂ Host.mk hnative hteardown⟩

/-- Whatever is done to a machine with such a host, the machine is as the facts of its life have it. -/
theorem Host.ByAccess.lives {h : Host ω ε} (hh : h.ByAccess) (l : Limits) (w : ω)
    (ops : List Operation) :
    ∃ past, Lives (ops.foldl (Operation.perform h) ({ limits := l }, w)).1 past := by
  obtain ⟨g, rfl⟩ := hh.exists_guest
  refine ⟨(Watched.after g l w ops).past, ?_⟩
  rw [← Watched.after_bare]
  exact (Watched.after_kept l w ops).toLives

end Hosts

/-! ### Scripted hooks -/

namespace Session

open Machine (Leads)

theorem Action.run_leads (l : Library) (self : FrameId) (m : Machine) (log : HookLog) (a : Action) :
    m.Leads (a.run l self m log).2.1 := by
  have hgranted : ∀ (a : Access) r, m.access a = m.granted r →
      m.Leads (Action.onMachine r m log).2.1 := by
    intro a r ha
    cases r with
    | ok m' => exact .of_granted a ha rfl
    | error e => exact .refl m
  cases a with
  | push v => exact hgranted (.push v) _ rfl
  | pushTo frame v => exact hgranted (.pushTo (frame.getD self) v) _ rfl
  | pop => exact .of_access .pop
  | raise frame fault => exact hgranted (.raise (frame.getD self) fault) _ rfl
  | block frame => exact hgranted (.block (frame.getD self)) _ rfl
  | unblock frame => exact hgranted (.unblock (frame.getD self)) _ rfl
  | abort => exact .of_access .abort
  | fail message => exact .refl m
  | load program =>
      rw [Action.run]
      cases l.get? program with
      | none => exact .refl m
      | some p => exact .of_access (.load p)

theorem Action.runAll_leads (l : Library) (self : FrameId) (as : List Action) (m : Machine)
    (log : HookLog) : m.Leads (Action.runAll l self as m log).2.1 := by
  induction as generalizing m log with
  | nil => exact .refl m
  | cons a as ih =>
      have hfirst := Action.run_leads l self m log a
      rw [Action.runAll]
      generalize a.run l self m log = r at hfirst ⊢
      rcases r with ⟨_ | _, m', log'⟩
      · exact hfirst
      · exact hfirst.trans (ih m' log')

theorem Hooks.byAccess (h : Hooks) (l : Library) : (h.host l).ByAccess where
  native hook hhook id caller m log := by
    obtain ⟨table, -, rfl⟩ := Option.map_eq_some_iff.1 hhook
    exact Action.runAll_leads l caller _ m _
  teardown hook hhook t m log := by
    obtain ⟨table, -, rfl⟩ := Option.map_eq_some_iff.1 hhook
    exact Action.runAll_leads l t.frame _ m _

/-- A machine under scripted hooks is as the facts of its life have it. -/
theorem Hooks.lives (h : Hooks) (l : Library) (limits : Limits) (log : HookLog) (ops : List Operation) :
    ∃ past, Lives (ops.foldl (Operation.perform (h.host l)) ({ limits }, log)).1 past :=
  (h.byAccess l).lives limits log ops

end Session

/-! ### The bridge -/

namespace Bridge

open Machine (Leads)

variable {σ : Type}

theorem loadAll_leads (is : List Invocation) (m : Machine) (b : Bridge σ) :
    m.Leads (loadAll is m b).2.1 := by
  induction is generalizing m b with
  | nil => exact .refl m
  | cons i is ih =>
      have hload : m.Leads (m.load i.program).2 := .of_access (.load i.program)
      rw [loadAll]
      dsimp only
      cases PendingTable.insert _ _ _ with
      | error e => exact hload
      | ok table => exact hload.trans (ih _ _)

theorem deliver_leads {c : Completion} {m m' : Machine} (h : deliver c m = .ok m') : m.Leads m' := by
  rw [deliver] at h
  cases hunblock : m.unblock c.caller with
  | error e =>
      rw [hunblock] at h
      cases h
  | ok m₁ =>
      have hfirst : m.Leads m₁ := .of_granted (.unblock c.caller) rfl hunblock
      rw [hunblock] at h
      cases hresult : c.result with
      | void =>
          simp only [hresult] at h
          cases h
          exact hfirst
      | value v =>
          simp only [hresult] at h
          exact hfirst.trans (.of_granted (.pushTo c.caller v) rfl h)
      | fault fault =>
          simp only [hresult] at h
          exact hfirst.trans (.of_granted (.raise c.caller fault) rfl h)

theorem deliverAll_leads (cs : List Completion) (m : Machine) : m.Leads (deliverAll cs m).2 := by
  induction cs generalizing m with
  | nil => exact .refl m
  | cons c cs ih =>
      rw [deliverAll]
      cases hdeliver : deliver c m with
      | error e => exact .refl m
      | ok m' => exact (deliver_leads hdeliver).trans (ih m')

theorem flush_leads (m : Machine) (b : Bridge σ) : m.Leads (flush m b).2.1 := by
  rw [flush]
  cases b.fatal with
  | some e => exact .refl m
  | none =>
      have hloads := loadAll_leads b.outbox m { b with outbox := [], fatal := none }
      dsimp only at hloads ⊢
      generalize loadAll b.outbox m _ = r at hloads ⊢
      rcases r with ⟨_ | _, m', b'⟩
      · exact hloads
      · exact hloads.trans (deliverAll_leads b'.completions m')

theorem popArguments_leads (m : Machine) (n : Nat) : m.Leads (popArguments m n).2 := by
  have hgo : ∀ n taken (m : Machine), m.Leads (popArguments.go n taken m).2 := by
    intro n
    induction n with
    | zero => exact fun _ m => .refl m
    | succ n ih =>
        intro taken m
        have hpop : m.Leads m.pop.2 := .of_access .pop
        rw [popArguments.go]
        generalize m.pop = r at hpop ⊢
        rcases r with ⟨_ | v, m'⟩
        · exact hpop
        · exact hpop.trans (ih _ m')
  exact hgo n [] m

theorem call_leads (id : RoutineId) (caller : FrameId) (m : Machine) (b : Bridge σ) :
    m.Leads (call id caller m b).2.1 := by
  rw [call]
  cases b.registry.get? id with
  | none => exact .refl m
  | some r =>
      have hpops := popArguments_leads m r.arity
      dsimp only
      generalize popArguments m r.arity = args at hpops ⊢
      rcases args with ⟨_ | _, m'⟩ <;> exact hpops

theorem dispatch_leads (id : RoutineId) (caller : FrameId) (m : Machine) (b : Bridge σ) :
    m.Leads (dispatch id caller m b).2.1 := by
  have hcall := call_leads id caller m b
  rw [dispatch]
  generalize call id caller m b = r at hcall ⊢
  rcases r with ⟨e | _ | _, m₁, b₁⟩
  · exact hcall.trans (flush_leads m₁ _)
  · exact hcall.trans (flush_leads m₁ b₁)
  · dsimp only
    cases hblock : m₁.block caller with
    | error e => exact hcall
    | ok m₂ =>
        have hblocked : m₁.Leads m₂ := .of_granted (.block caller) rfl hblock
        exact (hcall.trans hblocked).trans (flush_leads m₂ b₁)

theorem complete_leads (t : Teardown) (m : Machine) (b : Bridge σ) :
    m.Leads (complete t m b).2.1 := by
  unfold complete
  dsimp only
  split
  · exact flush_leads m _
  · split
    · exact flush_leads m _
    · exact flush_leads m _

/-- The bridge changes a machine by access alone. -/
theorem byAccess : (host : Host (Bridge σ) HookError).ByAccess where
  native hook hhook id caller m b := by
    cases hhook
    exact dispatch_leads id caller m b
  teardown hook hhook t m b := by
    cases hhook
    exact complete_leads t m b

/-- A machine with the bridge is as the facts of its life have it. -/
theorem lives (l : Limits) (b : Bridge σ) (ops : List Operation) :
    ∃ past, Lives (ops.foldl (Operation.perform host) ({ limits := l }, b)).1 past :=
  byAccess.lives l b ops

end Bridge

end Reentrant
