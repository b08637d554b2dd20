import Mathlib.Data.Prod.Lex
import Reentrant.Proofs.CheckedRuns
import Reentrant.Proofs.DirectRefinement

/-!
Programs that only jump forwards come to an end. A handler may lie before the instruction that fails,
and procedures may call themselves, so neither the instruction pointer nor the depth of calls bounds a
run by itself. Within a frame the earliest instruction that can still be reached never moves back; it
stays where it is only while a handler is armed. Calls end where the frame limit is met.

The argument is about direct evaluation, and is carried over to the machine by the simulation.
-/

namespace Reentrant

/-! ### Forward programs -/

/-- Every jump and every handler leads past the instruction that names it, perhaps out of the code. -/
def Program.Forward (p : Program) : Prop :=
  ∀ i op target, p.code[i]? = some op → Frame.target? op = some target → i < target

def Library.Forward (l : Library) : Prop := ∀ p ∈ l.programs, p.Forward

theorem Program.forward_iff {p : Program} :
    p.Forward ↔ ∀ x ∈ p.code.zipIdx, ∀ target ∈ Frame.target? x.1, x.2 < target := by
  constructor
  · intro h x hx target htarget
    exact h x.2 x.1 target (List.mem_zipIdx_iff_getElem?.1 hx) htarget
  · intro h i op target hop htarget
    exact h (op, i) (List.mem_zipIdx_iff_getElem?.2 hop) target htarget

instance (p : Program) : Decidable p.Forward := decidable_of_iff _ Program.forward_iff.symm

instance (l : Library) : Decidable l.Forward := inferInstanceAs (Decidable (∀ p ∈ l.programs, _))

namespace Frame

/-! ### Rank -/

/-- The earliest instruction that can still be reached, handler included. -/
def lowest (f : Frame) : Nat := f.handler.elim f.ip (min f.ip)

/-- How much of a forward program is left: what can still be reached, then whether a handler is armed,
then what lies ahead. -/
def rank (f : Frame) : ℕ ×ₗ ℕ ×ₗ ℕ :=
  toLex (f.program.code.length - f.lowest,
    toLex (if f.handler.isSome then 1 else 0, f.program.code.length - f.ip))

/-- The frame has gone on, within its code, and has at most armed a handler further on. -/
structure GoesOn (f g : Frame) : Prop where
  program : g.program = f.program
  ip : f.ip < g.ip
  handler : g.handler = f.handler ∨ ∃ target, g.handler = some target ∧ f.ip < target

theorem GoesOn.rank_lt {f g : Frame} (h : f.GoesOn g) (hip : f.ip < f.program.code.length) :
    g.rank < f.rank := by
  have hgo := h.ip
  rw [rank, rank, h.program]
  apply Prod.Lex.toLex_lt_toLex.2
  rcases h.handler with hsame | ⟨target, harmed, hlater⟩
  · cases harmed : f.handler with
    | none =>
        apply Or.inl
        simp only [lowest, hsame, harmed, Option.elim_none]
        omega
    | some target =>
        simp only [lowest, hsame, harmed, Option.elim_some]
        by_cases hmoved : min f.ip target < min g.ip target
        · apply Or.inl
          omega
        · refine Or.inr ⟨by omega, Prod.Lex.toLex_lt_toLex.2 (Or.inr ⟨rfl, ?_⟩)⟩
          show f.program.code.length - g.ip < f.program.code.length - f.ip
          omega
  · -- the new handler lies ahead, so the instruction just executed is out of reach
    apply Or.inl
    have hlow : f.lowest ≤ f.ip := by
      rw [lowest]
      cases f.handler with
      | none => exact Nat.le_refl _
      | some target => exact Nat.min_le_left _ _
    simp only [lowest, harmed, Option.elim_some] at hlow ⊢
    omega

/-- A fault that is caught disarms the handler, and nothing before the handler was out of reach. -/
theorem caught_rank_lt {f g : Frame} {target : Nat} (harmed : f.handler = some target)
    (hprogram : g.program = f.program) (hip : g.ip = target) (hdisarmed : g.handler = none) :
    g.rank < f.rank := by
  rw [rank, rank, hprogram]
  apply Prod.Lex.toLex_lt_toLex.2
  simp only [lowest, harmed, hdisarmed, hip, Option.elim_none, Option.elim_some]
  by_cases hmoved : min f.ip target < target ∧ min f.ip target < f.program.code.length
  · apply Or.inl
    omega
  · refine Or.inr ⟨by omega, Prod.Lex.toLex_lt_toLex.2 (Or.inl ?_)⟩
    simp

/-! ### One instruction -/

theorem goesOn_withTop {f : Frame} {go : Frame → Value → Frame × Except Fault Flow}
    {f₀ : Frame} (hf : f₀.GoesOn f) (hgo : ∀ g v, f₀.GoesOn g → f₀.GoesOn (go g v).1) :
    f₀.GoesOn (f.withTop go).1 := by
  rw [withTop]
  cases f.stack with
  | nil => exact hf
  | cons v rest => exact hgo { f with stack := rest } v ⟨hf.program, hf.ip, hf.handler⟩

theorem goesOn_binary {f₀ f : Frame} (hf : f₀.GoesOn f)
    (combine : Value → Value → Except Fault Value) : f₀.GoesOn (f.binary combine).1 := by
  apply goesOn_withTop hf
  intro g b hg
  apply goesOn_withTop hg
  intro g a hg
  cases combine a b with
  | ok v => exact ⟨hg.program, hg.ip, hg.handler⟩
  | error e => exact hg

theorem goesOn_withTarget {f₀ f : Frame} (hf : f₀.GoesOn f) (target : Nat)
    {go : Frame × Except Fault Flow} (hgo : f₀.GoesOn go.1) :
    f₀.GoesOn (f.withTarget target go).1 := by
  rcases f.withTarget_eq target go with ⟨-, heq⟩ | ⟨-, heq⟩ <;> rw [heq]
  · exact hf
  · exact hgo

/-- An instruction of a forward program goes on, also where it fails. -/
theorem execute_goesOn {f : Frame} (hforward : f.program.Forward) {op : Op}
    (hop : f.program.code[f.ip]? = some op) :
    f.GoesOn (Frame.execute { f with ip := f.ip + 1 } op).1 := by
  have hnext : f.GoesOn { f with ip := f.ip + 1 } :=
    ⟨rfl, Nat.lt_succ_self f.ip, Or.inl rfl⟩
  have htarget : ∀ target, target? op = some target → f.ip < target :=
    fun target => hforward f.ip op target hop
  cases op with
  | push v => exact ⟨rfl, Nat.lt_succ_self f.ip, Or.inl rfl⟩
  | dup =>
      simp only [execute]
      split
      · exact hnext
      · exact ⟨rfl, Nat.lt_succ_self f.ip, Or.inl rfl⟩
  | pop | throw | log =>
      apply goesOn_withTop hnext
      intro g v hg
      exact hg
  | not =>
      apply goesOn_withTop hnext
      intro g v hg
      exact ⟨hg.program, hg.ip, hg.handler⟩
  | swap =>
      apply goesOn_withTop hnext
      intro g b hg
      apply goesOn_withTop hg
      intro g a hg
      exact ⟨hg.program, hg.ip, hg.handler⟩
  | add | sub | mul | div | eq => exact goesOn_binary hnext _
  | jump target => exact goesOn_withTarget hnext target ⟨rfl, htarget target rfl, Or.inl rfl⟩
  | jumpIf target =>
      apply goesOn_withTarget hnext
      apply goesOn_withTop hnext
      intro g v hg
      by_cases hv : v.truthy
      · simp only [hv, if_true]
        exact ⟨hg.program, htarget target rfl, hg.handler⟩
      · simp only [hv]
        exact hg
  | catchAt target =>
      exact goesOn_withTarget hnext target
        ⟨rfl, Nat.lt_succ_self f.ip, Or.inr ⟨target, rfl, htarget target rfl⟩⟩
  | native id | ret => exact hnext

end Frame

namespace Direct

/-! ### Enough fuel -/

/-- From some amount of fuel on there is a result, and always the same one. -/
def Settles {α : Type} (g : Nat → Option α) : Prop :=
  ∃ least a, ∀ fuel, least ≤ fuel → g fuel = some a

theorem settles_some {α : Type} (a : α) : Settles fun _ => some a := ⟨0, a, fun _ _ => rfl⟩

theorem Settles.bind {α β : Type} {g : Nat → Option α} {k : α → Nat → Option β} (hg : Settles g)
    (hk : ∀ a, Settles (k a)) : Settles fun fuel => (g fuel).bind fun a => k a fuel := by
  obtain ⟨least, a, hleast⟩ := hg
  obtain ⟨more, c, hmore⟩ := hk a
  refine ⟨max least more, c, fun fuel hfuel => ?_⟩
  have hboth := Nat.max_le.1 hfuel
  simp only [hleast fuel hboth.1, Option.bind_some, hmore fuel hboth.2]

/-- One piece of fuel is spent on the way. -/
theorem Settles.succ {α : Type} {g : Nat → Option α}
    (h : Settles fun fuel => g (fuel + 1)) : Settles g := by
  obtain ⟨least, a, hleast⟩ := h
  refine ⟨least + 1, a, fun fuel hfuel => ?_⟩
  obtain ⟨rest, rfl⟩ := Nat.exists_eq_add_of_le' hfuel
  exact hleast (rest + least) (Nat.le_add_left _ _)

/-! ### Calls that end -/

section Routines

variable {l : Library} {run : Nat → Program → World → Option (Outcome × World)}
  (hrun : ∀ p ∈ l.programs, ∀ w, Settles fun fuel => run fuel p w)

include hrun

theorem withProcedure_settles (name : String) (w : World)
    {k : Nat → Outcome → World → Option (DispatchResult × World)}
    (hk : ∀ o w, Settles fun fuel => k fuel o w) :
    Settles fun fuel => withProcedure l (run fuel) name w (k fuel) := by
  cases hget : l.get? name with
  | none =>
      simp only [withProcedure, hget]
      exact settles_some _
  | some p =>
      have hbind := (hrun p (Library.mem_of_get? hget) w).bind
        (k := fun r fuel => k fuel r.1 r.2) fun r => hk r.1 r.2
      refine cast (congrArg Settles (funext fun fuel => ?_)) hbind
      simp only [withProcedure, hget]
      cases run fuel p w <;> rfl

theorem withValue_settles (name : String) (w : World)
    {k : Nat → Option Value → World → Option (DispatchResult × World)}
    (hk : ∀ v w, Settles fun fuel => k fuel v w) :
    Settles fun fuel => withValue l (run fuel) name w (k fuel) := by
  apply withProcedure_settles hrun
  intro o w
  cases o with
  | returned v => exact hk v w
  | faulted fault => exact settles_some _

theorem perform_settles (c : Call) (w : World) :
    Settles fun fuel => perform l (run fuel) w c := by
  cases c with
  | print v => exact settles_some _
  | add a b => exact settles_some _
  | concat a b => exact settles_some _
  | invoke name =>
      apply withValue_settles hrun
      intro v w
      cases v <;> exact settles_some _
  | tryInvoke name =>
      apply withProcedure_settles hrun
      intro o w
      rcases o with (_ | v) | fault <;> exact settles_some _
  | sumThenReport => exact withValue_settles hrun "answer" w fun _ _ => settles_some _
  | callBoth =>
      apply withValue_settles hrun
      intro _ w
      exact withValue_settles hrun "call_b" w fun _ _ => settles_some _

/-- A native call ends if the procedures of the library do. -/
theorem native_settles (id : RoutineId) (stack : List Value) (w : World) :
    Settles fun fuel => native l (run fuel) id stack w := by
  rcases hcall : call id stack with ⟨fault | c, rest⟩
  · simp only [native, hcall]
    exact settles_some _
  · refine cast (congrArg Settles (funext fun fuel => ?_))
      ((perform_settles hrun c w).bind (k := fun r _ => some (r.1, rest, r.2)) fun _ =>
        settles_some _)
    simp only [native, hcall]
    cases perform l (run fuel) w c <;> rfl

end Routines

/-! ### Frames that end -/

section Frames

variable {l : Library} {maxFrames depth : Nat}

/-- The frame comes to an end from its next move on. -/
abbrev Ends (l : Library) (maxFrames depth : Nat) (mv : Move) : Prop :=
  Settles fun fuel => evaluate l maxFrames fuel depth mv

theorem ends_now (o : Outcome) (w : World) : Ends l maxFrames depth (.ends o w) :=
  ⟨0, (o, w), fun fuel _ => by cases fuel <;> rfl⟩

/-- A fault ends the frame, or is caught further back than where the frame now is. -/
theorem unwind_ends {g : Frame} (fault : Fault) (w : World)
    (hlower : ∀ g' : Frame, g'.program = g.program → g'.rank < g.rank →
      ∀ w, Ends l maxFrames depth (move g' w)) :
    Ends l maxFrames depth (unwind g fault w) := by
  rw [unwind]
  cases harmed : g.handler with
  | none => exact ends_now _ _
  | some target =>
      let caught : Frame := { g with handler := none, stack := [.str fault.message], ip := target }
      have hlt : caught.rank < g.rank := Frame.caught_rank_lt harmed rfl rfl rfl
      apply Settles.succ
      exact hlower caught rfl hlt w

/-- A frame of a forward program ends if the procedures that it calls do. -/
theorem move_ends
    (hdeeper : ∀ p ∈ l.programs, ∀ w, Ends l maxFrames (depth + 1) (enter maxFrames (depth + 1) p w))
    (f : Frame) (hforward : f.program.Forward) (w : World) :
    Ends l maxFrames depth (move f w) := by
  -- the induction is on what is left of the program, whatever operands the frame has
  induction hrank : f.rank using WellFoundedLT.induction generalizing f w with
  | ind rank ih =>
      subst hrank
      have hlower : ∀ g : Frame, g.program = f.program → g.rank < f.rank →
          ∀ w, Ends l maxFrames depth (move g w) :=
        fun g hprogram hlt w => ih g.rank hlt g (hprogram ▸ hforward) w rfl
      rw [move]
      cases hop : f.program.code[f.ip]? with
      | none => exact ends_now _ _
      | some op =>
          have hgoes := Frame.execute_goesOn hforward hop
          have hlt := hgoes.rank_lt (List.getElem?_eq_some_iff.1 hop).1
          dsimp only
          generalize Frame.execute { f with ip := f.ip + 1 } op = executed at hgoes hlt
          obtain ⟨g, result⟩ := executed
          have hbelow : ∀ g' : Frame, g'.program = g.program → g'.rank < g.rank →
              ∀ w, Ends l maxFrames depth (move g' w) :=
            fun g' hprogram hlt' => hlower g' (hprogram.trans hgoes.program) (hlt'.trans hlt)
          rcases result with fault | (_ | _ | id | v)
          · exact unwind_ends fault w hbelow
          · apply Settles.succ
            exact hlower g hgoes.program hlt w
          · exact ends_now _ _
          · -- a native call, then the frame goes on with its result
            have hcall : Settles fun fuel => native l (fun p w =>
                evaluate l maxFrames fuel (depth + 1) (enter maxFrames (depth + 1) p w))
                id g.stack w := native_settles hdeeper id g.stack w
            have hresume : ∀ (r : DispatchResult) stack w,
                Ends l maxFrames depth (resume { g with stack } w r) := by
              intro r stack w
              cases r with
              | void => exact hlower { g with stack } hgoes.program hlt w
              | value v => exact hlower { g with stack := v :: stack } hgoes.program hlt w
              | fault fault => exact unwind_ends fault w hbelow
            apply Settles.succ
            refine cast (congrArg Settles (funext fun fuel => ?_)) (hcall.bind
              (k := fun r fuel => evaluate l maxFrames fuel depth
                (resume { g with stack := r.2.1 } r.2.2 r.1)) fun r => hresume r.1 r.2.1 r.2.2)
            simp only [evaluate]
            cases native _ _ _ _ _ <;> rfl
          · apply Settles.succ
            exact hlower g hgoes.program hlt (w.log v)

/-- Procedures of a forward library end, whatever they call. -/
theorem enter_ends (hl : l.Forward) (maxFrames depth : Nat) :
    ∀ p ∈ l.programs, ∀ w, Ends l maxFrames depth (enter maxFrames depth p w) := by
  -- the induction is on the frames that may still be loaded
  induction hroom : maxFrames - depth generalizing depth with
  | zero =>
      intro p _ w
      rw [enter, if_pos (Nat.le_of_sub_eq_zero hroom)]
      exact ends_now _ _
  | succ room ih =>
      intro p hp w
      rw [enter, if_neg (by omega)]
      exact move_ends (ih (depth + 1) (by omega)) _ (hl p hp) w

end Frames

end Direct

/-! ### Runs that end -/

namespace Execution

/-- A run with a report is a run of the machine that ends with the reported outcome. -/
theorem run_of_report {l : Library} {p : Program} {settings : Settings} {fuel : Nat}
    {report : Report} {printed : List Value}
    (hrun : run l p settings fuel = (.ok report, printed)) :
    ∃ m b, (launch l p settings).machine.run Bridge.host fuel (launch l p settings).bridge =
      (some (.ok report.outcome), m, b) := by
  unfold run at hrun
  dsimp only at hrun
  split at hrun
  · cases hrun
  · cases hrun
  · next o m b hresult =>
      cases hrun
      exact ⟨m, b, hresult⟩

/-- Every run of a procedure of a forward library with the built-in routines and without a step limit
ends, and with an outcome. -/
theorem forward_run_ends (l : Library) (hl : l.Forward) (entry : String) {p : Program}
    (hp : l.get? entry = some p) (settings : Settings) (hsteps : settings.limits.maxSteps = none) :
    ∃ enough o m b, ∀ fuel, enough ≤ fuel →
      (launch l p settings).machine.run Bridge.host fuel (launch l p settings).bridge =
        (some (.ok o), m, b) := by
  have hlimits : settings.limits = { maxFrames := settings.limits.maxFrames } := by
    rw [← hsteps]
  obtain ⟨least, ⟨o, w⟩, hleast⟩ :=
    Direct.enter_ends hl settings.limits.maxFrames 0 p (Library.mem_of_get? hp) {}
  obtain ⟨enough, report, hreport, -⟩ :=
    Direct.execution_of_run hlimits (hleast least (Nat.le_refl _))
  obtain ⟨m, b, hrun⟩ := run_of_report hreport
  refine ⟨enough, report.outcome, m, b, fun fuel hfuel => ?_⟩
  obtain ⟨more, rfl⟩ := Nat.exists_eq_add_of_le hfuel
  have hends : ((launch l p settings).machine.run Bridge.host enough
      (launch l p settings).bridge).1 ≠ none := by
    rw [hrun]
    intro hnone
    cases hnone
  rw [Machine.run_add hends more, hrun]

/-- A procedure that calls itself until the frame limit is met, and goes back when that fails. -/
def recursing : Library :=
  { programs := [⟨"main", [.catchAt 1, .push (.str "main"), .native 10]⟩] }

theorem forward_run_ends_recursing :
    recursing.Forward ∧ ∃ enough o m b, ∀ fuel, enough ≤ fuel →
      (launch recursing ⟨"main", [.catchAt 1, .push (.str "main"), .native 10]⟩
          { limits := { maxFrames := 3 } }).machine.run Bridge.host fuel
        (launch recursing ⟨"main", [.catchAt 1, .push (.str "main"), .native 10]⟩
          { limits := { maxFrames := 3 } }).bridge = (some (.ok o), m, b) :=
  ⟨by decide, forward_run_ends recursing (by decide) "main" rfl { limits := { maxFrames := 3 } } rfl⟩

end Execution

end Reentrant
