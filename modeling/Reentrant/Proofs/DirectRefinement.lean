import Reentrant.Proofs.CallSimulation

/-!
Whole runs against direct evaluations. A run of a program with the built-in routines and without a
step limit ends exactly if the direct evaluation of the program does, with the same outcome, the same
log and the same printed lines.
-/

namespace Reentrant

/-! ### More fuel -/

theorem Machine.run_add {ω ε : Type} {h : Host ω ε} {fuel : Nat} {m : Machine} {w : ω}
    (hends : (m.run h fuel w).1 ≠ none) (more : Nat) :
    m.run h (fuel + more) w = m.run h fuel w := by
  rw [run] at hends
  cases hdrain : m.drain h fuel w with
  | mk end? state =>
      cases end? with
      | none =>
          rw [hdrain] at hends
          exact absurd rfl hends
      | some r => rw [run, run, drain_add hdrain more, hdrain]

/-- A run with a report was not given up. -/
theorem Execution.ended_of_report {l : Library} {p : Program} {settings : Settings} {fuel : Nat}
    {report : Report} {printed : List Value}
    (hrun : run l p settings fuel = (.ok report, printed)) :
    (run l p settings fuel).1 ≠ .error .unfinished := by
  rw [hrun]
  intro hunfinished
  cases hunfinished

/-- A run that was not given up is the same with more fuel. -/
theorem Execution.run_add {l : Library} {p : Program} {settings : Settings} {fuel : Nat}
    (hends : (run l p settings fuel).1 ≠ .error .unfinished) (more : Nat) :
    run l p settings (fuel + more) = run l p settings fuel := by
  rw [run] at hends
  have hrun : ((({ limits := settings.limits } : Machine).loadEntry p).2.run Bridge.host fuel
      (bridge l settings)).1 ≠ none := by
    intro hnone
    refine hends ?_
    generalize Machine.run _ _ _ _ = result at hnone
    obtain ⟨_, m, b⟩ := result
    cases hnone
    rfl
  rw [run, run, Machine.run_add hrun more]

/-- Two runs that were not given up are the same. -/
theorem Execution.run_unique {l : Library} {p : Program} {settings : Settings} {fuel more : Nat}
    (hfuel : (run l p settings fuel).1 ≠ .error .unfinished)
    (hmore : (run l p settings more).1 ≠ .error .unfinished) :
    run l p settings fuel = run l p settings more := by
  rw [← run_add hfuel more, Nat.add_comm, run_add hmore fuel]

namespace Direct

open Builtin (Waiting)

/-! ### Whole runs -/

/-- The end of the entry frame is the end of the run. -/
theorem drain_of_ends {l : Library} {maxFrames : Nat} {m : Machine} {b : Bridge Waiting}
    {o : Outcome} {w : World} (hstage : Stage l maxFrames m b)
    (hshows : Shows m b 1 [] (.ends o w)) :
    ∃ m' b', m.drain Bridge.host 2 b = (some (.ok ()), m', b') ∧ m'.exit = some o ∧
      World.of m' b' = w := by
  cases hshows with
  | @ends f t m₁ hframes hframe hadvance =>
      obtain ⟨m', b', hstep, hadvanced, hreaction, -⟩ := hstage.step hframes hadvance
      obtain ⟨hid, hnil, -, hlogged, hexit⟩ := hadvanced.of_ended
      rw [hstage.aligned.entry, ← hid, hframe, if_pos rfl] at hexit
      cases hreaction with
      | unheard htwo => exact absurd htwo (hframe ▸ by decide)
      | resumed htwo => exact absurd htwo (hframe ▸ by decide)
      | left =>
          have hdone : m₁.step Bridge.host (b.record (.frameTornDown t.frame t.faulted)) =
              (.ok .done, m₁, b.record (.frameTornDown t.frame t.faulted)) := by
            rw [Machine.step, Machine.advance, hnil]
          refine ⟨m₁, b.record (.frameTornDown t.frame t.faulted), ?_, hexit, ?_⟩
          · rw [Machine.drain, hstep]
            simp only [Machine.drain, hdone]
          · rw [World.of, World.of, hlogged]
            rfl

section Runs

variable {l : Library} {p : Program} {settings : Settings} {maxFrames : Nat}
  (hlimits : settings.limits = { maxFrames })

include hlimits

/-- The entry frame comes to the end that the direct evaluation of its program comes to. -/
theorem run_simulates (fuel : Nat) :
    Simulates l maxFrames fuel (({ limits := settings.limits } : Machine).loadEntry p).2
      (Execution.bridge l settings) 1 [] (run l maxFrames fuel p) := by
  let c : Launch Waiting :=
    { registry := Builtin.registry, library := l, limits := settings.limits,
      journal := settings.journal, program := p }
  have hstage : Stage l maxFrames c.machine c.bridge :=
    ⟨c.aligned_start Builtin.keepsTo, rfl, rfl, hlimits⟩
  have hshows := shows_enter (m := c.machine) c.bridge [] rfl hstage.maxSteps
  rw [hstage.maxFrames_eq] at hshows
  exact evaluate_simulates fuel hstage hshows

/-- Where the direct evaluation ends, the run does. -/
theorem execution_of_run {fuel : Nat} {o : Outcome} {w : World}
    (hrun : run l maxFrames fuel p = some (o, w)) :
    ∃ n report, Execution.run l p settings n = (.ok report, w.printed) ∧ report.outcome = o ∧
      report.logged = w.logged := by
  have hsimulates := run_simulates (p := p) (l := l) hlimits fuel
  rw [hrun] at hsimulates
  obtain ⟨n, m, b, hproceeds, hstage, -, hshows⟩ := hsimulates
  obtain ⟨m', b', hdrain, hexit, rfl⟩ := drain_of_ends hstage hshows
  let report : Report :=
    { outcome := o, logged := m'.logged.toList, events := b'.journal.events.toList, steps := m'.steps }
  refine ⟨n + 2, report, ?_, rfl, rfl⟩
  rw [Execution.run, Machine.run, hproceeds.drain, hdrain]
  simp only [hexit]
  rfl

/-- Where the direct evaluation gives up, so does the run. -/
theorem execution_of_run_none {fuel : Nat} (hrun : run l maxFrames fuel p = none) :
    (Execution.run l p settings fuel).1 = .error .unfinished := by
  have hsimulates := run_simulates (p := p) (l := l) hlimits fuel
  rw [hrun] at hsimulates
  cases hdrain : (({ limits := settings.limits } : Machine).loadEntry p).2.drain Bridge.host fuel
      (Execution.bridge l settings) with
  | mk end? state =>
      replace hsimulates : end? = none := (congrArg Prod.fst hdrain).symm.trans hsimulates
      subst hsimulates
      rw [Execution.run, Machine.run, hdrain]

/-- A run that was not given up is the one that the direct evaluation leads to. -/
theorem run_of_execution {fuel : Nat}
    (hends : (Execution.run l p settings fuel).1 ≠ .error .unfinished) :
    ∃ o w report, run l maxFrames fuel p = some (o, w) ∧
      Execution.run l p settings fuel = (.ok report, w.printed) ∧ report.outcome = o ∧
      report.logged = w.logged := by
  cases hrun : run l maxFrames fuel p with
  | none => exact absurd (execution_of_run_none hlimits hrun) hends
  | some result =>
      obtain ⟨o, w⟩ := result
      obtain ⟨n, report, hexecution, ho, hlogged⟩ := execution_of_run hlimits hrun
      have hsame := Execution.run_unique hends (Execution.ended_of_report hexecution)
      exact ⟨o, w, report, rfl, hsame.trans hexecution, ho, hlogged⟩

end Runs

/-- Execution refines direct calls: without a step limit a run of a program ends exactly if its direct
evaluation does, and both come to the same outcome, the same log and the same printed lines. A run
that does not end is given up; nothing else stops it. -/
theorem execution_refines_direct (l : Library) (p : Program) (maxFrames : Nat) (filter : String)
    (journal : Bool) :
    let settings : Settings := { filter, limits := { maxFrames }, journal }
    (∀ o w, (∃ fuel, run l maxFrames fuel p = some (o, w)) ↔
      ∃ fuel report, Execution.run l p settings fuel = (.ok report, w.printed) ∧
        report.outcome = o ∧ report.logged = w.logged) ∧
    ∀ fuel e printed, Execution.run l p settings fuel = (.error e, printed) → e = .unfinished := by
  intro settings
  have hlimits : settings.limits = { maxFrames } := rfl
  refine ⟨fun o w => ⟨?_, ?_⟩, ?_⟩
  · rintro ⟨fuel, hrun⟩
    exact execution_of_run hlimits hrun
  · rintro ⟨fuel, report, hexecution, rfl, hlogged⟩
    obtain ⟨o', w', report', hrun, hsame, rfl, hlogged'⟩ :=
      run_of_execution hlimits (Execution.ended_of_report hexecution)
    rw [hexecution] at hsame
    obtain ⟨hreport, hprinted⟩ := Prod.mk.inj hsame
    obtain rfl := Except.ok.inj hreport
    have hworld : w' = w := by
      cases w
      cases w'
      simp only at hprinted hlogged hlogged'
      rw [hprinted, ← hlogged, ← hlogged']
    exact ⟨fuel, hworld ▸ hrun⟩
  · intro fuel e printed hexecution
    refine Classical.byContradiction fun he => ?_
    have hends : (Execution.run l p settings fuel).1 ≠ .error .unfinished := by
      intro hunfinished
      rw [hexecution] at hunfinished
      exact he (Except.error.inj hunfinished)
    obtain ⟨o, w, report, -, hsame, -, -⟩ := run_of_execution hlimits hends
    rw [hexecution] at hsame
    cases hsame

/-- A procedure with a value, one that invokes what there is not, and one that invokes itself. -/
def invoking : Library where
  programs := [⟨"lost", [.push (.str "nobody"), .native 10]⟩, ⟨"loop", [.push (.str "loop"), .native 10]⟩,
    ⟨"seven", [.push (.int 7)]⟩]

def invoker (procedure : String) : Program := ⟨"main", [.push (.str procedure), .native 10]⟩

/-- What a run of `invoker procedure` comes to with room for three frames. -/
def InvokerEnds (procedure : String) (o : Outcome) : Prop :=
  ∃ fuel report, Execution.run invoking (invoker procedure) { filter := "", limits := { maxFrames := 3 } }
      fuel = (.ok report, []) ∧
    report.outcome = o ∧ report.logged = []

theorem execution_refines_direct_invoke :
    InvokerEnds "seven" (.returned (some (.int 7))) ∧
      InvokerEnds "lost" (.faulted ⟨"UNKNOWN_PROCEDURE", "no procedure named `nobody`"⟩) ∧
      InvokerEnds "loop" (.faulted ⟨"STACK_OVERFLOW", "more than 3 frames"⟩) := by
  have hends : ∀ procedure o, run invoking 3 12 (invoker procedure) = some (o, {}) →
      InvokerEnds procedure o := fun procedure o hrun =>
    ((execution_refines_direct invoking (invoker procedure) 3 "" false).1 o {}).1 ⟨12, hrun⟩
  have hlimit : "more than " ++ Decimal.text 3 ++ " frames" = "more than 3 frames" := by
    rw [Decimal.text, Decimal.ofNat]
    rfl
  exact ⟨hends _ _ rfl, hends _ _ rfl, hends _ _ (hlimit ▸ rfl)⟩

end Direct

end Reentrant
