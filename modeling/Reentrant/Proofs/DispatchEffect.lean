import Reentrant.Builtin
import Reentrant.Proofs.HostReaction

/-!
The exact effect of a native call that cannot suspend. Whatever happens to it, the call is granted, and
all that it changes is the calling frame, the journal and what the routine lets be seen.
-/

namespace Reentrant

variable {σ : Type}

/-! ### Operands and parameters -/

namespace Arguments

/-- Every operand is read at its parameter's shape. -/
def Converted : (ps : List Shape) → List Value → Arguments ps → Prop
  | [], [], _ => True
  | s :: ps, v :: vs, (x, xs) => s.read (some v) = .ok x ∧ Converted ps vs xs
  | _, _, _ => False

/-- The operand at `index` is the first that does not have its parameter's shape. -/
structure Misfit (ps : List Shape) (vs : List Value) (index : Nat) (e : ConversionError) : Prop where
  before : ∀ i < index, ∃ s v x, ps[i]? = some s ∧ vs[i]? = some v ∧ s.read (some v) = .ok x
  at_index : ∃ s v, ps[index]? = some s ∧ vs[index]? = some v ∧ s.read (some v) = .error e

theorem readFrom_eq_ok {ps : List Shape} {vs : List Value} (hlength : vs.length = ps.length)
    {index : Nat} {xs : Arguments ps} : readFrom index ps vs = .ok xs ↔ Converted ps vs xs := by
  induction ps generalizing vs index with
  | nil =>
      cases vs with
      | nil => exact ⟨fun _ => trivial, fun _ => rfl⟩
      | cons v vs => cases hlength
  | cons s ps ih =>
      cases vs with
      | nil => cases hlength
      | cons v vs =>
          obtain ⟨x, xs⟩ := xs
          rw [readFrom, List.headD_cons, List.tail_cons, Converted]
          cases hread : s.read (some v) with
          | error e => simp
          | ok y =>
              have hrest : readFrom (index + 1) ps vs = .ok xs ↔ Converted ps vs xs :=
                ih (Nat.succ.inj hlength)
              simp only
              rw [← hrest]
              cases readFrom (index + 1) ps vs <;> simp

theorem readFrom_eq_error {ps : List Shape} {vs : List Value} (hlength : vs.length = ps.length)
    {index found : Nat} {e : ConversionError} :
    readFrom index ps vs = .error (found, e) ↔ ∃ i, found = index + i ∧ Misfit ps vs i e := by
  induction ps generalizing vs index with
  | nil =>
      refine ⟨fun h => (by cases h), fun ⟨i, _, hmisfit⟩ => ?_⟩
      obtain ⟨s, v, hs, -⟩ := hmisfit.at_index
      cases hs
  | cons s ps ih =>
      cases vs with
      | nil => cases hlength
      | cons v vs =>
          rw [readFrom, List.headD_cons, List.tail_cons]
          cases hread : s.read (some v) with
          | error e' =>
              simp only [Except.error.injEq, Prod.mk.injEq]
              constructor
              · rintro ⟨rfl, rfl⟩
                exact ⟨0, rfl, fun i hi => absurd hi (Nat.not_lt_zero i), s, v, rfl, rfl, hread⟩
              · rintro ⟨i, rfl, hbefore, s', v', hs, hv, herror⟩
                cases i with
                | zero =>
                    cases hs
                    cases hv
                    rw [hread] at herror
                    exact ⟨rfl, Except.error.inj herror⟩
                | succ i =>
                    obtain ⟨s'', v'', x, hs, hv, hok⟩ := hbefore 0 (Nat.succ_pos i)
                    cases hs
                    cases hv
                    rw [hread] at hok
                    cases hok
          | ok y =>
              have hrest : (∃ i, found = index + 1 + i ∧ Misfit ps vs i e) ↔
                  ∃ i, found = index + i ∧ Misfit (s :: ps) (v :: vs) i e := by
                constructor
                · rintro ⟨i, rfl, hbefore, hat⟩
                  refine ⟨i + 1, by omega, fun j hj => ?_, hat⟩
                  cases j with
                  | zero => exact ⟨s, v, y, rfl, rfl, hread⟩
                  | succ j => exact hbefore j (Nat.lt_of_succ_lt_succ hj)
                · rintro ⟨i, rfl, hbefore, s', v', hs, hv, herror⟩
                  cases i with
                  | zero =>
                      cases hs
                      cases hv
                      rw [hread] at herror
                      cases herror
                  | succ i =>
                      exact ⟨i, by omega, fun j hj => hbefore (j + 1) (Nat.succ_lt_succ hj), s', v', hs,
                        hv, herror⟩
              rw [← hrest, ← ih (Nat.succ.inj hlength)]
              cases hrest : readFrom (index + 1) ps vs <;> simp

theorem read_eq_ok {ps : List Shape} {vs : List Value} (hlength : vs.length = ps.length)
    {xs : Arguments ps} : read ps vs = .ok xs ↔ Converted ps vs xs := by
  rw [read, if_pos hlength, readFrom_eq_ok hlength]

theorem read_eq_error {ps : List Shape} {vs : List Value} (hlength : vs.length = ps.length)
    {index : Nat} {e : ConversionError} : read ps vs = .error (index, e) ↔ Misfit ps vs index e := by
  rw [read, if_pos hlength, readFrom_eq_error hlength]
  simp

end Arguments

/-! ### What a call comes to -/

/-- What a result pushes onto the calling frame. -/
def DispatchResult.pushed : DispatchResult → List Value
  | .value v => [v]
  | _ => []

/-- The fault that a result raises on the calling frame. -/
def DispatchResult.fault? : DispatchResult → Option Fault
  | .fault f => some f
  | _ => none

namespace Registry

/-- The routine `r` of that number is synchronous, its operands `args`, the last of them on top, lie
above `rest`, they have the shapes of its parameters, and it has run with that outcome. -/
structure Ran (g : Registry σ) (id : RoutineId) (stack : List Value) (r : Routine σ)
    (rest : List Value) (outcome : List Note × Except RoutineError DispatchResult) : Prop where
  registered : g.get? id = some r
  ran : ∃ run args xs, r.body = .sync run ∧ stack = args.reverse ++ rest ∧ args.length = r.arity ∧
    Arguments.Converted r.params args xs ∧ outcome = run xs

/-- All that a native call of `id` can come to on a frame with operands `stack`, the top first: what it
leaves of them, its result, and what its routine lets be seen. -/
inductive Effect (g : Registry σ) (id : RoutineId) (stack : List Value) :
    (rest : List Value) → DispatchResult → List Note → Prop where
  | unregistered (hget : g.get? id = none) :
      Effect g id stack stack (.fault ⟨Fault.unknownRoutine,
        "no native routine registered for #" ++ Decimal.text id.toNat⟩) []
  | tooFew {r : Routine σ} (hget : g.get? id = some r) (hfew : stack.length < r.arity) :
      Effect g id stack [] (.fault ⟨Fault.argumentConversion,
        "`" ++ r.name ++ "` takes " ++ Decimal.text r.arity ++ " arguments, found " ++
          Decimal.text stack.length ++ " on the stack"⟩) []
  | misfit {r : Routine σ} {args rest : List Value} {index : Nat} {e : ConversionError}
      (hget : g.get? id = some r) (hstack : stack = args.reverse ++ rest)
      (hlength : args.length = r.arity) (hmisfit : Arguments.Misfit r.params args index e) :
      Effect g id stack rest (.fault ⟨Fault.argumentConversion,
        "argument " ++ Decimal.text index ++ " of `" ++ r.name ++ "`: " ++ e.message⟩) []
  | passedOn {r : Routine σ} {rest : List Value} {notes : List Note} {f : Fault}
      (hran : g.Ran id stack r rest (notes, .error (.interpreter f))) :
      Effect g id stack rest (.fault f) notes
  | failed {r : Routine σ} {rest : List Value} {notes : List Note} {e : RoutineError}
      (hran : g.Ran id stack r rest (notes, .error e)) (he : ∀ f, e ≠ .interpreter f) :
      Effect g id stack rest (.fault ⟨Fault.routineFailure,
        "`" ++ r.name ++ "` failed: " ++ e.fullMessage⟩) notes
  | returned {r : Routine σ} {rest : List Value} {notes : List Note} {result : DispatchResult}
      (hran : g.Ran id stack r rest (notes, .ok result)) :
      Effect g id stack rest result notes

variable {g : Registry σ} {id : RoutineId} {stack rest : List Value}

/-- The operands of a call, the last of them on top. -/
theorem take_drop_of_eq {args : List Value} {n : Nat} (hstack : stack = args.reverse ++ rest)
    (hlength : args.length = n) : (stack.take n).reverse = args ∧ stack.drop n = rest := by
  subst hstack hlength
  rw [← List.length_reverse, List.take_left, List.drop_left, List.reverse_reverse]
  exact ⟨rfl, rfl⟩

theorem intake_of_ran {r : Routine σ} {notes : List Note}
    {result : Except RoutineError DispatchResult} (h : g.Ran id stack r rest (notes, result)) :
    g.intake id stack = (.settled (Bridge.deliverable r.name result) notes 0, rest) := by
  obtain ⟨hget, run, args, xs, hbody, hstack, hlength, hxs, hrun⟩ := h
  obtain ⟨htake, hdrop⟩ := take_drop_of_eq hstack hlength
  have hfew : ¬stack.length < r.arity := by
    rw [hstack, List.length_append, List.length_reverse]
    omega
  simp only [intake, hget, if_neg hfew, htake, hdrop, Routine.intake, hbody,
    (Arguments.read_eq_ok hlength).2 hxs, ← hrun]

/-- Each effect is what the call comes to. -/
theorem Effect.intake_eq {result : DispatchResult} {notes : List Note}
    (h : g.Effect id stack rest result notes)
    (hsync : ∀ r, g.get? id = some r → r.mode = .sync) :
    g.intake id stack = (.settled result notes 0, rest) := by
  cases h with
  | unregistered hget =>
      simp only [intake, hget]
      rfl
  | tooFew hget hfew =>
      simp only [intake, hget, if_pos hfew]
      rfl
  | misfit hget hstack hlength hmisfit =>
      rename_i r args index e
      obtain ⟨htake, hdrop⟩ := take_drop_of_eq hstack hlength
      have hfew : ¬stack.length < r.arity := by
        rw [hstack, List.length_append, List.length_reverse]
        omega
      have hmode := hsync r hget
      cases hbody : r.body with
      | suspending start => simp [Routine.mode, hbody] at hmode
      | sync run =>
          simp only [intake, hget, if_neg hfew, htake, hdrop, Routine.intake, hbody,
            (Arguments.read_eq_error hlength).2 hmisfit]
          rfl
  | passedOn hran => exact intake_of_ran hran
  | failed hran he =>
      rename_i r e
      rw [intake_of_ran hran, Bridge.deliverable]
      cases e with
      | interpreter f => exact absurd rfl (he f)
      | conversion e => rfl
      | host message contexts => rfl
  | returned hran => exact intake_of_ran hran

/-- Every call has an effect. -/
theorem exists_effect (hsync : ∀ r, g.get? id = some r → r.mode = .sync) (stack : List Value) :
    ∃ rest result notes, g.Effect id stack rest result notes := by
  cases hget : g.get? id with
  | none => exact ⟨_, _, _, .unregistered hget⟩
  | some r =>
      by_cases hfew : stack.length < r.arity
      · exact ⟨_, _, _, .tooFew hget hfew⟩
      · have hstack : stack = (stack.take r.arity).reverse.reverse ++ stack.drop r.arity := by
          rw [List.reverse_reverse, List.take_append_drop]
        have hlength : (stack.take r.arity).reverse.length = r.arity := by
          rw [List.length_reverse, List.length_take]
          omega
        cases hread : Arguments.read r.params (stack.take r.arity).reverse with
        | error failure =>
            exact ⟨_, _, _, .misfit hget hstack hlength ((Arguments.read_eq_error hlength).1 hread)⟩
        | ok xs =>
            have hmode := hsync r hget
            cases hbody : r.body with
            | suspending start => simp [Routine.mode, hbody] at hmode
            | sync run =>
                have hran : g.Ran id stack r (stack.drop r.arity) (run xs) :=
                  ⟨hget, run, _, xs, hbody, hstack, hlength, (Arguments.read_eq_ok hlength).1 hread, rfl⟩
                generalize run xs = outcome at hran
                obtain ⟨notes, result⟩ := outcome
                cases result with
                | ok result => exact ⟨_, _, _, .returned hran⟩
                | error e =>
                    cases e with
                    | interpreter f => exact ⟨_, _, _, .passedOn hran⟩
                    | conversion e => exact ⟨_, _, _, .failed hran fun _ h => by cases h⟩
                    | host message contexts => exact ⟨_, _, _, .failed hran fun _ h => by cases h⟩

/-- A call has one effect. -/
theorem Effect.unique (hsync : ∀ r, g.get? id = some r → r.mode = .sync) {rest' : List Value}
    {result result' : DispatchResult} {notes notes' : List Note}
    (h : g.Effect id stack rest result notes) (h' : g.Effect id stack rest' result' notes') :
    rest' = rest ∧ result' = result ∧ notes' = notes := by
  have heq := (h'.intake_eq hsync).symm.trans (h.intake_eq hsync)
  simp only [Prod.mk.injEq, Intake.settled.injEq, and_true] at heq
  exact ⟨heq.2, heq.1⟩

end Registry

namespace Bridge

/-- A native call that cannot suspend is granted. It has exactly one of the effects that such calls
have; the calling frame goes on with what that leaves of its operands, what its result pushes on them
and the fault that its result raises. Every other frame stays as it is, and so does the bridge but for
its journal and what the routine lets be seen. -/
theorem dispatch_effect {b : Bridge σ} (hquiet : b.Quiet) {m : Machine} {f : Frame}
    {below : List Frame} (hframes : m.frames = f :: below) (hids : (m.frames.map (·.id)).Nodup)
    (hpending : f.pendingFault = none) {id : RoutineId}
    (hsync : ∀ r, b.registry.get? id = some r → r.mode = .sync) :
    ∃ rest result notes, b.registry.Effect id f.stack rest result notes ∧
      (∀ rest' result' notes', b.registry.Effect id f.stack rest' result' notes' →
        rest' = rest ∧ result' = result ∧ notes' = notes) ∧
      dispatch id f.id m b =
        (.ok (),
          { m with frames :=
              { f with
                stack := result.pushed ++ rest
                pendingFault := result.fault?
                blocked := false } :: below },
          { b with
            journal := b.journal.recordAll (startEvents b.registry id f.id ++
              [.routineFinished f.id (b.routineName id) result])
            notes := b.notes ++ notes.toArray }) := by
  obtain ⟨rest, result, notes, heffect⟩ := Registry.exists_effect hsync f.stack
  have hbelow : ∀ g ∈ below, g.id ≠ f.id := by
    rw [hframes, List.map_cons, List.nodup_cons] at hids
    exact fun g hg hid => hids.1 (hid ▸ List.mem_map_of_mem hg)
  have hreceive : ({ f with stack := rest } : Frame).receive result =
      { f with stack := result.pushed ++ rest, pendingFault := result.fault?, blocked := false } := by
    cases result <;> simp [Frame.receive, DispatchResult.pushed, DispatchResult.fault?, hpending]
  refine ⟨rest, result, notes, heffect, fun _ _ _ h => heffect.unique hsync h, ?_⟩
  rw [dispatch_settled hquiet hframes hbelow (heffect.intake_eq hsync), hreceive]
  rfl

/-- A caller whose second operand is no integer: the addition is not run, the fault names the
parameter, and the operand below the two stays. -/
theorem dispatch_effect_add :
    ∃ b', dispatch 2 1
        { frames := [{ id := 1, program := ⟨"main", []⟩, stack := [.str "x", .int 1, .null] }]
          nextFrame := 2 }
        ({ registry := Builtin.registry } : Bridge Builtin.Waiting) =
      (.ok (),
        { frames :=
            [{ id := 1, program := ⟨"main", []⟩, stack := [.null]
               pendingFault := some ⟨Fault.argumentConversion,
                "argument 1 of `add`: expected int, found str"⟩ }]
          nextFrame := 2 }, b') := by
  have hsync : ∀ r, Builtin.registry.get? 2 = some r → r.mode = .sync := by
    intro r hget
    cases hget
    rfl
  obtain ⟨rest, result, notes, -, hunique, hdispatch⟩ :=
    dispatch_effect (b := { registry := Builtin.registry }) ⟨rfl, rfl, rfl⟩
      (m := { frames := [{ id := 1, program := ⟨"main", []⟩, stack := [.str "x", .int 1, .null] }]
              nextFrame := 2 }) rfl (by decide) rfl hsync
  have hmisfit : Arguments.Misfit [.int, .int] [.int 1, .str "x"] 1 (.mismatch "int" .str) := by
    refine ⟨fun i hi => ?_, .int, .str "x", rfl, rfl, rfl⟩
    obtain rfl : i = 0 := by omega
    exact ⟨.int, .int 1, 1, rfl, rfl, rfl⟩
  obtain ⟨rfl, rfl, rfl⟩ := hunique _ _ _ (.misfit rfl rfl rfl hmisfit)
  have hmessage : "argument " ++ Decimal.text 1 ++ " of `" ++ "add" ++ "`: " ++
      (ConversionError.mismatch "int" .str).message =
        "argument 1 of `add`: expected int, found str" := by
    decide +kernel
  rw [← hmessage]
  exact ⟨_, hdispatch⟩

end Bridge

end Reentrant
