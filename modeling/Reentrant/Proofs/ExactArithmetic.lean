import Reentrant.Proofs.DispatchEffect
import Reentrant.Proofs.ForeseenFaults

/-!
Arithmetic never wraps. An arithmetic instruction takes its two operands and either pushes the exact
result or faults, and the built-in routines that add and concatenate agree with the instruction on
every pair of operands that they share with it.
-/

namespace Reentrant

/-- The instructions that compute with two integers. -/
inductive Arithmetic where
  | add
  | sub
  | mul
  | div
  deriving DecidableEq

namespace Arithmetic

def op : Arithmetic → Op
  | .add => .add
  | .sub => .sub
  | .mul => .mul
  | .div => .div

def name : Arithmetic → String
  | .add => "add"
  | .sub => "sub"
  | .mul => "mul"
  | .div => "div"

/-- What the instruction makes of two values, the upper one second. -/
def combine : Arithmetic → Value → Value → Except Fault Value
  | .add => Op.sum
  | .sub => Op.difference
  | .mul => Op.product
  | .div => Op.quotient

/-- The result on integers of any size, a quotient truncated toward zero; nothing is divided by
zero. -/
def precise? : Arithmetic → Int → Int → Option Int
  | .add, x, y => some (x + y)
  | .sub, x, y => some (x - y)
  | .mul, x, y => some (x * y)
  | .div, x, y => if y = 0 then none else some (x.tdiv y)

/-- The value to be pushed: the exact result of two integers if it is one of 64 bits, and for `add` also
the concatenation of two strings. -/
inductive Gives : Arithmetic → Value → Value → Value → Prop where
  | exact {i : Arithmetic} {x y n : Int64} {z : Int} (hz : i.precise? x.toInt y.toInt = some z)
      (hrange : -Int.pow 2 63 ≤ z ∧ z < Int.pow 2 63) (hn : n.toInt = z) :
      Gives i (.int x) (.int y) (.int n)
  | joined (s t : String) : Gives .add (.str s) (.str t) (.str (s ++ t))

/-- The code of the fault if there is nothing to push. -/
def faultCode (i : Arithmetic) (a b : Value) : String :=
  if i = .div ∧ a.kind = .int ∧ b = .int 0 then Fault.divisionByZero else Fault.typeError

end Arithmetic

/-! ### What the instructions compute -/

theorem int64?_eq_some {z : Int} {n : Int64} :
    int64? z = some n ↔ (-Int.pow 2 63 ≤ z ∧ z < Int.pow 2 63) ∧ n.toInt = z := by
  constructor
  · intro h
    by_cases hrange : -Int.pow 2 63 ≤ z ∧ z < Int.pow 2 63
    · rw [int64?, if_pos hrange, Option.some.injEq] at h
      exact ⟨hrange, h ▸ Int64.toInt_ofInt_of_le hrange.1 hrange.2⟩
    · rw [int64?, if_neg hrange] at h
      cases h
  · rintro ⟨-, rfl⟩
    exact int64?_toInt n

theorem Op.exact_eq_ok {what : String} {z : Int} {v : Value} :
    Op.exact what z = .ok v ↔ ∃ n, int64? z = some n ∧ v = .int n := by
  rw [Op.exact]
  cases int64? z with
  | none => simp
  | some n => simp [eq_comm]

theorem Op.eq_of_exact_error {what : String} {z : Int} {e : Fault} (h : Op.exact what z = .error e) :
    e = .overflowIn what := by
  rw [Op.exact] at h
  split at h
  · cases h
  · exact (Except.error.inj h).symm

namespace Arithmetic

/-- Every instruction is its exact operation, checked for its range. -/
theorem combine_int (i : Arithmetic) (x y : Int64) :
    i.combine (.int x) (.int y) =
      match i.precise? x.toInt y.toInt with
      | some z => Op.exact i.name z
      | none => .error .zeroDivisor := by
  cases i with
  | add => rfl
  | sub => rfl
  | mul => rfl
  | div =>
      have hzero : y = 0 ↔ y.toInt = 0 := Int64.toInt_inj.symm
      by_cases hy : y = 0
      · simp [combine, Op.quotient, precise?, if_pos hy, if_pos (hzero.1 hy)]
      · simp [combine, Op.quotient, precise?, if_neg hy, if_neg (mt hzero.2 hy), name]

/-- Values of any other kinds are refused, but for the strings that `add` joins. -/
theorem combine_operands (i : Arithmetic) {a b : Value} (hint : ¬(a.kind = .int ∧ b.kind = .int))
    (hstr : ¬(i = .add ∧ a.kind = .str ∧ b.kind = .str)) :
    i.combine a b = .error (.operands i.name a b) := by
  cases i <;> cases a <;> cases b <;> first | rfl | simp [Value.kind] at hint hstr

/-- Two integers, two strings to be joined, or operands that are refused. -/
theorem operand_cases (i : Arithmetic) (a b : Value) :
    (∃ x y, a = .int x ∧ b = .int y) ∨ (∃ s t, i = .add ∧ a = .str s ∧ b = .str t) ∨
      ¬(a.kind = .int ∧ b.kind = .int) ∧ ¬(i = .add ∧ a.kind = .str ∧ b.kind = .str) := by
  cases i <;> cases a <;> cases b <;> simp [Value.kind]

theorem combine_eq_ok (i : Arithmetic) {a b v : Value} : i.combine a b = .ok v ↔ i.Gives a b v := by
  rcases i.operand_cases a b with ⟨x, y, rfl, rfl⟩ | ⟨s, t, rfl, rfl, rfl⟩ | ⟨hint, hstr⟩
  · rw [combine_int]
    constructor
    · intro h
      split at h
      · next z hz =>
        obtain ⟨n, hn, rfl⟩ := Op.exact_eq_ok.1 h
        obtain ⟨hrange, hn⟩ := int64?_eq_some.1 hn
        exact .exact hz hrange hn
      · cases h
    · intro h
      cases h with
      | exact hz hrange hn =>
          rw [hz]
          exact Op.exact_eq_ok.2 ⟨_, int64?_eq_some.2 ⟨hrange, hn⟩, rfl⟩
  · constructor
    · intro h
      cases h
      exact .joined s t
    · intro h
      cases h
      rfl
  · rw [combine_operands i hint hstr]
    refine ⟨fun h => (by cases h), fun h => ?_⟩
    cases h with
    | exact => exact absurd ⟨rfl, rfl⟩ hint
    | joined => exact absurd ⟨rfl, rfl, rfl⟩ hstr

theorem code_of_combine (i : Arithmetic) {a b : Value} {e : Fault} (h : i.combine a b = .error e) :
    e.code = i.faultCode a b := by
  rcases i.operand_cases a b with ⟨x, y, rfl, rfl⟩ | ⟨s, t, rfl, rfl, rfl⟩ | ⟨hint, hstr⟩
  · have hzero : i.precise? x.toInt y.toInt = none ↔ i = .div ∧ y = 0 := by
      rw [← Int64.toInt_inj]
      cases i <;> simp [precise?]
    rw [combine_int] at h
    split at h
    · next z hz =>
      rw [Op.eq_of_exact_error h, faultCode, if_neg]
      · rfl
      · rintro ⟨hdiv, -, hy⟩
        rw [hzero.2 ⟨hdiv, Value.int.inj hy⟩] at hz
        cases hz
    · next hnone =>
      obtain ⟨rfl, rfl⟩ := hzero.1 hnone
      cases h
      rfl
  · cases h
  · rw [combine_operands i hint hstr] at h
    cases h
    rw [faultCode, if_neg]
    · rfl
    · rintro ⟨-, ha, rfl⟩
      exact hint ⟨ha, rfl⟩

/-- The two operands are taken in any case. -/
theorem execute_op (i : Arithmetic) {f : Frame} {a b : Value} {rest : List Value}
    (hstack : f.stack = b :: a :: rest) :
    f.execute i.op =
      match i.combine a b with
      | .ok v => ({ f with stack := v :: rest }, .ok .next)
      | .error e => ({ f with stack := rest }, .error e) := by
  have hbinary : f.execute i.op = f.binary i.combine := by
    cases i <;> rfl
  rw [hbinary]
  cases hcombine : i.combine a b with
  | ok v => simp [Frame.binary, Frame.withTop, hstack, hcombine]
  | error e => simp [Frame.binary, Frame.withTop, hstack, hcombine]

end Arithmetic

/-! ### The step of an instruction on two operands -/

namespace Machine

variable {ω ε : Type}

/-- The next step is that of the instruction `op`, with `b` on top of `a` on top of `rest`. -/
structure Applies (m : Machine) (op : Op) (f : Frame) (below : List Frame) (a b : Value)
    (rest : List Value) : Prop where
  frames : m.frames = f :: below
  blocked : f.blocked = false
  pending : f.pendingFault = none
  limit : ∀ limit, m.limits.maxSteps = some limit → m.steps < limit
  instruction : f.program.code[f.ip]? = some op
  stack : f.stack = b :: a :: rest

/-- Where the step ends, given what became of the operands above `rest`. A fault goes to the frame's
handler; without one it ends the frame, and the host is told. -/
def concluded (h : Host ω ε) (m : Machine) (f : Frame) (below : List Frame) (rest : List Value)
    (w : ω) : Except Fault Value → Except (Halt ε) Progress × Machine × ω
  | .ok v =>
      (.ok .proceed,
        { m with
          steps := m.steps + 1
          frames := { f with ip := f.ip + 1, stack := v :: rest } :: below }, w)
  | .error e =>
      match f.handler with
      | some target =>
          (.ok .proceed,
            { m with
              steps := m.steps + 1
              frames := { f with ip := target, handler := none, stack := [.str e.message] } :: below },
            w)
      | none =>
          report h ⟨f.id, some e, rest⟩
            { m with
              steps := m.steps + 1
              frames := below
              lastFault := some e
              exit := if m.entry = some f.id then some (.faulted e) else m.exit } w

/-- What the machine makes of an executed instruction's result. -/
def executed (m : Machine) (f : Frame) : Except Fault Flow → Signal × Machine
  | .error fault => m.unwind fault
  | .ok .next => (.proceed, m)
  | .ok .ret => m.finish none
  | .ok (.native id) => (.call id f.id, m)
  | .ok (.log v) => (.proceed, { m with logged := m.logged.push v })

/-- An instruction is executed with the instruction pointer past it. -/
theorem Applies.advance_eq {m : Machine} {op : Op} {f : Frame} {below : List Frame} {a b : Value}
    {rest : List Value} (h : m.Applies op f below a b rest) {f' : Frame} {r : Except Fault Flow}
    (hexecute : ({ f with ip := f.ip + 1 } : Frame).execute op = (f', r)) :
    @advance ε m =
      (.ok (executed { m with steps := m.steps + 1, frames := f' :: below } f' r).1,
        (executed { m with steps := m.steps + 1, frames := f' :: below } f' r).2) := by
  rw [advance_of_ready h.frames h.blocked h.limit]
  obtain ⟨id, program, ip, stack, handler, pendingFault, blocked⟩ := f
  obtain rfl : pendingFault = none := h.pending
  have hop : program.code[ip]? = some op := h.instruction
  simp only [advanceFrame, hop, hexecute]
  rfl

theorem Applies.step_eq {m : Machine} {i : Arithmetic} {f : Frame} {below : List Frame} {a b : Value}
    {rest : List Value} (h : m.Applies i.op f below a b rest) (host : Host ω ε) (w : ω) :
    m.step host w = concluded host m f below rest w (i.combine a b) := by
  have hexecute := i.execute_op (f := { f with ip := f.ip + 1 }) h.stack
  unfold step
  cases hcombine : i.combine a b with
  | ok v =>
      rw [hcombine] at hexecute
      rw [h.advance_eq hexecute]
      rfl
  | error e =>
      rw [hcombine] at hexecute
      rw [h.advance_eq hexecute]
      unfold executed unwind concluded
      dsimp only
      cases f.handler <;> rfl

/-- The step of a native call, when the bridge is the host and the call is over at once. -/
theorem Applies.native_step {σ : Type} {m : Machine} {id : RoutineId} {f : Frame} {below : List Frame}
    {a b : Value} {rest : List Value} (h : m.Applies (.native id) f below a b rest)
    (hids : (m.frames.map (·.id)).Nodup) {bridge : Bridge σ} (hquiet : bridge.Quiet)
    {result : DispatchResult}
    (hintake : bridge.registry.intake id f.stack = (.settled result [] 0, rest)) :
    ∃ bridge', m.step Bridge.host bridge =
      (.ok .proceed,
        { m with
          steps := m.steps + 1
          frames := ({ f with ip := f.ip + 1, stack := rest } : Frame).receive result :: below },
        bridge') := by
  have hbelow : ∀ g ∈ below, g.id ≠ f.id := by
    rw [h.frames, List.map_cons, List.nodup_cons] at hids
    exact fun g hg hid => hids.1 (hid ▸ List.mem_map_of_mem hg)
  have hdispatch := Bridge.dispatch_settled hquiet
    (m := { m with steps := m.steps + 1, frames := { f with ip := f.ip + 1 } :: below })
    (f := { f with ip := f.ip + 1 }) rfl hbelow hintake
  refine ⟨bridge.taken id f.id result [] 0, ?_⟩
  unfold step
  rw [h.advance_eq rfl]
  exact congrArg (atSite (.native id)) hdispatch

end Machine

/-! ### The routines that add and concatenate -/

namespace Builtin

/-- Operands on which the routine of that name is to do what `add` does. -/
inductive Shares : String → Value → Value → Prop where
  | add (x y : Int64) : Shares "add" (.int x) (.int y)
  | concat (s t : String) : Shares "concat" (.str s) (.str t)

/-- Such a routine takes both operands and has a value exactly if `add` has, and then the same. -/
theorem ran_of_shares {σ : Type} {embed : Waiting → σ} {g : Registry σ} {r : Routine σ}
    (hr : r ∈ routines embed) (hget : g.get? r.id = some r) {a b : Value} (h : Shares r.name a b)
    (rest : List Value) :
    ∃ out : Except RoutineError Value,
      g.Ran r.id (b :: a :: rest) r rest ([], out.map .value) ∧
        ∀ v, out = .ok v ↔ Arithmetic.add.combine a b = .ok v := by
  obtain ⟨name, hname⟩ : ∃ name, name = r.name := ⟨_, rfl⟩
  rw [← hname] at h
  simp only [routines, List.mem_cons, List.not_mem_nil, or_false] at hr
  rcases hr with rfl | rfl | rfl | rfl | rfl | rfl | rfl <;> cases h <;> dsimp only at hname <;>
    try exact absurd hname (by decide)
  · next x y =>
    have hsum : Arithmetic.add.combine (.int x) (.int y) = Op.exact "add" (x.toInt + y.toInt) := rfl
    cases hexact : int64? (x.toInt + y.toInt) with
    | none =>
        refine ⟨.error (overflows x " + " y.toInt),
          ⟨hget, _, [.int x, .int y], (x, y, ()), rfl, rfl, rfl, ⟨rfl, rfl, trivial⟩, ?_⟩, fun v => ?_⟩
        · simp only [add, hexact]
          rfl
        · simp [hsum, Op.exact, hexact]
    | some n =>
        refine ⟨.ok (.int n),
          ⟨hget, _, [.int x, .int y], (x, y, ()), rfl, rfl, rfl, ⟨rfl, rfl, trivial⟩, ?_⟩, fun v => ?_⟩
        · simp only [add, hexact]
          rfl
        · simp [hsum, Op.exact, hexact]
  · next s t =>
    refine ⟨.ok (.str (s ++ t)),
      ⟨hget, _, [.str s, .str t], (s, t, ()), rfl, rfl, rfl, ⟨rfl, rfl, trivial⟩, rfl⟩, fun v => ?_⟩
    have hsum : Arithmetic.add.combine (.str s) (.str t) = .ok (.str (s ++ t)) := rfl
    simp [hsum]

end Builtin

/-- The frame after a routine that took its operands from above `rest`: a failure raises a fault that
the frame takes up at its next step. -/
def Frame.afterRoutine (f : Frame) (rest : List Value) : Except Fault Value → Frame
  | .ok v => { f with ip := f.ip + 1, stack := v :: rest }
  | .error e => { f with ip := f.ip + 1, stack := rest, pendingFault := some e }

theorem Frame.receive_deliverable {f : Frame} (hblocked : f.blocked = false)
    (hpending : f.pendingFault = none) (rest : List Value) (routine : String)
    (out : Except RoutineError Value) :
    ({ f with ip := f.ip + 1, stack := rest } : Frame).receive
        (Bridge.deliverable routine (out.map .value)) =
      f.afterRoutine rest (out.mapError fun e => (DispatchError.failed routine e).toFault) := by
  obtain ⟨id, program, ip, stack, handler, pendingFault, blocked⟩ := f
  obtain rfl : blocked = false := hblocked
  obtain rfl : pendingFault = none := hpending
  cases out <;> rfl

namespace Machine

/-- An arithmetic instruction takes the two values on top. It pushes what it is to give; if that is
nothing, it pushes nothing and faults: with a division by zero if an integer is to be divided by zero,
and else with a type error, as on every overflow. What lies below the two operands stays, and so do all
other frames. A built-in routine that shares its operands with `add` pushes exactly what `add` pushes,
and raises a fault if `add` faults. -/
theorem arithmetic_exact :
    (∀ (i : Arithmetic) (a b : Value),
      (∀ v, i.combine a b = .ok v ↔ i.Gives a b v) ∧
      (∀ e, i.combine a b = .error e → e.code = i.faultCode a b) ∧
      (∀ (f : Frame) (rest : List Value), f.stack = b :: a :: rest →
        f.execute i.op =
          match i.combine a b with
          | .ok v => ({ f with stack := v :: rest }, .ok .next)
          | .error e => ({ f with stack := rest }, .error e)) ∧
      ∀ {ω ε : Type} (host : Host ω ε) (w : ω) (m : Machine) (f : Frame) (below : List Frame)
        (rest : List Value), m.Applies i.op f below a b rest →
          m.step host w = concluded host m f below rest w (i.combine a b)) ∧
    ∀ {σ : Type} (embed : Builtin.Waiting → σ) (bridge : Bridge σ),
      (∀ r ∈ Builtin.routines embed, bridge.registry.get? r.id = some r) → bridge.Quiet →
      ∀ r ∈ Builtin.routines embed, ∀ a b, Builtin.Shares r.name a b →
      ∀ (m : Machine) (f : Frame) (below : List Frame) (rest : List Value),
        m.Applies (.native r.id) f below a b rest → (m.frames.map (·.id)).Nodup →
        ∃ (out : Except Fault Value) (bridge' : Bridge σ),
          m.step Bridge.host bridge =
            (.ok .proceed,
              { m with steps := m.steps + 1, frames := f.afterRoutine rest out :: below }, bridge') ∧
          ∀ v, out = .ok v ↔ Arithmetic.add.combine a b = .ok v := by
  refine ⟨fun i a b => ⟨fun v => i.combine_eq_ok, fun e => i.code_of_combine,
    fun f rest => i.execute_op, fun host w m f below rest h => h.step_eq host w⟩, ?_⟩
  intro σ embed bridge hbuiltin hquiet r hr a b hshares m f below rest h hids
  obtain ⟨out, hran, hout⟩ := Builtin.ran_of_shares hr (hbuiltin r hr) hshares rest
  have hintake := Registry.intake_of_ran hran
  rw [← h.stack] at hintake
  obtain ⟨bridge', hstep⟩ := h.native_step hids hquiet hintake
  refine ⟨out.mapError fun e => (DispatchError.failed r.name e).toFault, bridge', ?_, fun v => ?_⟩
  · rw [hstep, Frame.receive_deliverable h.blocked h.pending]
  · rw [← hout]
    cases out <;> simp [Except.mapError]

/-- The least integer divided by minus one, which a handler catches, and the routine that adds, called
on 40 and 2. -/
theorem arithmetic_exact_least :
    ({ frames := [{ id := 1, program := ⟨"main", [.div]⟩, handler := some 1
                    stack := [.int (-1), .int Int64.minValue, .null] }] } : Machine).step
        ({} : Host Unit Unit) () =
      (.ok .proceed,
        { frames := [{ id := 1, program := ⟨"main", [.div]⟩, ip := 1
                       stack := [.str "integer overflow in div"] }]
          steps := 1 }, ()) ∧
    ∃ bridge', ({ frames := [{ id := 1, program := ⟨"main", [.native 2]⟩
                               stack := [.int 2, .int 40, .null] }] } : Machine).step Bridge.host
        ({ registry := Builtin.registry } : Bridge Builtin.Waiting) =
      (.ok .proceed,
        { frames := [{ id := 1, program := ⟨"main", [.native 2]⟩, ip := 1
                       stack := [.int 42, .null] }]
          steps := 1 }, bridge') := by
  constructor
  · obtain ⟨-, -, -, hstep⟩ := arithmetic_exact.1 .div (.int Int64.minValue) (.int (-1))
    rw [hstep {} () _ _ [] [.null] ⟨rfl, rfl, rfl, fun _ h => (by cases h), rfl, rfl⟩]
    have hoverflow : Arithmetic.div.combine (.int Int64.minValue) (.int (-1)) =
        .error ⟨Fault.typeError, "integer overflow in div"⟩ := by
      decide +kernel
    rw [hoverflow]
    rfl
  · have hbuiltin : ∀ r ∈ Builtin.routines id, Builtin.registry.get? r.id = some r := by
      intro r hr
      simp only [Builtin.routines, List.mem_cons, List.not_mem_nil, or_false] at hr
      rcases hr with rfl | rfl | rfl | rfl | rfl | rfl | rfl <;> rfl
    obtain ⟨out, bridge', hstep, hout⟩ :=
      arithmetic_exact.2 id { registry := Builtin.registry } hbuiltin ⟨rfl, rfl, rfl⟩ _
        (.tail _ (.head _)) _ _ (.add 40 2)
        { frames := [{ id := 1, program := ⟨"main", [.native 2]⟩
                       stack := [.int 2, .int 40, .null] }] } _ [] [.null]
        ⟨rfl, rfl, rfl, fun _ h => (by cases h), rfl, rfl⟩ (by decide)
    have hforty : Arithmetic.add.combine (.int 40) (.int 2) = .ok (.int 42) := by
      decide +kernel
    obtain rfl := (hout _).2 hforty
    exact ⟨bridge', hstep⟩

end Machine

end Reentrant
