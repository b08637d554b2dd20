import Mathlib.Data.List.Nodup
import Reentrant.Assembly.Validate
import Reentrant.Bridge
import Reentrant.Proofs.MachineAdvance

/-!
The faults that can be foreseen in a program's text, against the faults that its frames raise. An
instruction raises a jump fault, or calls a routine that is not there, exactly where it is found
flawed, whatever the frame holds; no other fault of an instruction is of a foreseen kind.
-/

namespace Reentrant

/-! ### Faults of one instruction -/

/-- Jumps that leave the code and native calls that nobody answers. -/
def Fault.Foreseen (e : Fault) : Prop :=
  e.code = badJump ∨ e.code = unknownRoutine ∨ e.code = noNativeHandler

instance (e : Fault) : Decidable e.Foreseen := inferInstanceAs (Decidable (_ ∨ _ ∨ _))

/-- Neither of a foreseen kind. -/
def Fault.Unforeseen (e : Fault) : Prop := ¬e.Foreseen

theorem Fault.unforeseen_of_code {e : Fault} (code : String) (h : e.code = code)
    (hcode : code ≠ badJump ∧ code ≠ unknownRoutine ∧ code ≠ noNativeHandler) : e.Unforeseen := by
  rintro (heq | heq | heq)
  · exact hcode.1 (h.symm.trans heq)
  · exact hcode.2.1 (h.symm.trans heq)
  · exact hcode.2.2 (h.symm.trans heq)

namespace Op

theorem exact_unforeseen {what : String} {z : Int} {e : Fault} (h : exact what z = .error e) :
    e.Unforeseen := by
  unfold exact at h
  split at h
  · cases h
  · cases h
    exact Fault.unforeseen_of_code Fault.typeError rfl (by decide)

theorem sum_unforeseen {a b : Value} {e : Fault} (h : sum a b = .error e) : e.Unforeseen := by
  unfold sum at h
  split at h
  · exact exact_unforeseen h
  · cases h
  · cases h
    exact Fault.unforeseen_of_code Fault.typeError rfl (by decide)

theorem difference_unforeseen {a b : Value} {e : Fault} (h : difference a b = .error e) :
    e.Unforeseen := by
  unfold difference at h
  split at h
  · exact exact_unforeseen h
  · cases h
    exact Fault.unforeseen_of_code Fault.typeError rfl (by decide)

theorem product_unforeseen {a b : Value} {e : Fault} (h : product a b = .error e) :
    e.Unforeseen := by
  unfold product at h
  split at h
  · exact exact_unforeseen h
  · cases h
    exact Fault.unforeseen_of_code Fault.typeError rfl (by decide)

theorem quotient_unforeseen {a b : Value} {e : Fault} (h : quotient a b = .error e) :
    e.Unforeseen := by
  unfold quotient at h
  split at h
  · split at h
    · cases h
      exact Fault.unforeseen_of_code Fault.divisionByZero rfl (by decide)
    · exact exact_unforeseen h
  · cases h
    exact Fault.unforeseen_of_code Fault.typeError rfl (by decide)

end Op

namespace Frame

theorem underflow_unforeseen (what : String) : (Fault.underflow what).Unforeseen :=
  Fault.unforeseen_of_code Fault.stackUnderflow rfl (by decide)

/-- Taking the top operand fails only where there is none. -/
theorem withTop_unforeseen {f : Frame} {go : Frame → Value → Frame × Except Fault Flow}
    (hgo : ∀ f v e, (go f v).2 = .error e → e.Unforeseen) {e : Fault}
    (h : (f.withTop go).2 = .error e) : e.Unforeseen := by
  unfold withTop at h
  split at h
  · cases h
    exact underflow_unforeseen "pop"
  · exact hgo _ _ e h

theorem binary_unforeseen {f : Frame} {combine : Value → Value → Except Fault Value}
    (hcombine : ∀ a b e, combine a b = .error e → e.Unforeseen) {e : Fault}
    (h : (f.binary combine).2 = .error e) : e.Unforeseen := by
  refine withTop_unforeseen (fun f b e h => ?_) h
  refine withTop_unforeseen (fun f a e h => ?_) h
  cases hc : combine a b with
  | ok v =>
      rw [hc] at h
      cases h
  | error e' =>
      rw [hc] at h
      cases h
      exact hcombine a b e hc

/-- A target within the code, or at its end, does not fail. -/
theorem withTarget_eq (f : Frame) (target : Nat) (go : Frame × Except Fault Flow) :
    (f.program.code.length < target ∧
      f.withTarget target go = (f, .error (.jumpOutside target f.program.name))) ∨
    (¬f.program.code.length < target ∧ f.withTarget target go = go) := by
  by_cases h : f.program.code.length < target
  · exact .inl ⟨h, if_pos h⟩
  · exact .inr ⟨h, if_neg h⟩

/-- Where an instruction can go other than to the next one. -/
def target? : Op → Option Nat
  | .jump target | .jumpIf target | .catchAt target => some target
  | _ => none

/-- An instruction fails as foreseen exactly if it has a target outside the code. -/
theorem execute_error (f : Frame) (op : Op) {e : Fault} (h : (f.execute op).2 = .error e) :
    e.Unforeseen ∨ ∃ target, target? op = some target ∧ f.program.code.length < target ∧
      e = .jumpOutside target f.program.name := by
  have hjump : ∀ (target : Nat) (go : Frame × Except Fault Flow),
      (f.withTarget target go).2 = .error e → (∀ e, go.2 = .error e → e.Unforeseen) →
      e.Unforeseen ∨ ∃ t, some target = some t ∧ f.program.code.length < t ∧
        e = .jumpOutside t f.program.name := by
    intro target go h hgo
    rcases f.withTarget_eq target go with ⟨hout, heq⟩ | ⟨-, heq⟩
    · rw [heq] at h
      cases h
      exact .inr ⟨target, rfl, hout, rfl⟩
    · rw [heq] at h
      exact .inl (hgo e h)
  cases op with
  | push v => cases h
  | pop => exact .inl (withTop_unforeseen (fun f v e h => by cases h) h)
  | dup =>
      unfold execute at h
      dsimp only at h
      split at h
      · cases h
        exact .inl (underflow_unforeseen "dup")
      · cases h
  | swap =>
      refine .inl (withTop_unforeseen (fun f b e h => ?_) h)
      exact withTop_unforeseen (fun f a e h => by cases h) h
  | add => exact .inl (binary_unforeseen (fun _ _ _ => Op.sum_unforeseen) h)
  | sub => exact .inl (binary_unforeseen (fun _ _ _ => Op.difference_unforeseen) h)
  | mul => exact .inl (binary_unforeseen (fun _ _ _ => Op.product_unforeseen) h)
  | div => exact .inl (binary_unforeseen (fun _ _ _ => Op.quotient_unforeseen) h)
  | eq => exact .inl (binary_unforeseen (fun _ _ _ h => by cases h) h)
  | not => exact .inl (withTop_unforeseen (fun f v e h => by cases h) h)
  | jump target => exact hjump target _ h fun e h => by cases h
  | jumpIf target =>
      exact hjump target _ h fun e h => withTop_unforeseen (fun f v e h => by cases h) h
  | catchAt target => exact hjump target _ h fun e h => by cases h
  | throw =>
      refine .inl (withTop_unforeseen (fun f v e h => ?_) h)
      cases h
      exact Fault.unforeseen_of_code Fault.thrown rfl (by decide)
  | native id => cases h
  | log => exact .inl (withTop_unforeseen (fun f v e h => by cases h) h)
  | ret => cases h

/-- An instruction with a target outside the code fails, whatever the frame holds. -/
theorem execute_of_target {f : Frame} {op : Op} {target : Nat} (htarget : target? op = some target)
    (hout : f.program.code.length < target) :
    f.execute op = (f, .error (.jumpOutside target f.program.name)) := by
  cases op with
  | jump t | jumpIf t | catchAt t =>
      cases htarget
      exact if_pos hout
  | _ => cases htarget

/-- The fault that the frame raises when it is stepped: one that is pending, or one of its next
instruction. -/
def raised (f : Frame) : Option Fault :=
  match f.pendingFault with
  | some e => some e
  | none =>
      match f.program.code[f.ip]? with
      | none => none
      | some op =>
          match (Frame.execute { f with ip := f.ip + 1 } op).2 with
          | .error e => some e
          | .ok _ => none

end Frame

/-! ### Faults of one step -/

namespace Machine

variable {ε : Type} {m : Machine} {f : Frame} {below : List Frame}

/-- What a step of the frame `f` above `below` leaves: frames below, and perhaps one that runs the
program of `f` and has no fault pending. If the frame ends, then with this fault. -/
structure Leaves (f : Frame) (below : List Frame) (fault : Option Fault) (r : Signal × Machine) :
    Prop where
  frames : ∀ g ∈ r.2.frames, g ∈ below ∨ g.program = f.program ∧ g.pendingFault = none
  ended : ∀ t, r.1 = .ended t → t.fault = fault

theorem leaves_finish {g : Frame} (hframes : m.frames = g :: below) (f : Frame)
    (fault : Option Fault) : Leaves f below fault (m.finish fault) := by
  unfold finish
  rw [hframes]
  refine ⟨fun g hg => .inl hg, fun t ht => ?_⟩
  cases ht
  rfl

theorem leaves_top {g : Frame} (hframes : m.frames = g :: below) (hprogram : g.program = f.program)
    (hpending : g.pendingFault = none) (fault : Option Fault) {s : Signal}
    (hs : ∀ t, s ≠ .ended t) : Leaves f below fault (s, m) := by
  refine ⟨fun g' hg' => ?_, fun t ht => absurd ht (hs t)⟩
  rw [hframes] at hg'
  rcases List.mem_cons.1 hg' with rfl | hg'
  · exact .inr ⟨hprogram, hpending⟩
  · exact .inl hg'

theorem leaves_unwind {g : Frame} (hframes : m.frames = g :: below)
    (hprogram : g.program = f.program) (hpending : g.pendingFault = none) (e : Fault) :
    Leaves f below (some e) (m.unwind e) := by
  unfold unwind
  rw [hframes]
  dsimp only
  split
  · exact leaves_top rfl (by exact hprogram) (by exact hpending) _ fun t ht => by cases ht
  · exact leaves_finish hframes f (some e)

theorem leaves_advanceFrame (hframes : m.frames = f :: below) :
    Leaves f below f.raised (m.advanceFrame f below) := by
  unfold Frame.raised advanceFrame
  cases hpending : f.pendingFault with
  | some fault => exact leaves_unwind rfl (by rfl) (by rfl) fault
  | none =>
      cases hop : f.program.code[f.ip]? with
      | none => exact leaves_finish hframes f none
      | some op =>
          dsimp only
          have hcontinues := Frame.execute_continues
            { f with ip := f.ip + 1, pendingFault := none } op
          generalize Frame.execute { f with ip := f.ip + 1, pendingFault := none } op = executed
            at hcontinues ⊢
          obtain ⟨g, result⟩ := executed
          obtain ⟨ip, stack, handler, rfl⟩ := hcontinues
          cases result with
          | error fault => exact leaves_unwind rfl (by rfl) (by rfl) fault
          | ok flow =>
              cases flow with
              | ret => exact leaves_finish rfl f none
              | next => exact leaves_top rfl (by rfl) (by rfl) none fun t ht => by cases ht
              | native id => exact leaves_top rfl (by rfl) (by rfl) none fun t ht => by cases ht
              | log v => exact leaves_top rfl (by rfl) (by rfl) none fun t ht => by cases ht

/-- The fault with which a step ends the current frame is the one that it raises. -/
theorem leaves_of_advance {m₁ : Machine} {s : Signal} (hframes : m.frames = f :: below)
    (h : @advance ε m = (.ok s, m₁)) : Leaves f below f.raised (s, m₁) := by
  rw [← advanceFrame_of_advance hframes h]
  exact leaves_advanceFrame hframes

end Machine

/-! ### What validation finds -/

namespace Assembly

variable {known : RoutineId → Bool} {p : Program}

/-- The instructions that are found flawed. -/
theorem flaw?_isSome_iff {length : Nat} {op : Op} :
    (flaw? known length op).isSome = true ↔
      (∃ target, Frame.target? op = some target ∧ length < target) ∨
        ∃ id, op = .native id ∧ known id = false := by
  cases op with
  | jump t | jumpIf t | catchAt t =>
      by_cases h : length < t <;> simp [flaw?, Frame.target?, h]
  | native id => cases h : known id <;> simp [flaw?, Frame.target?, h]
  | _ => simp [flaw?, Frame.target?]

theorem mem_validate_iff {x : Finding} :
    x ∈ validate known p ↔ ∃ op flaw, p.code[x.index]? = some op ∧
      flaw? known p.code.length op = some flaw ∧ x = { program := p.name, index := x.index, flaw } := by
  rw [validate, List.mem_filterMap]
  constructor
  · rintro ⟨⟨op, index⟩, hmem, hx⟩
    obtain ⟨flaw, hflaw, rfl⟩ := Option.map_eq_some_iff.1 hx
    exact ⟨op, flaw, List.mem_zipIdx_iff_getElem?.1 hmem, hflaw, rfl⟩
  · rintro ⟨op, flaw, hop, hflaw, hx⟩
    refine ⟨(op, x.index), List.mem_zipIdx_iff_getElem?.2 hop, ?_⟩
    rw [hx]
    simp only [hflaw, Option.map_some]

/-- An instruction is reported exactly if it is found flawed. -/
theorem reported_iff {i : Nat} :
    i ∈ (validate known p).map (·.index) ↔
      ∃ op, p.code[i]? = some op ∧ (flaw? known p.code.length op).isSome = true := by
  rw [List.mem_map]
  constructor
  · rintro ⟨x, hx, rfl⟩
    obtain ⟨op, flaw, hop, hflaw, -⟩ := mem_validate_iff.1 hx
    exact ⟨op, hop, by rw [hflaw]; rfl⟩
  · rintro ⟨op, hop, hflaw⟩
    obtain ⟨flaw, hflaw⟩ := Option.isSome_iff_exists.1 hflaw
    exact ⟨{ program := p.name, index := i, flaw },
      mem_validate_iff.2 ⟨op, flaw, hop, hflaw, rfl⟩, rfl⟩

/-- Where nothing is found, no instruction is flawed. -/
theorem unflawed_of_valid (hvalid : validate known p = []) {i : Nat} {op : Op}
    (hop : p.code[i]? = some op) : (flaw? known p.code.length op).isSome ≠ true := by
  intro hflaw
  have hreported : i ∈ (validate known p).map (·.index) := reported_iff.2 ⟨op, hop, hflaw⟩
  rw [hvalid] at hreported
  cases hreported

/-- Findings come in the order of the instructions, one for each at most. -/
theorem validate_increasing (known : RoutineId → Bool) (p : Program) :
    (validate known p).Pairwise fun x y => x.index < y.index := by
  have hindices : (p.code.zipIdx).Pairwise fun a b => a.2 < b.2 := by
    rw [← List.pairwise_map (f := Prod.snd) (R := (· < ·)), List.zipIdx_map_snd]
    exact List.pairwise_lt_range'
  refine hindices.filterMap _ fun a b hlt x hx y hy => ?_
  obtain ⟨_, -, rfl⟩ := Option.map_eq_some_iff.1 hx
  obtain ⟨_, -, rfl⟩ := Option.map_eq_some_iff.1 hy
  exact hlt

end Assembly

/-! ### Steps that fail as foreseen -/

/-- A step that is not refused is one of the current frame. -/
theorem Machine.advance_of_ready {ε : Type} {m : Machine} {f : Frame} {below : List Frame}
    (hframes : m.frames = f :: below) (hblocked : f.blocked = false)
    (hlimit : ∀ limit, m.limits.maxSteps = some limit → m.steps < limit) :
    @advance ε m = (.ok (({ m with steps := m.steps + 1 } : Machine).advanceFrame f below).1,
      (({ m with steps := m.steps + 1 } : Machine).advanceFrame f below).2) := by
  rcases @advance_cases ε m f below hframes hblocked with
    ⟨limit, hmax, hrefused⟩ | ⟨s, m', -, htaken⟩
  · exfalso
    have hgo : @advance ε m = @advance.go ε m f below := by
      unfold advance
      rw [hframes]
      simp only [hblocked, hmax, Bool.false_eq_true, if_false]
      exact if_neg (Nat.not_le.2 (hlimit limit hmax))
    rw [hgo] at hrefused
    cases hrefused
  · rw [advanceFrame_of_advance hframes htaken]
    exact htaken

namespace Bridge

variable {σ : Type} {m : Machine} {b : Bridge σ}

/-- The dispatcher finds no routine exactly for the numbers that are not registered. -/
theorem call_unknownRoutine (id : RoutineId) (caller : FrameId) (m : Machine) (b : Bridge σ) :
    (call id caller m b).1 = .error (.unknownRoutine id) ↔ b.registry.contains id = false := by
  have hcontains : b.registry.contains id = (b.registry.get? id).isSome := rfl
  rw [hcontains, call]
  cases hget : b.registry.get? id with
  | none => exact ⟨fun _ => rfl, fun _ => rfl⟩
  | some r =>
      refine ⟨fun h => ?_, fun h => by cases h⟩
      dsimp only at h
      split at h
      · cases h
      · unfold apply at h
        split at h
        · cases h
        · cases h
        · dsimp only at h
          split at h <;> cases h
        · cases h

/-- The next step raises a jump fault of its own, or the dispatcher finds no routine for the call that
it makes. -/
def FailsForeseen (m : Machine) (b : Bridge σ) : Prop :=
  (∃ f below e, m.frames = f :: below ∧ f.raised = some e ∧ e.code = Fault.badJump) ∨
    ∃ id caller m₁, @Machine.advance HookError m = (.ok (.call id caller), m₁) ∧
      (call id caller m₁ b).1 = .error (.unknownRoutine id)

variable {f : Frame} {below : List Frame} (hframes : m.frames = f :: below)
  (hpending : f.pendingFault = none)

include hframes hpending

/-- An instruction that is reported fails as soon as its frame gets there. -/
theorem failsForeseen_of_reported (hblocked : f.blocked = false)
    (hlimit : ∀ limit, m.limits.maxSteps = some limit → m.steps < limit)
    (h : f.ip ∈ (Assembly.validate b.registry.contains f.program).map (·.index)) :
    FailsForeseen m b := by
  obtain ⟨op, hop, hflaw⟩ := Assembly.reported_iff.1 h
  rcases Assembly.flaw?_isSome_iff.1 hflaw with ⟨target, htarget, hout⟩ | ⟨id, rfl, hunknown⟩
  · refine .inl ⟨f, below, .jumpOutside target f.program.name, hframes, ?_, rfl⟩
    have hexec := Frame.execute_of_target
      (f := { f with ip := f.ip + 1, pendingFault := none }) htarget hout
    unfold Frame.raised
    rw [hpending]
    dsimp only
    rw [hop]
    dsimp only
    rw [hexec]
  · have hadvance := @Machine.advance_of_ready HookError m f below hframes hblocked hlimit
    unfold Machine.advanceFrame at hadvance
    rw [hpending] at hadvance
    dsimp only at hadvance
    rw [hop] at hadvance
    exact .inr ⟨id, f.id, _, hadvance, (call_unknownRoutine id _ _ b).2 hunknown⟩

/-- A step that fails as foreseen is that of an instruction that is reported. -/
theorem reported_of_failsForeseen (h : FailsForeseen m b) :
    f.ip ∈ (Assembly.validate b.registry.contains f.program).map (·.index) := by
  refine Assembly.reported_iff.2 ?_
  rcases h with ⟨f', below', e, hframes', hraised, hcode⟩ | ⟨id, caller, m₁, hadvance, hcall⟩
  · obtain ⟨rfl, rfl⟩ := List.cons.inj (hframes.symm.trans hframes')
    unfold Frame.raised at hraised
    rw [hpending] at hraised
    dsimp only at hraised
    split at hraised
    · cases hraised
    · next op hop =>
        refine ⟨op, hop, ?_⟩
        split at hraised
        · next hexec =>
            cases hraised
            rcases Frame.execute_error _ op hexec with hunforeseen | ⟨target, htarget, hout, -⟩
            · exact absurd (.inl hcode) hunforeseen
            · exact Assembly.flaw?_isSome_iff.2 (.inl ⟨target, htarget, hout⟩)
        · cases hraised
  · obtain ⟨-, hop, -, -⟩ := Machine.advance_call hframes hadvance
    have hunknown := (call_unknownRoutine id caller m₁ b).1 hcall
    exact ⟨_, hop, Assembly.flaw?_isSome_iff.2 (.inr ⟨id, rfl, hunknown⟩)⟩

/-- The instruction that a frame is about to execute is reported, once, exactly if its step fails as
foreseen. -/
theorem reported_once_iff (hblocked : f.blocked = false)
    (hlimit : ∀ limit, m.limits.maxSteps = some limit → m.steps < limit) :
    ((Assembly.validate b.registry.contains f.program).map (·.index)).count f.ip = 1 ↔
      FailsForeseen m b := by
  have hnodup : ((Assembly.validate b.registry.contains f.program).map (·.index)).Nodup :=
    List.pairwise_map.2
      ((Assembly.validate_increasing _ f.program).imp fun hlt => Nat.ne_of_lt hlt)
  constructor
  · intro hcount
    refine failsForeseen_of_reported hframes hpending hblocked hlimit ?_
    exact List.count_pos_iff.1 (hcount ▸ Nat.one_pos)
  · intro hfails
    exact List.count_eq_one_of_mem hnodup (reported_of_failsForeseen hframes hpending hfails)

end Bridge

end Reentrant
