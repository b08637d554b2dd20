import Reentrant.Execution
import Reentrant.Proofs.DirectCalls
import Reentrant.Proofs.HostReaction

/-!
The built-in routines against their direct readings. What the registry makes of a native call is what a
direct call makes of it, up to the start of a routine that runs procedures. Such a routine asks for one
procedure at a time and waits for its future alone; once that future is resolved, it is over or asks for
the next.
-/

namespace Reentrant.Direct

open Builtin (Waiting)

/-! ### Calls before any poll -/

/-- Adds what the notes of a routine say was printed. -/
def World.note (w : World) (notes : List Note) : World :=
  { w with printed := w.printed ++ Execution.printed notes.toArray }

theorem World.note_nil (w : World) : w.note [] = w := by
  have hnone : Execution.printed ([] : List Note).toArray = [] := rfl
  rw [note, hnone, List.append_nil]

theorem printed_append (notes more : Array Note) :
    Execution.printed (notes ++ more) = Execution.printed notes ++ Execution.printed more := by
  rw [Execution.printed, Array.toList_append, List.filterMap_append]
  rfl

/-- The direct call of a built-in that starts by asking for a procedure. No routine starts in one of the
remaining states. -/
def starting : Waiting → Option Call
  | .invoke name => some (.invoke name)
  | .tryInvoke name => some (.tryInvoke name)
  | .sumThenReport => some .sumThenReport
  | .callBoth => some .callBoth
  | _ => none

theorem exact_eq (routine : String) (a : Int64) (op : String) (b z : Int) :
    exact routine a op b z = Bridge.deliverable routine (match int64? z with
      | some n => .ok (.value (.int n))
      | none => .error (Builtin.overflows a op b)) := by
  have hbounds : Int64.minValue.toInt ≤ z ∧ z ≤ Int64.maxValue.toInt ↔
      -Int.pow 2 63 ≤ z ∧ z < Int.pow 2 63 := by
    have hleast : Int64.minValue.toInt = -Int.pow 2 63 := rfl
    have hgreatest : Int64.maxValue.toInt = Int.pow 2 63 - 1 := rfl
    rw [hleast, hgreatest, Int.le_sub_one_iff]
  rw [exact, int64?]
  by_cases hrange : -Int.pow 2 63 ≤ z ∧ z < Int.pow 2 63
  · rw [if_pos hrange, if_pos (hbounds.2 hrange)]
    rfl
  · rw [if_neg hrange, if_neg (mt hbounds.1 hrange)]
    rfl

theorem tenLess_eq (v : Option Value) :
    tenLess v = Bridge.deliverable "sum_then_report" (match Shape.int.read v with
      | .ok answer => Builtin.report answer
      | .error e => .error (.conversion e)) := by
  rcases v with _ | v
  · rfl
  · cases v with
    | int n => exact exact_eq _ n _ _ _
    | _ => rfl

theorem text_eq (routine : String) (index : Nat) (v : Value) :
    text routine index v = (Shape.str.read (some v)).mapError fun e =>
      (DispatchError.argument routine index e).toFault := by
  cases v with
  | bytes bs =>
      rw [text, Shape.read]
      cases textOfBytes? bs <;> rfl
  | _ => rfl

/-- What the registry makes of a native call before any poll is what a direct call makes of it: it is
refused, or a synchronous routine has run, or a suspending one starts. -/
inductive Takes : Intake Waiting → Except Fault Call → Prop where
  | refused (fault : Fault) (spent : Nat) : Takes (.settled (.fault fault) [] spent) (.error fault)
  | ran {c : Call} {result : DispatchResult} {notes : List Note} (spent : Nat)
      (h : ∀ l run w, perform l run w c = some (result, w.note notes)) :
      Takes (.settled result notes spent) (.ok c)
  | starts {c : Call} {s : Waiting} (routine : String) (h : starting s = some c)
      (hreport : s = .sumThenReport → routine = "sum_then_report") : Takes (.begun routine s) (.ok c)

theorem takes_misfit {r : Routine Waiting} {args : List Value} {index : Nat} {e : ConversionError}
    (hread : Arguments.read r.params args = .error (index, e)) :
    Takes (r.intake args) (.error (DispatchError.argument r.name index e).toFault) := by
  rw [Routine.intake, hread]
  cases r.body <;> exact .refused _ _

/-- A routine that takes the name of a procedure. -/
theorem takes_name (id : RoutineId) (name : String) (start : String → Waiting) {c : String → Call}
    (hstart : ∀ s, starting (start s) = some (c s)) (hother : ∀ s, start s ≠ .sumThenReport)
    (v : Value) :
    Takes (Routine.intake ⟨id, name, [.str], .suspending fun xs => start xs.1⟩ [v])
      (return c (← text name 0 v)) := by
  rw [text_eq]
  cases hv : Shape.str.read (some v) with
  | error e =>
      have hread : Arguments.read [.str] [v] = .error (0, e) := by
        simp [Arguments.read, Arguments.readFrom, hv]
      exact takes_misfit (r := ⟨id, name, [.str], _⟩) hread
  | ok s =>
      simp only [Routine.intake, Arguments.read, Arguments.readFrom, List.headD_cons, hv]
      exact .starts name (hstart s) fun h => absurd h (hother s)

theorem takes_concat (a b : Value) :
    Takes (Routine.intake ⟨3, "concat", [.str, .str],
        .sync fun xs => ([], Builtin.concat xs.1 xs.2.1)⟩ [a, b])
      (return .concat (← text "concat" 0 a) (← text "concat" 1 b)) := by
  rw [text_eq, text_eq]
  cases ha : Shape.str.read (some a) with
  | error e =>
      have hread : Arguments.read [.str, .str] [a, b] = .error (0, e) := by
        simp [Arguments.read, Arguments.readFrom, ha]
      exact takes_misfit (r := ⟨3, "concat", [.str, .str], _⟩) hread
  | ok s =>
      cases hb : Shape.str.read (some b) with
      | error e =>
          have hread : Arguments.read [.str, .str] [a, b] = .error (1, e) := by
            simp [Arguments.read, Arguments.readFrom, ha, hb]
          exact takes_misfit (r := ⟨3, "concat", [.str, .str], _⟩) hread
      | ok s' =>
          simp only [Routine.intake, Arguments.read, Arguments.readFrom, List.headD_cons,
            List.tail_cons, ha, hb]
          exact .ran 0 fun l run w => by rw [World.note_nil]; rfl

theorem takes_call (id : RoutineId) (stack : List Value) :
    Takes (Builtin.registry.intake id stack).1 (call id stack).1 ∧
      (Builtin.registry.intake id stack).2 = (call id stack).2 := by
  unfold call
  split
  · rcases stack with _ | ⟨v, rest⟩
    · exact ⟨.refused _ _, rfl⟩
    · exact ⟨.ran 0 fun l run w => rfl, rfl⟩
  · rcases stack with _ | ⟨b, _ | ⟨a, rest⟩⟩
    · exact ⟨.refused _ _, rfl⟩
    · exact ⟨.refused _ _, rfl⟩
    · refine ⟨?_, rfl⟩
      cases a with
      | int a =>
          cases b with
          | int b =>
              refine .ran 0 fun l run w => ?_
              rw [World.note_nil, perform, exact_eq]
              rfl
          | _ => exact .refused _ 0
      | _ => exact .refused _ 0
  · rcases stack with _ | ⟨b, _ | ⟨a, rest⟩⟩
    · exact ⟨.refused _ _, rfl⟩
    · exact ⟨.refused _ _, rfl⟩
    · exact ⟨takes_concat a b, rfl⟩
  · rcases stack with _ | ⟨v, rest⟩
    · exact ⟨.refused _ _, rfl⟩
    · exact ⟨takes_name 10 "invoke" .invoke (fun _ => rfl) (fun _ => nofun) v, rfl⟩
  · rcases stack with _ | ⟨v, rest⟩
    · exact ⟨.refused _ _, rfl⟩
    · exact ⟨takes_name 11 "try_invoke" .tryInvoke (fun _ => rfl) (fun _ => nofun) v, rfl⟩
  · exact ⟨.starts _ rfl fun _ => rfl, rfl⟩
  · exact ⟨.starts _ rfl nofun, rfl⟩
  · next h1 h2 h3 h10 h11 h12 h13 =>
      have hget : Builtin.registry.get? id = none := by
        refine List.find?_eq_none.2 fun r hr hid => ?_
        simp only [Builtin.registry, Builtin.routines, List.mem_cons, List.not_mem_nil, or_false] at hr
        rcases hr with rfl | rfl | rfl | rfl | rfl | rfl | rfl
        · exact h1 (beq_iff_eq.1 hid).symm
        · exact h2 (beq_iff_eq.1 hid).symm
        · exact h3 (beq_iff_eq.1 hid).symm
        · exact h10 (beq_iff_eq.1 hid).symm
        · exact h11 (beq_iff_eq.1 hid).symm
        · exact h12 (beq_iff_eq.1 hid).symm
        · exact h13 (beq_iff_eq.1 hid).symm
      rw [Registry.intake, hget]
      exact ⟨.refused _ _, rfl⟩

theorem takes_of_intake {id : RoutineId} {stack rest : List Value} {intake : Intake Waiting}
    (hintake : Builtin.registry.intake id stack = (intake, rest)) :
    ∃ c, call id stack = (c, rest) ∧ Takes intake c := by
  obtain ⟨htakes, hrest⟩ := takes_call id stack
  rw [hintake] at htakes hrest
  exact ⟨_, Prod.ext rfl hrest.symm, htakes⟩

section Native

variable (l : Library) (run : Program → World → Option (Outcome × World)) {id : RoutineId}
  {stack rest : List Value} (w : World)

/-- A native call that is over before any poll. -/
theorem native_of_settled {result : DispatchResult} {notes : List Note} {spent : Nat}
    (hintake : Builtin.registry.intake id stack = (.settled result notes spent, rest)) :
    native l run id stack w = some (result, rest, w.note notes) := by
  obtain ⟨c, hcall, htakes⟩ := takes_of_intake hintake
  rw [native, hcall]
  cases htakes with
  | refused fault spent => rw [World.note_nil]
  | ran spent hran => simp only [hran]

/-- A native call that starts a suspending routine. -/
theorem native_of_begun {routine : String} {s : Waiting}
    (hintake : Builtin.registry.intake id stack = (.begun routine s, rest)) :
    ∃ c, starting s = some c ∧ (s = .sumThenReport → routine = "sum_then_report") ∧
      native l run id stack w =
        match perform l run w c with
        | none => none
        | some (result, w) => some (result, rest, w) := by
  obtain ⟨c, hcall, htakes⟩ := takes_of_intake hintake
  rw [native, hcall]
  cases htakes with
  | starts routine hstarts hreport => exact ⟨_, hstarts, hreport, rfl⟩

end Native

/-! ### Polls -/

/-- The future that a suspended built-in waits for. -/
def awaits : Waiting → Option FutureId
  | .invoked f | .tried f | .answered f | .calledFirst f | .calledSecond f => some f
  | .invoke _ | .tryInvoke _ | .sumThenReport | .callBoth => none

/-- A poll asks for nothing and is over, or asks for one program and waits. -/
def Single (tr : Transcript Waiting) : Prop :=
  (∃ r, tr = { answer := .ready r }) ∨ ∃ p s, tr = { programs := [p], answer := .pending s }

section Polls

variable {look : FutureId → Option Outcome} {l : Library} {t : TaskId} {c : FrameId}
  {next : FutureId}

/-- As long as its future is pending, a built-in goes on waiting. -/
theorem transcript_pending {s : Waiting} {f : FutureId} (hawaits : awaits s = some f)
    (hlook : look f = none) :
    (Builtin.poll s).transcript look l t c next = { answer := .pending s } := by
  cases s <;> cases hawaits <;>
    simp only [Builtin.poll, Builtin.finishInvoke, Builtin.finishTry, Builtin.finishAnswer,
      Builtin.finishFirst, Builtin.finishSecond, Builtin.receive, Poll.transcript, hlook]

/-- Asking for a procedure that there is. -/
theorem transcript_ask {s : FutureId → Waiting} (hawaits : ∀ f, awaits (s f) = some f)
    (hlook : look next = none) (name : String) :
    (Builtin.ask name fun f => Builtin.poll (s f)).transcript look l t c next =
      match l.get? name with
      | none => { answer := .ready (.error (.interpreter (.noProcedure name))) }
      | some p => { programs := [p], answer := .pending (s next) } := by
  simp only [Builtin.ask, Poll.transcript]
  cases l.get? name with
  | none => rfl
  | some p => simp only [transcript_pending (hawaits next) hlook]

theorem single_ask {s : FutureId → Waiting} (hawaits : ∀ f, awaits (s f) = some f)
    (hlook : look next = none) (name : String) :
    Single ((Builtin.ask name fun f => Builtin.poll (s f)).transcript look l t c next) := by
  rw [transcript_ask hawaits hlook]
  cases l.get? name with
  | none => exact .inl ⟨_, rfl⟩
  | some p => exact .inr ⟨_, _, rfl⟩

/-- Looking at a future that is resolved. -/
theorem transcript_receive {f : FutureId} (waiting : Waiting) (k : Option Value → Poll Waiting)
    (o : Outcome) : look f = some o →
    (Builtin.receive f waiting k).transcript look l t c next =
      match o with
      | .returned v => (k v).transcript look l t c next
      | .faulted fault => { answer := .ready (.error (.interpreter fault)) } := by
  intro hlook
  simp only [Builtin.receive, Poll.transcript, hlook]
  cases o <;> rfl

theorem transcript_tried {f : FutureId} (o : Outcome) : look f = some o →
    (Builtin.poll (.tried f)).transcript look l t c next =
      match o with
      | .returned v => { answer := .ready (.ok (.value (v.getD .null))) }
      | .faulted fault => { answer := .ready (.ok (.value (.str fault.message))) } := by
  intro hlook
  simp only [Builtin.poll, Builtin.finishTry, Poll.transcript, hlook]
  cases o <;> rfl

theorem transcript_answered {f : FutureId} (o : Outcome) : look f = some o →
    (Builtin.poll (.answered f)).transcript look l t c next =
      match o with
      | .returned v => { answer := .ready (match Shape.int.read v with
          | .ok answer => Builtin.report answer
          | .error e => .error (.conversion e)) }
      | .faulted fault => { answer := .ready (.error (.interpreter fault)) } := by
  intro hlook
  rw [Builtin.poll, Builtin.finishAnswer, transcript_receive _ _ _ hlook]
  cases o with
  | faulted fault => rfl
  | returned v =>
      dsimp only
      cases Shape.int.read v <;> rfl

/-- A built-in that starts, or whose future is resolved. -/
theorem single_poll (s : Waiting) (hnext : look next = none)
    (hresolved : ∀ f, awaits s = some f → look f ≠ none) :
    Single ((Builtin.poll s).transcript look l t c next) := by
  cases s with
  | invoke name => exact single_ask (s := .invoked) (fun _ => rfl) hnext name
  | tryInvoke name => exact single_ask (s := .tried) (fun _ => rfl) hnext name
  | sumThenReport => exact single_ask (s := .answered) (fun _ => rfl) hnext "answer"
  | callBoth => exact single_ask (s := .calledFirst) (fun _ => rfl) hnext "call_a"
  | invoked f =>
      obtain ⟨o, hlook⟩ := Option.ne_none_iff_exists'.1 (hresolved f rfl)
      rw [Builtin.poll, Builtin.finishInvoke, transcript_receive _ _ _ hlook]
      cases o <;> exact .inl ⟨_, rfl⟩
  | tried f =>
      obtain ⟨o, hlook⟩ := Option.ne_none_iff_exists'.1 (hresolved f rfl)
      rw [transcript_tried _ hlook]
      cases o <;> exact .inl ⟨_, rfl⟩
  | answered f =>
      obtain ⟨o, hlook⟩ := Option.ne_none_iff_exists'.1 (hresolved f rfl)
      rw [transcript_answered _ hlook]
      cases o <;> exact .inl ⟨_, rfl⟩
  | calledFirst f =>
      obtain ⟨o, hlook⟩ := Option.ne_none_iff_exists'.1 (hresolved f rfl)
      rw [Builtin.poll, Builtin.finishFirst, transcript_receive _ _ _ hlook]
      cases o with
      | returned v => exact single_ask (s := .calledSecond) (fun _ => rfl) hnext "call_b"
      | faulted fault => exact .inl ⟨_, rfl⟩
  | calledSecond f =>
      obtain ⟨o, hlook⟩ := Option.ne_none_iff_exists'.1 (hresolved f rfl)
      rw [Builtin.poll, Builtin.finishSecond, transcript_receive _ _ _ hlook]
      cases o <;> exact .inl ⟨_, rfl⟩

end Polls

/-- A built-in starts in a state in which it waits for nothing. -/
theorem awaits_of_begun {native : RoutineId} {stack rest : List Value} {routine : String}
    {s : Waiting}
    (h : Builtin.registry.intake native stack = (.begun routine s, rest)) : awaits s = none := by
  obtain ⟨c, -, htakes⟩ := takes_of_intake h
  cases htakes with
  | starts routine hstarts => cases s <;> first | rfl | cases hstarts

end Reentrant.Direct
