import Reentrant.Dispatch

/-!
Programs with direct calls: the plain recursive reading of a program. A native instruction names one of
the seven built-in routines by its number and takes its operands; a routine that runs a procedure
evaluates it then and there, one level deeper, and goes on with its outcome. There is no registry and
there are no tasks, no futures and no queues. Results and faults are given here in full.

An evaluation need not end, so it is given fuel. The frames of an evaluation all have the number 0;
nobody asks for it.
-/

namespace Reentrant.Direct

/-- What an evaluation lets the outside see: the log and what was printed, oldest first. -/
structure World where
  logged : List Value := []
  printed : List Value := []

def World.log (w : World) (v : Value) : World := { w with logged := w.logged ++ [v] }

def World.print (w : World) (v : Value) : World := { w with printed := w.printed ++ [v] }

inductive Move where
  /-- It goes on as `f`. -/
  | proceeds (f : Frame) (w : World)
  /-- It calls a routine on its operands. -/
  | calls (routine : RoutineId) (f : Frame) (w : World)
  | ends (o : Outcome) (w : World)

/-- A fault is caught by the handler that the frame armed, or ends it. -/
def unwind (f : Frame) (fault : Fault) (w : World) : Move :=
  match f.handler with
  | some target =>
      .proceeds { f with handler := none, stack := [.str fault.message], ip := target } w
  | none => .ends (.faulted fault) w

/-- A frame past the end of its code returns; any other executes one instruction. -/
def move (f : Frame) (w : World) : Move :=
  match f.program.code[f.ip]? with
  | none => .ends (.returned f.stack.head?) w
  | some op =>
      match Frame.execute { f with ip := f.ip + 1 } op with
      | (f, .error fault) => unwind f fault w
      | (f, .ok .next) => .proceeds f w
      | (f, .ok .ret) => .ends (.returned f.stack.head?) w
      | (f, .ok (.native id)) => .calls id f w
      | (f, .ok (.log v)) => .proceeds f (w.log v)

/-- A frame goes on with the result of its native call. -/
def resume (f : Frame) (w : World) : DispatchResult → Move
  | .void => move f w
  | .value v => move { f with stack := v :: f.stack } w
  | .fault fault => unwind f fault w

/-- A program is entered with `depth` frames below it. -/
def enter (maxFrames depth : Nat) (p : Program) (w : World) : Move :=
  if maxFrames ≤ depth then
    .ends (.faulted ⟨"STACK_OVERFLOW", "more than " ++ Decimal.text maxFrames ++ " frames"⟩) w
  else move { id := 0, program := p } w

/-! ### Operands -/

inductive Call where
  | print (v : Value)
  | add (a b : Int64)
  | concat (a b : String)
  | invoke (procedure : String)
  | tryInvoke (procedure : String)
  | sumThenReport
  | callBoth

def tooFew (routine : String) (wanted found : Nat) : Fault :=
  ⟨"ARGUMENT_CONVERSION", "`" ++ routine ++ "` takes " ++ Decimal.text wanted ++ " arguments, found " ++
    Decimal.text found ++ " on the stack"⟩

def misfit (routine : String) (index : Nat) (what : String) : Fault :=
  ⟨"ARGUMENT_CONVERSION", "argument " ++ Decimal.text index ++ " of `" ++ routine ++ "`: " ++ what⟩

def expected (shape : String) (v : Value) : String :=
  "expected " ++ shape ++ ", found " ++ v.kind.name

def integer (routine : String) (index : Nat) : Value → Except Fault Int64
  | .int n => .ok n
  | v => .error (misfit routine index (expected "int" v))

/-- Text may come as its UTF-8 bytes. -/
def text (routine : String) (index : Nat) : Value → Except Fault String
  | .str s => .ok s
  | .bytes bs =>
      match textOfBytes? bs with
      | some s => .ok s
      | none => .error (misfit routine index "bytes are not valid UTF-8")
  | v => .error (misfit routine index (expected "str" v))

/-- Takes the operand of a routine. -/
def take₁ (routine : String) (read : Value → Except Fault Call) :
    List Value → Except Fault Call × List Value
  | v :: rest => (read v, rest)
  | [] => (.error (tooFew routine 1 0), [])

/-- Takes the two operands of a routine, the second one on top. A single one is lost. -/
def take₂ (routine : String) (read : Value → Value → Except Fault Call) :
    List Value → Except Fault Call × List Value
  | b :: a :: rest => (read a b, rest)
  | stack => (.error (tooFew routine 2 stack.length), [])

/-- The call that a native instruction makes on operands `stack`, and the operands that it leaves. -/
def call (id : RoutineId) (stack : List Value) : Except Fault Call × List Value :=
  match id with
  | 1 => take₁ "print" (fun v => .ok (.print v)) stack
  | 2 => take₂ "add" (fun a b => do return .add (← integer "add" 0 a) (← integer "add" 1 b)) stack
  | 3 => take₂ "concat" (fun a b => do return .concat (← text "concat" 0 a) (← text "concat" 1 b)) stack
  | 10 => take₁ "invoke" (fun v => return .invoke (← text "invoke" 0 v)) stack
  | 11 => take₁ "try_invoke" (fun v => return .tryInvoke (← text "try_invoke" 0 v)) stack
  | 12 => (.ok .sumThenReport, stack)
  | 13 => (.ok .callBoth, stack)
  | _ => (.error ⟨"UNKNOWN_ROUTINE", "no native routine registered for #" ++ Decimal.text id.toNat⟩, stack)

/-! ### The built-in routines -/

def failed (routine : String) (what : String) : DispatchResult :=
  .fault ⟨"ROUTINE_FAILURE", "`" ++ routine ++ "` failed: " ++ what⟩

/-- An integer of 64 bits, or the failure of an operation on `a` and `b` whose exact result `z` is
none. -/
def exact (routine : String) (a : Int64) (op : String) (b z : Int) : DispatchResult :=
  if Int64.minValue.toInt ≤ z ∧ z ≤ Int64.maxValue.toInt then .value (.int (Int64.ofInt z))
  else failed routine (String.ofList (Decimal.ofInt a.toInt) ++ op ++ String.ofList (Decimal.ofInt b) ++
    " overflows")

section Routines

variable (l : Library) (run : Program → World → Option (Outcome × World))

/-- Runs a procedure and goes on with its outcome. An unknown name is a fault. -/
def withProcedure (name : String) (w : World)
    (k : Outcome → World → Option (DispatchResult × World)) : Option (DispatchResult × World) :=
  match l.get? name with
  | none => some (.fault ⟨"UNKNOWN_PROCEDURE", "no procedure named `" ++ name ++ "`"⟩, w)
  | some p =>
      match run p w with
      | none => none
      | some (o, w) => k o w

/-- Runs a procedure and goes on with its value. A fault of the procedure is passed on as it is. -/
def withValue (name : String) (w : World)
    (k : Option Value → World → Option (DispatchResult × World)) :
    Option (DispatchResult × World) :=
  withProcedure l run name w fun o w =>
    match o with
    | .returned v => k v w
    | .faulted fault => some (.fault fault, w)

/-- The value of the procedure, or nothing if it is void. -/
def invoke (name : String) (w : World) : Option (DispatchResult × World) :=
  withValue l run name w fun v w =>
    match v with
    | none => some (.void, w)
    | some v => some (.value v, w)

/-- A fault of the procedure is its message, and void is null. -/
def tryInvoke (name : String) (w : World) : Option (DispatchResult × World) :=
  withProcedure l run name w fun o w =>
    match o with
    | .returned none => some (.value .null, w)
    | .returned (some v) => some (.value v, w)
    | .faulted fault => some (.value (.str fault.message), w)

/-- Ten less than a value, which must be an integer. -/
def tenLess : Option Value → DispatchResult
  | some (.int n) => exact "sum_then_report" n " - " 10 (n.toInt - 10)
  | some v => failed "sum_then_report" (expected "int" v)
  | none => failed "sum_then_report" "expected int, found void"

def sumThenReport (w : World) : Option (DispatchResult × World) :=
  withValue l run "answer" w fun v w => some (tenLess v, w)

def callBoth (w : World) : Option (DispatchResult × World) :=
  withValue l run "call_a" w fun _ w =>
    withValue l run "call_b" w fun _ w => some (.void, w)

def perform (w : World) : Call → Option (DispatchResult × World)
  | .print v => some (.void, w.print v)
  | .add a b => some (exact "add" a " + " b.toInt (a.toInt + b.toInt), w)
  | .concat a b => some (.value (.str (a ++ b)), w)
  | .invoke name => invoke l run name w
  | .tryInvoke name => tryInvoke l run name w
  | .sumThenReport => sumThenReport l run w
  | .callBoth => callBoth l run w

/-- A native call on operands `stack`: its result and the operands that it leaves. -/
def native (id : RoutineId) (stack : List Value) (w : World) :
    Option (DispatchResult × List Value × World) :=
  match call id stack with
  | (.error fault, rest) => some (.fault fault, rest, w)
  | (.ok c, rest) =>
      match perform l run w c with
      | none => none
      | some (result, w) => some (result, rest, w)

end Routines

/-! ### Evaluation -/

/-- Evaluates a frame from its next move on, with `depth` frames below it. -/
def evaluate (l : Library) (maxFrames : Nat) :
    (fuel : Nat) → (depth : Nat) → Move → Option (Outcome × World)
  | _, _, .ends o w => some (o, w)
  | 0, _, _ => none
  | fuel + 1, depth, .proceeds f w => evaluate l maxFrames fuel depth (move f w)
  | fuel + 1, depth, .calls id f w =>
      match native l (fun p w => evaluate l maxFrames fuel (depth + 1)
          (enter maxFrames (depth + 1) p w)) id f.stack w with
      | none => none
      | some (result, stack, w) =>
          evaluate l maxFrames fuel depth (resume { f with stack } w result)

def run (l : Library) (maxFrames fuel : Nat) (p : Program) : Option (Outcome × World) :=
  evaluate l maxFrames fuel 0 (enter maxFrames 0 p {})

end Reentrant.Direct
