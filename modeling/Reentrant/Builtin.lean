import Reentrant.Bridge

/-!
The built-in routines. `print`, `add` and `concat` return at once; `invoke`, `try_invoke`,
`sum_then_report` and `call_both` run procedures of the library.
-/

namespace Reentrant.Builtin

/-- What a suspended built-in waits for, or is about to ask for. -/
inductive Waiting where
  | invoke (procedure : String)
  | invoked (f : FutureId)
  | tryInvoke (procedure : String)
  | tried (f : FutureId)
  | sumThenReport
  | answered (f : FutureId)
  | callBoth
  | calledFirst (f : FutureId)
  | calledSecond (f : FutureId)
  deriving DecidableEq

/-! ### Synchronous routines -/

/-- The failure of an operation whose exact result is out of range. -/
def overflows (a : Int64) (op : String) (b : Int) : RoutineError :=
  .ofMessage (String.ofList (Decimal.ofInt a.toInt) ++ op ++ String.ofList (Decimal.ofInt b) ++
    " overflows")

def add (a b : Int64) : Except RoutineError DispatchResult :=
  match int64? (a.toInt + b.toInt) with
  | some n => .ok (.value (.int n))
  | none => .error (overflows a " + " b.toInt)

def concat (a b : String) : Except RoutineError DispatchResult := .ok (.value (.str (a ++ b)))

/-! ### Suspending routines -/

/-- Asks for a procedure and goes on with its future; an unknown name ends the routine. -/
def ask (procedure : String) (k : FutureId → Poll Waiting) : Poll Waiting :=
  .invokeNamed procedure fun
    | .ok f => k f
    | .error fault => .fail (.interpreter fault)

/-- Goes on with a procedure's result. A fault of the procedure ends the routine. -/
def receive (f : FutureId) (waiting : Waiting) (k : Option Value → Poll Waiting) : Poll Waiting :=
  .observe f fun
    | none => .pending waiting
    | some (.returned v) => k v
    | some (.faulted fault) => .fail (.interpreter fault)

def finishInvoke (f : FutureId) : Poll Waiting :=
  receive f (.invoked f) fun v => .ready (.ok (.ofOption v))

/-- A fault of the procedure is its message, and void is null. -/
def finishTry (f : FutureId) : Poll Waiting :=
  .observe f fun
    | none => .pending (.tried f)
    | some (.returned v) => .ready (.ok (.value (v.getD .null)))
    | some (.faulted fault) => .ready (.ok (.value (.str fault.message)))

/-- Ten less than the answer. -/
def report (answer : Int64) : Except RoutineError DispatchResult :=
  match int64? (answer.toInt - 10) with
  | some n => .ok (.value (.int n))
  | none => .error (overflows answer " - " 10)

def finishAnswer (f : FutureId) : Poll Waiting :=
  receive f (.answered f) fun v =>
    match Shape.int.read v with
    | .ok answer => .ready (report answer)
    | .error e => .fail (.conversion e)

def finishSecond (f : FutureId) : Poll Waiting :=
  receive f (.calledSecond f) fun _ => .ready (.ok .void)

def finishFirst (f : FutureId) : Poll Waiting :=
  receive f (.calledFirst f) fun _ => ask "call_b" finishSecond

def poll : Waiting → Poll Waiting
  | .invoke procedure => ask procedure finishInvoke
  | .invoked f => finishInvoke f
  | .tryInvoke procedure => ask procedure finishTry
  | .tried f => finishTry f
  | .sumThenReport => ask "answer" finishAnswer
  | .answered f => finishAnswer f
  | .callBoth => ask "call_a" finishFirst
  | .calledFirst f => finishFirst f
  | .calledSecond f => finishSecond f

/-! ### The registry -/

/-- The built-ins for a registry whose suspended states include theirs by `embed`. -/
def routines {σ : Type} (embed : Waiting → σ) : List (Routine σ) :=
  [{ id := 1, name := "print", params := [.any]
     body := .sync fun (v, _) => ([.printed v], .ok .void) },
   { id := 2, name := "add", params := [.int, .int]
     body := .sync fun (a, b, _) => ([], add a b) },
   { id := 3, name := "concat", params := [.str, .str]
     body := .sync fun (a, b, _) => ([], concat a b) },
   { id := 10, name := "invoke", params := [.str]
     body := .suspending fun (name, _) => embed (.invoke name) },
   { id := 11, name := "try_invoke", params := [.str]
     body := .suspending fun (name, _) => embed (.tryInvoke name) },
   { id := 12, name := "sum_then_report", params := []
     body := .suspending fun _ => embed .sumThenReport },
   { id := 13, name := "call_both", params := []
     body := .suspending fun _ => embed .callBoth }]

def registry : Registry Waiting := { poll, routines := routines id }

end Reentrant.Builtin
