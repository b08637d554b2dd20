import Reentrant.Journal
import Reentrant.PendingTable
import Reentrant.Registry

/-!
The bridge lets a host routine that a program calls run more programs and wait for them, although the
machine never recurses: the routine is suspended, its caller blocked, and the frames it asked for are
loaded on top. The end of such a frame resolves the future that the routine waits on, and the routine
is polled again on the spot.

A native call (`Bridge.dispatch`) and the end of a frame (`Bridge.complete`) both end with
`Bridge.flush`, which applies to the machine what has been queued by then.
-/

namespace Reentrant

/-- What runs when a future resolves. -/
inductive Continuation where
  /-- One of a routine's invocations ended: poll the routine again. -/
  | resume (task : TaskId)
  | callback (c : Callback)

namespace Continuation

instance (k : Continuation) (t : TaskId) : Decidable (k = .resume t) :=
  match k with
  | .resume s => decidable_of_iff (s = t) (by simp)
  | .callback _ => isFalse nofun

instance (k : Option Continuation) (t : TaskId) : Decidable (k = some (.resume t)) :=
  match k with
  | none => isFalse nofun
  | some k => decidable_of_iff (k = .resume t) (by simp)

end Continuation

inductive Activity (σ : Type) where
  | idle (state : σ)
  | running
  | over

namespace Activity

def isOver {σ : Type} : Activity σ → Bool
  | .over => true
  | _ => false

end Activity

/-- A suspending routine that has started. -/
structure Task (σ : Type) where
  id : TaskId
  /-- The frame that executed the native instruction. -/
  caller : FrameId
  routine : String
  activity : Activity σ
  /-- Invocations issued since the last poll ended, oldest first. -/
  issued : List FutureId := []
  /-- Invocations that a continuation of this task waits for. -/
  outstanding : Nat := 0
  /-- Whether the task is still waited for; it is until its result is queued. -/
  listed : Bool := true
  /-- How many polls of it have not been followed up yet. -/
  drives : Nat := 0

structure Invocation where
  program : Program
  future : FutureId
  caller : FrameId

/-- A result that waits to reach its calling frame. -/
structure Completion where
  caller : FrameId
  result : DispatchResult

/-- The bridge's state, for routines whose suspended states are in `σ`. -/
structure Bridge (σ : Type) where
  registry : Registry σ
  library : Library := {}
  futures : FutureStore Continuation := {}
  table : PendingTable := {}
  tasks : List (Task σ) := []
  outbox : List Invocation := []
  completions : List Completion := []
  journal : Journal := {}
  nextTask : TaskId := 1
  /-- The first violation since the last flush. -/
  fatal : Option BridgeError := none
  /-- What routines let the outside see, oldest first. -/
  notes : Array Note := #[]
  /-- How deeply continuations may run inside one another within one step. The bridge as specified has
  no such bound: there, the call stack of the process overflows instead. -/
  nesting : Nat := 65536

namespace Fault

def noProcedure (name : String) : Fault :=
  ⟨unknownProcedure, "no procedure named `" ++ name ++ "`"⟩

/-- The fault of an invocation through a context whose routine is gone. -/
def notInstalled : Fault := ⟨routineFailure, "bridge is no longer installed"⟩

def stalled (routine : String) : Fault :=
  ⟨routineStalled, "`" ++ routine ++ "` suspended without a pending invocation"⟩

end Fault

namespace Bridge

variable {σ : Type}

/-! ### Bookkeeping -/

def record (b : Bridge σ) (e : Event) : Bridge σ := { b with journal := b.journal.record e }

def addNote (b : Bridge σ) (n : Note) : Bridge σ := { b with notes := b.notes.push n }

def fail (b : Bridge σ) (e : BridgeError) : Bridge σ := { b with fatal := e.remember b.fatal }

def finish (b : Bridge σ) (caller : FrameId) (routine : String) (result : DispatchResult) :
    Bridge σ :=
  { b.record (.routineFinished caller routine result) with
    completions := b.completions ++ [⟨caller, result⟩] }

def task? (b : Bridge σ) (t : TaskId) : Option (Task σ) := b.tasks.find? (·.id == t)

/-- Whom a routine's context names as its caller, as long as the routine is there. -/
def callerOf (b : Bridge σ) (t : TaskId) : Option FrameId := (b.task? t).map (·.caller)

def modifyTask (b : Bridge σ) (t : TaskId) (change : Task σ → Task σ) : Bridge σ :=
  { b with tasks := b.tasks.map fun x => if x.id = t then change x else x }

/-- Invoked frames that have not ended. -/
def pending (b : Bridge σ) : Nat := b.table.size

def suspended (b : Bridge σ) : Nat := b.tasks.countP (·.listed)

/-! ### Futures -/

def settle (fire : Continuation → Bridge σ → Bridge σ) (b : Bridge σ) (f : FutureId) (o : Outcome) :
    Option FutureError × Bridge σ :=
  match b.futures.resolve f o with
  | .error e => (some e, b)
  | .ok (futures, none) => (none, { b with futures })
  | .ok (futures, some k) => (none, fire k { b with futures })

/-- Registers a continuation, which runs at once if the future is resolved already. -/
def attach (fire : Continuation → Bridge σ → Bridge σ) (b : Bridge σ) (f : FutureId)
    (k : Continuation) : Option FutureError × Bridge σ :=
  match b.futures.register f k with
  | .error e => (some e, b)
  | .ok (futures, none) => (none, { b with futures })
  | .ok (futures, some k) => (none, fire k { b with futures })

/-- Issues an invocation for a task: its frame is loaded by the next flush. -/
def issue (b : Bridge σ) (t : TaskId) (caller : FrameId) (p : Program) : FutureId × Bridge σ :=
  let (f, futures) := b.futures.create
  let b : Bridge σ := { b with futures, outbox := b.outbox ++ [⟨p, f, caller⟩] }
  (f, b.modifyTask t fun x => { x with issued := x.issued ++ [f] })

/-- Invokes a program through a routine's context. Once the routine is gone the future has failed
already. -/
def invokeFor (b : Bridge σ) (t : TaskId) (p : Program) : FutureId × Bridge σ :=
  match b.task? t with
  | some task => b.issue t task.caller p
  | none =>
      let (f, futures) := b.futures.create
      (f, { b with futures := futures.set f { outcome := some (.faulted .notInstalled) } })

def callBack (fire : Continuation → Bridge σ → Bridge σ) : Callback → Bridge σ → Bridge σ
  | .done, b => b
  | .callerOf t k, b => callBack fire (k (b.callerOf t)) b
  | .invoke t p k, b =>
      let (f, b) := b.invokeFor t p
      callBack fire (k f) b
  | .invokeNamed t name k, b =>
      match b.library.get? name with
      | none => callBack fire (k (.error (.noProcedure name))) b
      | some p =>
          let (f, b) := b.invokeFor t p
          callBack fire (k (.ok f)) b
  | .observe f k, b => callBack fire (k (b.futures.outcome? f)) b
  | .resolve f o k, b =>
      let (e, b) := b.settle fire f o
      callBack fire (k e) b
  | .register f c k, b =>
      let (e, b) := b.attach fire f (.callback c)
      callBack fire (k e) b
  | .note n k, b => callBack fire k (b.addNote n)

/-! ### Polling -/

inductive Answer (σ : Type) where
  | ready (result : Except RoutineError DispatchResult)
  | pending (state : σ)

/-- Grants a routine's requests, one after the other, until its poll ends. -/
def converse (fire : Continuation → Bridge σ → Bridge σ) (t : TaskId) (caller : FrameId) :
    Poll σ → Bridge σ → Answer σ × Bridge σ
  | .ready r, b => (.ready r, b)
  | .pending s, b => (.pending s, b)
  | .context k, b => converse fire t caller (k t caller) b
  | .invoke p k, b =>
      let (f, b) := b.issue t caller p
      converse fire t caller (k f) b
  | .invokeNamed name k, b =>
      match b.library.get? name with
      | none => converse fire t caller (k (.error (.noProcedure name))) b
      | some p =>
          let (f, b) := b.issue t caller p
          converse fire t caller (k (.ok f)) b
  | .observe f k, b => converse fire t caller (k (b.futures.outcome? f)) b
  | .resolve f o k, b =>
      let (e, b) := b.settle fire f o
      converse fire t caller (k e) b
  | .register f c k, b =>
      let (e, b) := b.attach fire f (.callback c)
      converse fire t caller (k e) b
  | .note n k, b => converse fire t caller k (b.addNote n)

/-- Makes the end of each of a task's new invocations resume the task. -/
def awaitAll (fire : Continuation → Bridge σ → Bridge σ) (t : TaskId) :
    List FutureId → Bridge σ → Except BridgeError Unit × Bridge σ
  | [], b => (.ok (), b)
  | f :: fs, b =>
      let b := b.modifyTask t fun x => { x with outstanding := x.outstanding + 1 }
      match b.attach fire f (.resume t) with
      | (some e, b) => (.error (.future e), b)
      | (none, b) => awaitAll fire t fs b

/-- Queues a task's result; nobody waits for the task any more. -/
def conclude (b : Bridge σ) (task : Task σ) (result : DispatchResult) : Bridge σ :=
  (b.finish task.caller task.routine result).modifyTask task.id fun x =>
    { x with activity := .over, listed := false }

def deliverable (routine : String) : Except RoutineError DispatchResult → DispatchResult
  | .ok r => r
  | .error e => .fault (DispatchError.failed routine e).toFault

def checkStalled (b : Bridge σ) (task : Task σ) : Bridge σ :=
  if (b.task? task.id).any (·.outstanding == 0) then
    b.conclude task (.fault (.stalled task.routine))
  else b

def followUp (fire : Continuation → Bridge σ → Bridge σ) (task : Task σ) (answer : Answer σ)
    (b : Bridge σ) : Except BridgeError Unit × Bridge σ :=
  let issued := ((b.task? task.id).map (·.issued)).getD []
  let b := b.modifyTask task.id fun x => { x with issued := [] }
  match answer with
  | .ready r => (.ok (), b.conclude task (deliverable task.routine r))
  | .pending s =>
      let b := b.modifyTask task.id fun x => { x with activity := .idle s }
      match b.awaitAll fire task.id issued with
      | (.error e, b) => (.error e, b)
      | (.ok (), b) => (.ok (), b.checkStalled task)

/-- Forgets a task that is neither waited for nor being polled. -/
def release (b : Bridge σ) (t : TaskId) : Bridge σ :=
  let b := b.modifyTask t fun x => { x with drives := x.drives - 1 }
  { b with tasks := b.tasks.filter fun x => x.id != t || x.listed || x.drives != 0 }

/-- Polls a task once and follows the poll up. A task that is over is left alone; one that is being
polled already cannot be polled, and the process ends. -/
def drive (fire : Continuation → Bridge σ → Bridge σ) (t : TaskId) (b : Bridge σ) :
    Except BridgeError Unit × Bridge σ :=
  match b.task? t with
  | none => (.ok (), b)
  | some task =>
      match task.activity with
      | .idle s =>
          let b := b.modifyTask t fun x => { x with activity := .running, drives := x.drives + 1 }
          let (answer, b) := b.converse fire t task.caller (b.registry.poll s)
          let (r, b) := b.followUp fire task answer
          (r, b.release t)
      | .running => (.ok (), b.fail .reentered)
      | .over => (.ok (), b)

/-- Runs a continuation, and those that it sets off inside itself, at most `depth` deep. -/
def fire : (depth : Nat) → Continuation → Bridge σ → Bridge σ
  | 0, _, b => b.fail .nestedTooDeep
  | depth + 1, .callback c, b => b.callBack (fire depth) c
  | depth + 1, .resume t, b =>
      match b.task? t with
      | none => b
      | some task =>
          let b := b.modifyTask t fun x => { x with outstanding := x.outstanding - 1 }
          let b := b.record (.resumed task.caller task.routine)
          match b.drive (fire depth) t with
          | (.ok (), b) => b
          | (.error e, b) => b.fail e

/-! ### Applying what is queued -/

/-- Loads the invocations that were issued, in the order of issue, and enters their frames into the
table. -/
def loadAll : List Invocation → Machine → Bridge σ → Except HookError Unit × Machine × Bridge σ
  | [], m, b => (.ok (), m, b)
  | i :: rest, m, b =>
      let (frame, m) := m.load i.program
      let b := b.record (.frameLoaded frame i.program.name i.caller)
      match b.table.insert frame i.future with
      | .error e => (.error (.bridge e), m, b)
      | .ok table => loadAll rest m { b with table }

def deliver (c : Completion) (m : Machine) : Except AccessError Machine :=
  match m.unblock c.caller with
  | .error e => .error e
  | .ok m =>
      match c.result with
      | .void => .ok m
      | .value v => m.pushTo c.caller v
      | .fault f => m.raise c.caller f

def deliverAll : List Completion → Machine → Except HookError Unit × Machine
  | [], m => (.ok (), m)
  | c :: rest, m =>
      match deliver c m with
      | .error e => (.error (.access e), m)
      | .ok m => deliverAll rest m

/-- Applies everything queued since the last flush: first the new frames, then the results. After a
violation nothing is applied and the violation is passed on. -/
def flush (m : Machine) (b : Bridge σ) : Except HookError Unit × Machine × Bridge σ :=
  match b.fatal with
  | some e => (.error (.bridge e), m, { b with fatal := none })
  | none =>
      match loadAll b.outbox m { b with outbox := [] } with
      | (.error e, m, b) => (.error e, m, b)
      | (.ok (), m, b) =>
          let (r, m) := deliverAll b.completions m
          (r, m, { b with completions := [] })

/-! ### Native calls -/

/-- Pops `n` operands off the current frame, the deepest first in the result; too few are popped all
the same, and counted. -/
def popArguments (m : Machine) (n : Nat) : Except Nat (List Value) × Machine :=
  go n [] m
where
  go : Nat → List Value → Machine → Except Nat (List Value) × Machine
    | 0, taken, m => (.ok taken, m)
    | n + 1, taken, m =>
        match m.pop with
        | (some v, m) => go n (v :: taken) m
        | (none, m) => (.error taken.length, m)

/-- Starts a suspending routine. The result says whether it now waits. -/
def start (b : Bridge σ) (caller : FrameId) (routine : String) (s : σ) : Bool × Bridge σ :=
  let t := b.nextTask
  let b := { b with
    nextTask := t + 1
    tasks := { id := t, caller, routine, activity := .idle s } :: b.tasks }
  let b :=
    match b.drive (fire b.nesting) t with
    | (.ok (), b) => b
    | (.error e, b) => b.fail e
  ((b.task? t).any (!·.activity.isOver), b)

def apply (b : Bridge σ) (caller : FrameId) (r : Routine σ) (args : List Value) :
    Except DispatchError Bool × Bridge σ :=
  match r.body, Arguments.read r.params args with
  | .sync _, .error (index, e) => (.error (.argument r.name index e), b)
  | .suspending _, .error (index, e) =>
      (.error (.argument r.name index e), { b with nextTask := b.nextTask + 1 })
  | .sync run, .ok xs =>
      let (notes, result) := run xs
      let b := notes.foldl addNote b
      match result with
      | .ok d => (.ok false, b.finish caller r.name d)
      | .error e => (.error (.failed r.name e), b)
  | .suspending start, .ok xs =>
      let (waits, b) := b.start caller r.name (start xs)
      (.ok waits, b)

/-- Looks a routine up, takes its operands and runs it. The result says whether it now waits. -/
def call (id : RoutineId) (caller : FrameId) (m : Machine) (b : Bridge σ) :
    Except DispatchError Bool × Machine × Bridge σ :=
  match b.registry.get? id with
  | none => (.error (.unknownRoutine id), m, b)
  | some r =>
      let b := b.record (.dispatchStarted caller r.name id)
      match popArguments m r.arity with
      | (.error found, m) => (.error (.arity r.name r.arity found), m, b)
      | (.ok args, m) =>
          let (result, b) := b.apply caller r args
          (result, m, b)

/-- The name under which a routine's results are recorded; an unregistered one has its number. -/
def routineName (b : Bridge σ) (id : RoutineId) : String :=
  match b.registry.get? id with
  | some r => r.name
  | none => "#" ++ Decimal.text id.toNat

/-- A native call. Whatever fails on the way becomes a fault on the calling frame; a frame whose
routine waits is blocked. -/
def dispatch (id : RoutineId) (caller : FrameId) (m : Machine) (b : Bridge σ) :
    Except HookError Unit × Machine × Bridge σ :=
  match call id caller m b with
  | (.ok false, m, b) => flush m b
  | (.ok true, m, b) =>
      match m.block caller with
      | .ok m => flush m b
      | .error e => (.error (.access e), m, b)
  | (.error e, m, b) => flush m (b.finish caller (b.routineName id) (.fault e.toFault))

/-! ### Ends of frames -/

/-- The end of a frame. If an invocation waits for it, its future gets the frame's outcome. -/
def complete (t : Teardown) (m : Machine) (b : Bridge σ) :
    Except HookError Unit × Machine × Bridge σ :=
  let b := b.record (.frameTornDown t.frame t.faulted)
  match b.table.remove t.frame with
  | (none, _) => flush m b
  | (some f, table) =>
      match { b with table }.settle (fire b.nesting) f t.outcome with
      | (none, b) => flush m b
      | (some e, b) => flush m (b.fail (.future e))

def host : Host (Bridge σ) HookError where
  onNative := some dispatch
  onTeardown := some complete

/-! ### From outside a step -/

/-- Drops every pending invocation and every waiting routine, and says how many entries the table
had. Nothing is resumed. -/
def abandon (b : Bridge σ) : Nat × Bridge σ :=
  (b.table.size,
    { b with table := {}, tasks := [], outbox := [], completions := [], fatal := none })

end Bridge

end Reentrant
