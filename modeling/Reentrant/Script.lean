import Reentrant.Bridge

/-!
Scripted routines: host routines given as lists of steps. A script keeps one optional value, the
accumulator, which is also its result, and a suspending script keeps invocations in named slots.
-/

namespace Reentrant.Script

/-- A step that needs no bridge. -/
inductive Action where
  | arg (index : Nat)
  | const (v : Option Value)
  /-- Read the accumulator at a shape. -/
  | convert (s : Shape)
  | fail (message : String)
  /-- Fail with a message wrapped in another one. -/
  | failWithin (message context : String)
  | fault (f : Fault)
  | trace (label : String)
  | stop
  deriving DecidableEq

inductive Effect where
  | set (acc : Option Value)
  | note (n : Note)
  | stop
  | fail (e : RoutineError)

def Action.effect (args : List Value) (acc : Option Value) : Action → Effect
  | .arg index => .set (args[index]?)
  | .const v => .set v
  | .convert s =>
      match s.read acc with
      | .ok x => .set (some (s.toValue x))
      | .error e => .fail (.conversion e)
  | .fail m => .fail (.ofMessage m)
  | .failWithin m context => .fail (.host m [context])
  | .fault f => .fail (.interpreter f)
  | .trace label => .note (.traced label acc)
  | .stop => .stop

/-- What a script gives for its accumulator: the accumulator, or nothing if it is `unit`. -/
def result (unit : Bool) (acc : Option Value) : DispatchResult :=
  if unit then .void else .ofOption acc

/-- Runs a synchronous script, with the notes it left. -/
def run (unit : Bool) (args : List Value) :
    List Action → Option Value → List Note × Except RoutineError DispatchResult
  | [], acc => ([], .ok (result unit acc))
  | a :: rest, acc =>
      match a.effect args acc with
      | .set acc => run unit args rest acc
      | .note n =>
          let (notes, r) := run unit args rest acc
          (n :: notes, r)
      | .stop => ([], .ok (result unit acc))
      | .fail e => ([], .error e)

/-- A step of a suspending script. -/
inductive Step where
  | act (a : Action)
  | issue (slot procedure : String)
  /-- Issue the procedure that an argument names. -/
  | issueArg (slot : String) (index : Nat)
  | await (slot : String)
  /-- Await, with a fault as its text. -/
  | tryAwait (slot : String)
  | call (s : Shape) (procedure : String)
  /-- Wait for a procedure that was called. -/
  | receive (s : Shape) (f : FutureId)
  | join (slots : List String)
  | race (slots : List String)
  /-- Be polled once more before going on. -/
  | yield
  | stall
  | inspect (slot : String)
  | caller
  | describe
  | resolve (slot : String) (v : Option Value)
  | resolveError (slot : String) (f : Fault)
  | register (slot : String)
  | leak

/-- A suspended script. -/
structure Waiting where
  unit : Bool
  args : List Value
  todo : List Step
  acc : Option Value := none
  /-- The newest assignment of a slot comes first. -/
  slots : List (String × FutureId) := []

def observeAll {σ : Type} : List FutureId → (List (Option Outcome) → Poll σ) → Poll σ
  | [], k => k []
  | f :: fs, k => .observe f fun o => observeAll fs fun os => k (o :: os)

def firstResolved (index : Nat) : List (Option Outcome) → Option (Nat × Outcome)
  | [] => none
  | some o :: _ => some (index, o)
  | none :: rest => firstResolved (index + 1) rest

/-- The texts of several results, or the first fault among them. -/
def joined : List Outcome → Except Fault (List String)
  | [] => .ok []
  | .faulted f :: _ => .error f
  | .returned v :: rest =>
      match joined rest with
      | .error f => .error f
      | .ok texts => .ok ((match v with | some v => v.display | none => "void") :: texts)

def allResolved : List (Option Outcome) → Option (List Outcome)
  | [] => some []
  | none :: _ => none
  | some o :: rest => (allResolved rest).map (o :: ·)

def emptySlot (slot : String) : RoutineError := .ofMessage ("nothing in slot `" ++ slot ++ "`")

/-- Runs the steps that are left, from the state `w`. -/
def proceed (w : Waiting) : List Step → Option Value → List (String × FutureId) → Poll Waiting
  | [], acc, _ => .ready (.ok (result w.unit acc))
  | step :: rest, acc, slots =>
      let wait (steps : List Step) : Poll Waiting := .pending { w with todo := steps, acc, slots }
      let withSlot (slot : String) (k : FutureId → Poll Waiting) : Poll Waiting :=
        match slots.lookup slot with
        | some f => k f
        | none => .fail (emptySlot slot)
      let ask (procedure : String) (k : FutureId → Poll Waiting) : Poll Waiting :=
        .invokeNamed procedure fun
          | .error fault => .fail (.interpreter fault)
          | .ok f => k f
      match step with
      | .act a =>
          match a.effect w.args acc with
          | .set acc => proceed w rest acc slots
          | .note n => .note n (proceed w rest acc slots)
          | .stop => .ready (.ok (result w.unit acc))
          | .fail e => .fail e
      | .issue slot procedure =>
          ask procedure fun f => proceed w rest acc ((slot, f) :: slots)
      | .issueArg slot index =>
          ask (w.args[index]?.getD .null).display fun f =>
            proceed w rest acc ((slot, f) :: slots)
      | .await slot => withSlot slot fun f => .observe f fun
          | none => wait (step :: rest)
          | some (.returned v) => proceed w rest v slots
          | some (.faulted fault) => .fail (.interpreter fault)
      | .tryAwait slot => withSlot slot fun f => .observe f fun
          | none => wait (step :: rest)
          | some (.returned v) => proceed w rest v slots
          | some (.faulted fault) => proceed w rest (some (.str fault.display)) slots
      | .call s procedure => ask procedure fun f => .observe f fun
          | none => wait (.receive s f :: rest)
          | some (.returned v) =>
              match s.read v with
              | .ok x => proceed w rest (some (s.toValue x)) slots
              | .error e => .fail (.conversion e)
          | some (.faulted fault) => .fail (.interpreter fault)
      | .receive s f => .observe f fun
          | none => wait (step :: rest)
          | some (.returned v) =>
              match s.read v with
              | .ok x => proceed w rest (some (s.toValue x)) slots
              | .error e => .fail (.conversion e)
          | some (.faulted fault) => .fail (.interpreter fault)
      | .join names =>
          match names.mapM (slots.lookup ·) with
          | none => .fail (emptySlot (", ".intercalate names))
          | some fs => observeAll fs fun os =>
              match allResolved os with
              | none => wait (step :: rest)
              | some outcomes =>
                  match joined outcomes with
                  | .error fault => .fail (.interpreter fault)
                  | .ok texts => proceed w rest (some (.str (",".intercalate texts))) slots
      | .race names =>
          match names.mapM (slots.lookup ·) with
          | none => .fail (emptySlot (", ".intercalate names))
          | some fs => observeAll fs fun os =>
              match firstResolved 0 os with
              | none => wait (step :: rest)
              | some (index, .returned v) => .note (.raced index) (proceed w rest v slots)
              | some (index, .faulted fault) =>
                  .note (.raced index) (.fail (.interpreter fault))
      | .yield => wait rest
      | .stall => wait (step :: rest)
      | .inspect slot => withSlot slot fun f => .observe f fun o =>
          .note (.inspected slot o) (proceed w rest acc slots)
      | .caller => .context fun _ caller => .note (.called caller) (proceed w rest acc slots)
      | .describe => .context fun _ caller => .note (.described caller) (proceed w rest acc slots)
      | .resolve slot v => withSlot slot fun f => .resolve f (.returned v) fun e =>
          .note (.touched "resolve" e) (proceed w rest acc slots)
      | .resolveError slot fault => withSlot slot fun f => .resolve f (.faulted fault) fun e =>
          .note (.touched "resolve_error" e) (proceed w rest acc slots)
      | .register slot => withSlot slot fun f => .register f (.note (.fired slot) .done) fun e =>
          .note (.touched "register" e) (proceed w rest acc slots)
      | .leak => .context fun task _ => .note (.leaked task) (proceed w rest acc slots)

def poll (w : Waiting) : Poll Waiting := proceed w w.todo w.acc w.slots

inductive Steps where
  | sync (actions : List Action)
  | suspending (steps : List Step)

/-- A scripted routine for a registry whose suspended states include scripts by `embed`. -/
def routine {σ : Type} (embed : Waiting → σ) (id : RoutineId) (name : String) (params : List Shape)
    (unit : Bool) (steps : Steps) : Routine σ where
  id
  name
  params
  body :=
    match steps with
    | .sync actions => .sync fun xs => run unit (xs.toValues params) actions none
    | .suspending todo => .suspending fun xs => embed { unit, args := xs.toValues params, todo }

end Reentrant.Script
