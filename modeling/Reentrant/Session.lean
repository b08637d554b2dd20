import Reentrant.Assembly.Assemble
import Reentrant.Builtin
import Reentrant.Describe
import Reentrant.Script

/-!
Sessions: several machines under one host, worked with command by command. The host is a bridge with
built-in and scripted routines, or a pair of scripted hooks, or nothing.
-/

namespace Reentrant

namespace Session

/-- The suspended routines of a session's bridge. -/
abbrev Waiting := Builtin.Waiting ⊕ Script.Waiting

def poll : Waiting → Poll Waiting
  | .inl w => (Builtin.poll w).map .inl
  | .inr w => (Script.poll w).map .inr

/-! ### Scripted hooks -/

/-- What a scripted hook does. Without a frame number it means the frame that the hook is about. -/
inductive Action where
  | push (v : Value)
  | pushTo (frame : Option FrameId) (v : Value)
  | pop
  | raise (frame : Option FrameId) (fault : Fault)
  | block (frame : Option FrameId)
  | unblock (frame : Option FrameId)
  | load (program : String)
  | abort
  | fail (message : String)

inductive Entry where
  | native (id : RoutineId) (caller : FrameId)
  | teardown (frame : FrameId) (outcome : Outcome) (operands : Nat)
  | popped (v : Option Value)
  | loaded (frame : FrameId)

/-- The actions of each routine number and of each frame number; `none` where no hook is installed. -/
structure Hooks where
  natives : Option (List (RoutineId × List Action)) := none
  teardowns : Option (List (FrameId × List Action)) := none

abbrev HookLog := Array Entry

namespace Action

def onMachine (r : Except AccessError Machine) (m : Machine) (log : HookLog) :
    Except HookError Unit × Machine × HookLog :=
  match r with
  | .ok m => (.ok (), m, log)
  | .error e => (.error (.access e), m, log)

/-- Does one action on behalf of the frame `self`. -/
def run (l : Library) (self : FrameId) (m : Machine) (log : HookLog) :
    Action → Except HookError Unit × Machine × HookLog
  | .push v => onMachine (m.push v) m log
  | .pushTo frame v => onMachine (m.pushTo (frame.getD self) v) m log
  | .pop =>
      let (v, m) := m.pop
      (.ok (), m, log.push (.popped v))
  | .raise frame fault => onMachine (m.raise (frame.getD self) fault) m log
  | .block frame => onMachine (m.block (frame.getD self)) m log
  | .unblock frame => onMachine (m.unblock (frame.getD self)) m log
  | .load program =>
      match l.get? program with
      | none => (.ok (), m, log)
      | some p =>
          let (id, m) := m.load p
          (.ok (), m, log.push (.loaded id))
  | .abort => (.ok (), m.abort.2, log)
  | .fail message => (.error (.other message), m, log)

/-- Does actions in order, up to the first failure. -/
def runAll (l : Library) (self : FrameId) :
    List Action → Machine → HookLog → Except HookError Unit × Machine × HookLog
  | [], m, log => (.ok (), m, log)
  | a :: rest, m, log =>
      match a.run l self m log with
      | (.ok (), m, log) => runAll l self rest m log
      | r => r

end Action

def Hooks.host (h : Hooks) (l : Library) : Host HookLog HookError where
  onNative := h.natives.map fun table id caller m log =>
    Action.runAll l caller ((table.lookup id).getD []) m (log.push (.native id caller))
  onTeardown := h.teardowns.map fun table t m log =>
    Action.runAll l t.frame ((table.lookup t.frame).getD []) m
      (log.push (.teardown t.frame t.outcome t.stack.length))

/-! ### Sessions -/

inductive Attachment where
  | nothing
  | bridge
  | hooks
  deriving DecidableEq

structure Slot where
  machine : Machine
  attachment : Attachment := .nothing

end Session

/-- Machines, what is installed on them, and what is left for the commands to take. -/
structure Session where
  library : Library := {}
  limits : Limits := {}
  slots : Array Session.Slot := #[]
  hooks : Session.Hooks := {}
  hookLog : Session.HookLog := #[]
  /-- The bridge, for as long as the session or a machine holds it. -/
  bridge : Option (Bridge Session.Waiting) := none
  /-- Whether the session itself holds the bridge. -/
  holdsBridge : Bool := false
  /-- Notes that have not been taken yet. -/
  trace : Array Note := #[]
  /-- Contexts that routines left behind. -/
  leaked : Array TaskId := #[]
  output : Array Value := #[]

namespace Session

inductive Code where
  | source (text : String)
  | programs (ps : List Program)

def Code.library (natives : List (String × RoutineId)) :
    Code → Except Assembly.AssemblyError Library
  | .source text => (Assembly.assemble natives text).map Library.ofList
  | .programs ps => .ok (.ofList ps)

/-- What to do next; most commands concern one machine. -/
inductive Command where
  | loadEntry (program : String)
  | load (program : String)
  | step (count : Nat)
  | run
  | runUntilDone
  | push (v : Value)
  | pushTo (frame : FrameId) (v : Value)
  | pop
  | raise (frame : FrameId) (fault : Fault)
  | block (frame : FrameId)
  | unblock (frame : FrameId)
  | isBlocked (frame : FrameId)
  | hasFrame (frame : FrameId)
  | abort
  | state
  | describeMachine
  | describeBridge
  | takeHookLog
  | takeTrace
  | setLibrary (code : Code)
  | install
  | newMachine
  | dropBridge
  | pendingFrames
  | abandon
  | journal
  | leakedCaller (index : Nat)
  | leakedDescription (index : Nat)
  | leakedInvoke (index : Nat) (procedure : String)
  | leakedInvokeProgram (index : Nat) (program : String)

/-- A step's result, and the current frame, its place and its operands afterwards. -/
structure StepRow where
  result : Except (Halt HookError) Progress
  current : Option Frame

inductive Reply where
  | done
  | nothing
  | flag (b : Bool)
  | count (n : Nat)
  | text (s : String)
  | value (v : Option Value)
  | frame (id : FrameId)
  | noProgram
  | steps (rows : List StepRow)
  | outcome (o : Outcome)
  | halted (e : Halt HookError)
  /-- The run was given up before it ended. -/
  | unfinished
  | machine (m : Machine)
  | hookLog (entries : List Entry)
  | trace (notes : List Note)
  | frames (ids : List FrameId)
  | events (es : List Event)
  | future (state : Option Outcome)
  | routineError (e : RoutineError)
  | assemblyError (e : Assembly.AssemblyError)

/-- Notes that are neither prints nor contexts left behind. -/
def isTrace : Note → Bool
  | .printed _ => false
  | .leaked _ => false
  | _ => true

def absorb (s : Session) : Session :=
  match s.bridge with
  | none => s
  | some b =>
      { s with
        bridge := some { b with notes := #[] }
        trace := s.trace ++ b.notes.filter isTrace
        leaked := s.leaked ++ b.notes.filterMap fun | .leaked t => some t | _ => none
        output := s.output ++ b.notes.filterMap fun | .printed v => some v | _ => none }

/-- Lets the bridge go once nobody holds it. -/
def collect (s : Session) : Session :=
  if s.holdsBridge || s.slots.any (·.attachment == .bridge) then s else { s with bridge := none }

/-- The machine in a slot; there is one in every slot that a command names. -/
def slot (s : Session) (i : Nat) : Slot := (s.slots[i]?).getD { machine := {} }

def setMachine (s : Session) (i : Nat) (m : Machine) : Session :=
  { s with slots := s.slots.modify i fun x => { x with machine := m } }

def withHost {α : Type} (s : Session) (i : Nat)
    (go : (ω : Type) → Host ω HookError → Machine → ω → α × Machine × ω) : α × Session :=
  let x := s.slot i
  match x.attachment, s.bridge with
  | .bridge, some b =>
      let (a, m, b) := go _ Bridge.host x.machine b
      (a, ({ s with bridge := some b }.setMachine i m).absorb)
  | .hooks, _ =>
      let (a, m, log) := go _ (s.hooks.host s.library) x.machine s.hookLog
      (a, { s with hookLog := log }.setMachine i m)
  | _, _ =>
      let (a, m, _) := go Unit {} x.machine ()
      (a, s.setMachine i m)

/-- Takes at most `n` steps, ending with the first that is not followed by more. -/
def steps {ω : Type} (h : Host ω HookError) : Nat → Machine → ω → List StepRow × Machine × ω
  | 0, m, w => ([], m, w)
  | n + 1, m, w =>
      match m.step h w with
      | (.ok .proceed, m, w) =>
          let row : StepRow := ⟨.ok .proceed, m.frames.head?⟩
          let (rows, m, w) := steps h n m w
          (row :: rows, m, w)
      | (r, m, w) => ([⟨r, m.frames.head?⟩], m, w)

def access (s : Session) (i : Nat) (r : Except AccessError Machine) : Reply × Session :=
  match r with
  | .ok m => (.done, s.setMachine i m)
  | .error e => (.halted (.access e), s)

def symbols (s : Session) : List (String × RoutineId) :=
  match s.bridge with
  | some b => b.registry.symbols
  | none => []

/-- Uses other programs from now on, in the session's bridge too. -/
def useLibrary (s : Session) (l : Library) : Session :=
  let s := { s with library := l }
  match s.bridge with
  | some b => if s.holdsBridge then { s with bridge := some { b with library := l } } else s
  | none => s

def invokeLeaked (s : Session) (index : Nat) (p : Program) : Reply × Session :=
  match s.bridge, s.leaked[index]? with
  | some b, some t =>
      let (f, b) := b.invokeFor t p
      (.future (b.futures.outcome? f), { s with bridge := some b })
  | _, _ => (.future (some (.faulted .notInstalled)), s)

/-- Whom a context that was left behind names as its caller. -/
def leakedCaller (s : Session) (index : Nat) : Option FrameId := do
  let b ← s.bridge
  let t ← s.leaked[index]?
  b.callerOf t

/-- Does a command that concerns the bridge held by the session. -/
def withBridge (s : Session) (go : Bridge Waiting → Reply × Bridge Waiting) : Reply × Session :=
  match s.holdsBridge, s.bridge with
  | true, some b =>
      let (r, b) := go b
      (r, { s with bridge := some b })
  | _, _ => (.nothing, s)

/-- Does one command, on the machine in slot `i` where it concerns one. -/
def perform (s : Session) (i : Nat) : Command → Reply × Session
  | .loadEntry program =>
      match s.library.get? program with
      | none => (.noProgram, s)
      | some p =>
          let (id, m) := (s.slot i).machine.loadEntry p
          (.frame id, s.setMachine i m)
  | .load program =>
      match s.library.get? program with
      | none => (.noProgram, s)
      | some p =>
          let (id, m) := (s.slot i).machine.load p
          (.frame id, s.setMachine i m)
  | .step n =>
      let (rows, s) := s.withHost i fun _ h m w => steps h n m w
      (.steps rows, s)
  | .run =>
      match s.withHost i fun _ h m w => m.run h Machine.stepsGiven w with
      | (none, s) => (.unfinished, s)
      | (some (.ok o), s) => (.outcome o, s)
      | (some (.error e), s) => (.halted e, s)
  | .runUntilDone =>
      match s.withHost i fun _ h m w => m.drain h Machine.stepsGiven w with
      | (none, s) => (.unfinished, s)
      | (some (.ok ()), s) => (.done, s)
      | (some (.error e), s) => (.halted e, s)
  | .push v => s.access i ((s.slot i).machine.push v)
  | .pushTo frame v => s.access i ((s.slot i).machine.pushTo frame v)
  | .pop =>
      let (v, m) := (s.slot i).machine.pop
      (.value v, s.setMachine i m)
  | .raise frame fault => s.access i ((s.slot i).machine.raise frame fault)
  | .block frame => s.access i ((s.slot i).machine.block frame)
  | .unblock frame => s.access i ((s.slot i).machine.unblock frame)
  | .isBlocked frame => (.flag ((s.slot i).machine.isBlocked frame), s)
  | .hasFrame frame => (.flag ((s.slot i).machine.hasFrame frame), s)
  | .abort =>
      let (n, m) := (s.slot i).machine.abort
      (.count n, s.setMachine i m)
  | .state => (.machine (s.slot i).machine, s)
  | .describeMachine => (.text (Describe.machine (s.slot i).machine), s)
  | .describeBridge => s.withBridge fun b => (.text (Describe.bridge b), b)
  | .takeHookLog => (.hookLog s.hookLog.toList, { s with hookLog := #[] })
  | .takeTrace => (.trace s.trace.toList, { s with trace := #[] })
  | .setLibrary code =>
      match code.library s.symbols with
      | .error e => (.assemblyError e, s)
      | .ok l => (.done, s.useLibrary l)
  | .install =>
      if s.holdsBridge then
        (.done, { s with slots := s.slots.modify i fun x => { x with attachment := .bridge } })
      else (.done, s)
  | .newMachine =>
      let fresh : Slot := { machine := { limits := s.limits } }
      (.done, { s with slots := s.slots.modify i fun _ => fresh }.collect)
  | .dropBridge => (.done, { s with holdsBridge := false }.collect)
  | .pendingFrames => s.withBridge fun b => (.frames b.table.frames, b)
  | .abandon => s.withBridge fun b =>
      let (n, b) := b.abandon
      (.count n, b)
  | .journal => s.withBridge fun b => (.events b.journal.events.toList, b)
  | .leakedCaller index =>
      match s.leakedCaller index with
      | some id => (.frame id, s)
      | none => (.nothing, s)
  | .leakedDescription index => (.text (Describe.context (s.leakedCaller index)), s)
  | .leakedInvoke index procedure =>
      match s.bridge.bind fun b => b.library.get? procedure with
      | none => (.routineError (.interpreter (.noProcedure procedure)), s)
      | some p => s.invokeLeaked index p
  | .leakedInvokeProgram index program =>
      match s.library.get? program with
      | none => (.noProgram, s)
      | some p => s.invokeLeaked index p

def gauge (s : Session) (i : Nat) : Nat × Option FrameId × Nat :=
  let m := (s.slot i).machine
  (m.depth, m.current, m.steps)

def bridgeGauge (s : Session) : Option (Nat × Nat) :=
  match s.holdsBridge, s.bridge with
  | true, some b => some (b.pending, b.suspended)
  | _, _ => none

/-! ### Beginning a session -/

inductive Setup where
  | bridge (builtins : Bool) (routines : List (Routine Waiting)) (journal : Bool)
  | hooks (h : Hooks)

inductive SetupError where
  | registry (e : RegistryError)
  | assembly (e : Assembly.AssemblyError)

/-- A machine for every slot, with the host installed on each. -/
def begin (code : Code) (limits : Limits) (machines : Nat) : Setup → Except SetupError Session
  | .bridge builtins routines journal =>
      let all := (if builtins then Builtin.routines .inl else []) ++ routines
      match Registry.registerAll { poll } all with
      | .error e => .error (.registry e)
      | .ok registry =>
          match code.library registry.symbols with
          | .error e => .error (.assembly e)
          | .ok library => .ok
              { library, limits
                slots := Array.replicate machines { machine := { limits }, attachment := .bridge }
                bridge := some { registry, library, journal := { enabled := journal } }
                holdsBridge := true }
  | .hooks hooks =>
      match code.library [] with
      | .error e => .error (.assembly e)
      | .ok library => .ok
          { library, limits, hooks
            slots := Array.replicate machines { machine := { limits }, attachment := .hooks } }

end Session

end Reentrant
