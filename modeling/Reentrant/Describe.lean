import Reentrant.Bridge
import Reentrant.Text.Quoted

/-! Descriptions of states for developers: every type by its name and its fields in order. -/

namespace Reentrant.Describe

/-! ### Shapes of descriptions -/

/-- A name with parts in parentheses. -/
def tuple (name : String) (parts : List String) : String :=
  name ++ "(" ++ ", ".intercalate parts ++ ")"

/-- A name with fields in braces; two dots stand for fields that are left out. -/
def fields (name : String) (fs : List (String × String)) (partly : Bool) : String :=
  let shown := fs.map (fun f => f.1 ++ ": " ++ f.2) ++ if partly then [".."] else []
  name ++ " \x7b " ++ ", ".intercalate shown ++ " \x7d"

/-- A sequence, in its order. -/
def row (items : List String) : String := "[" ++ ", ".intercalate items ++ "]"

def optional {α : Type} (describe : α → String) : Option α → String
  | none => "None"
  | some a => tuple "Some" [describe a]

def flag (b : Bool) : String := if b then "true" else "false"

def integer (z : Int) : String := String.ofList (Decimal.ofInt z)

/-- Bytes are told as numbers, not as text. -/
def byteRow (bs : List UInt8) : String := row (bs.map fun b => Decimal.text b.toNat)

/-! ### Types -/

def frameId (id : FrameId) : String := tuple "FrameId" [Decimal.text id]

def value : Value → String
  | .null => "Null"
  | .bool b => tuple "Bool" [flag b]
  | .int n => tuple "Int" [integer n.toInt]
  | .str s => tuple "Str" [Text.quoted s]
  | .bytes bs => tuple "Bytes" [byteRow bs]

/-- A push is named after the kind of its value. -/
def op : Op → String
  | .push .null => "PushNull"
  | .push (.bool b) => tuple "PushBool" [flag b]
  | .push (.int n) => tuple "PushInt" [integer n.toInt]
  | .push (.str s) => tuple "PushStr" [Text.quoted s]
  | .push (.bytes bs) => tuple "PushBytes" [byteRow bs]
  | .pop => "Pop"
  | .dup => "Dup"
  | .swap => "Swap"
  | .add => "Add"
  | .sub => "Sub"
  | .mul => "Mul"
  | .div => "Div"
  | .eq => "Eq"
  | .not => "Not"
  | .jump target => tuple "Jump" [Decimal.text target]
  | .jumpIf target => tuple "JumpIf" [Decimal.text target]
  | .catchAt target => tuple "Catch" [Decimal.text target]
  | .throw => "Throw"
  | .native id => tuple "Native" [Decimal.text id.toNat]
  | .log => "Log"
  | .ret => "Ret"

def program (p : Program) : String :=
  fields "Program" [("name", Text.quoted p.name), ("code", row (p.code.map op))] false

def fault (f : Fault) : String :=
  fields "Fault" [("code", Text.quoted f.code), ("message", Text.quoted f.message)] false

def outcome : Outcome → String
  | .returned v => tuple "Returned" [optional value v]
  | .faulted f => tuple "Faulted" [fault f]

/-- The stack is told from the bottom up. -/
def frame (f : Frame) : String :=
  fields "Frame"
    [("id", frameId f.id), ("program", program f.program), ("ip", Decimal.text f.ip),
      ("stack", row (f.stack.reverse.map value)), ("handler", optional Decimal.text f.handler),
      ("pending_fault", optional fault f.pendingFault), ("blocked", flag f.blocked)] false

/-- The frames are told from the bottom up. -/
def machine (m : Machine) : String :=
  fields "Vm"
    [("frames", row (m.frames.reverse.map frame)), ("steps", Decimal.text m.steps),
      ("entry", optional frameId m.entry), ("exit", optional outcome m.exit)] true

/-- The state of a future, whose success is an optional value. -/
def futureState : Option Outcome → String
  | none => "Pending"
  | some (.returned v) => tuple "Succeeded" [optional value v]
  | some (.faulted f) => tuple "Failed" [fault f]

/-- A continuation that waits is told only as one that was registered. -/
def cell {κ : Type} (c : Cell κ) : String :=
  fields "CallFuture" [("state", futureState c.outcome), ("registered", flag c.registered)] false

def mode : Mode → String
  | .sync => "Sync"
  | .suspending => "Suspending"

def descriptor (d : Descriptor) : String :=
  fields "RoutineDescriptor"
    [("id", Decimal.text d.id.toNat), ("name", Text.quoted d.name),
      ("params", row (d.params.map Text.quoted)), ("mode", mode d.mode)] false

def registry (ds : List Descriptor) : String := row (ds.map descriptor)

/-- Of what is pending and who is suspended only the numbers are told. -/
def bridge {σ : Type} (b : Bridge σ) : String :=
  fields "Bridge"
    [("registry", registry b.registry.descriptors), ("pending", Decimal.text b.pending),
      ("suspended", Decimal.text b.suspended)] false

/-- A routine's context, of which only the caller is told, as long as the routine is there. -/
def context (caller : Option FrameId) : String :=
  fields "NativeCtx" [("caller", optional frameId caller)] true

end Reentrant.Describe
