import Reentrant.Assembly.Span
import Reentrant.Journal
import Reentrant.Json.Schema
import Reentrant.Routine
import Reentrant.Settings

/-! The JSON layout of every type that is exchanged as data. -/

namespace Reentrant

open Json (Datum Schema Fields Variants FieldVariants)

/-- A type with a JSON layout. -/
class JsonData (α : Type) where
  schema : Schema
  toDatum : α → Datum
  ofDatum? : Datum → Option α

namespace JsonData

variable {α : Type} [JsonData α]

/-- The JSON of a value. -/
def encode (a : α) : Json := (schema α).write (toDatum a)

/-- The compact JSON text of a value. -/
def text (a : α) : String := (encode a).compact

/-- Reads a value from a JSON text. -/
def decode (α : Type) [JsonData α] (text : List Char) : Except ReadError α :=
  match (schema α).parse text with
  | .error e => .error e
  | .ok d =>
      match ofDatum? d with
      | some a => .ok a
      | none => .error .data

end JsonData

namespace Json.Schema

/-- Unsigned integers of a width. -/
def unsigned (bits : Nat) : Schema := .int 0 (Int.pow 2 bits)

/-- Signed 64-bit integers. -/
def signed64 : Schema := .int (-Int.pow 2 63) (Int.pow 2 63)

/-- Rows of bytes. -/
def bytes : Schema := .list (unsigned 8)

/-- Fields that all have to be there. -/
def required : List (String × Schema) → Fields
  | [] => .nil
  | (name, s) :: rest => .cons name s none (required rest)

/-- Variants, some with content. -/
def variants : List (String × Option Schema) → Variants
  | [] => .nil
  | (name, none) :: rest => .unit name (variants rest)
  | (name, some s) :: rest => .data name s (variants rest)

/-- Variants with fields. -/
def fieldVariants : List (String × List (String × Schema)) → FieldVariants
  | [] => .nil
  | (name, fields) :: rest => .cons name (required fields) (fieldVariants rest)

end Json.Schema

namespace Json.Datum

/-- An integer as data. -/
def ofNat (n : Nat) : Datum := .int n

def toNat? : Datum → Option Nat
  | .int z => if 0 ≤ z then some z.toNat else none
  | _ => none

def ofBytes (bs : List UInt8) : Datum := .list (bs.map fun b => .int b.toNat)

def toByte? : Datum → Option UInt8
  | .int z => if 0 ≤ z ∧ z < 256 then some (UInt8.ofNat z.toNat) else none
  | _ => none

def toBytes? : Datum → Option (List UInt8)
  | .list ds => ds.mapM toByte?
  | _ => none

def ofOption (d : Option Datum) : Datum :=
  match d with
  | none => .absent
  | some d => .present d

end Json.Datum

/-! ### Values -/

namespace Value

def kinds : List Kind := [.null, .bool, .int, .str, .bytes]

instance : JsonData Kind where
  schema := .choice (kinds.map Kind.name)
  toDatum k := .choice k.name
  ofDatum?
    | .choice name => kinds.find? (·.name == name)
    | _ => none

def toDatum : Value → Datum
  | .null => .variant "Null" none
  | .bool b => .variant "Bool" (some (.bool b))
  | .int n => .variant "Int" (some (.int n.toInt))
  | .str s => .variant "Str" (some (.string s))
  | .bytes bs => .variant "Bytes" (some (.ofBytes bs))

def ofDatum? : Datum → Option Value
  | .variant "Null" none => some .null
  | .variant "Bool" (some (.bool b)) => some (.bool b)
  | .variant "Int" (some (.int z)) => (int64? z).map .int
  | .variant "Str" (some (.string s)) => some (.str s)
  | .variant "Bytes" (some d) => d.toBytes?.map .bytes
  | _ => none

def schema : Schema :=
  .adjacent "t" "v" <| Json.Schema.variants
    [("Null", none), ("Bool", some .bool), ("Int", some .signed64), ("Str", some .string),
      ("Bytes", some .bytes)]

instance : JsonData Value := ⟨schema, toDatum, ofDatum?⟩

end Value

/-! ### Programs -/

namespace Op

def toDatum : Op → Datum
  | .push (.int n) => .variant "push_int" (some (.int n.toInt))
  | .push (.str s) => .variant "push_str" (some (.string s))
  | .push (.bytes bs) => .variant "push_bytes" (some (.ofBytes bs))
  | .push (.bool b) => .variant "push_bool" (some (.bool b))
  | .push .null => .variant "push_null" none
  | .pop => .variant "pop" none
  | .dup => .variant "dup" none
  | .swap => .variant "swap" none
  | .add => .variant "add" none
  | .sub => .variant "sub" none
  | .mul => .variant "mul" none
  | .div => .variant "div" none
  | .eq => .variant "eq" none
  | .not => .variant "not" none
  | .jump target => .variant "jump" (some (.ofNat target))
  | .jumpIf target => .variant "jump_if" (some (.ofNat target))
  | .catchAt target => .variant "catch" (some (.ofNat target))
  | .throw => .variant "throw" none
  | .native id => .variant "native" (some (.ofNat id.toNat))
  | .log => .variant "log" none
  | .ret => .variant "ret" none

def ofDatum? : Datum → Option Op
  | .variant "push_int" (some (.int z)) => (int64? z).map fun n => .push (.int n)
  | .variant "push_str" (some (.string s)) => some (.push (.str s))
  | .variant "push_bytes" (some d) => d.toBytes?.map fun bs => .push (.bytes bs)
  | .variant "push_bool" (some (.bool b)) => some (.push (.bool b))
  | .variant "push_null" none => some (.push .null)
  | .variant "pop" none => some .pop
  | .variant "dup" none => some .dup
  | .variant "swap" none => some .swap
  | .variant "add" none => some .add
  | .variant "sub" none => some .sub
  | .variant "mul" none => some .mul
  | .variant "div" none => some .div
  | .variant "eq" none => some .eq
  | .variant "not" none => some .not
  | .variant "jump" (some d) => d.toNat?.map .jump
  | .variant "jump_if" (some d) => d.toNat?.map .jumpIf
  | .variant "catch" (some d) => d.toNat?.map .catchAt
  | .variant "throw" none => some .throw
  | .variant "native" (some d) => d.toNat?.map fun n => .native (UInt32.ofNat n)
  | .variant "log" none => some .log
  | .variant "ret" none => some .ret
  | _ => none

def schema : Schema :=
  .adjacent "op" "arg" <| Json.Schema.variants
    [("push_int", some .signed64), ("push_str", some .string), ("push_bytes", some .bytes),
      ("push_bool", some .bool), ("push_null", none), ("pop", none), ("dup", none), ("swap", none),
      ("add", none), ("sub", none), ("mul", none), ("div", none), ("eq", none), ("not", none),
      ("jump", some (.unsigned 64)), ("jump_if", some (.unsigned 64)),
      ("catch", some (.unsigned 64)), ("throw", none), ("native", some (.unsigned 32)),
      ("log", none), ("ret", none)]

instance : JsonData Op := ⟨schema, toDatum, ofDatum?⟩

end Op

instance : JsonData Program where
  schema := .record (Json.Schema.required [("name", .string), ("code", .list Op.schema)])
  toDatum p := .record [.string p.name, .list (p.code.map Op.toDatum)]
  ofDatum?
    | .record [.string name, .list ds] => (ds.mapM Op.ofDatum?).map fun code => { name, code }
    | _ => none

instance {α : Type} [JsonData α] : JsonData (List α) where
  schema := .list (JsonData.schema α)
  toDatum as := .list (as.map JsonData.toDatum)
  ofDatum?
    | .list ds => ds.mapM JsonData.ofDatum?
    | _ => none

/-! ### Faults and outcomes -/

namespace Fault

def schema : Schema := .record (Json.Schema.required [("code", .string), ("message", .string)])

def toDatum (f : Fault) : Datum := .record [.string f.code, .string f.message]

def ofDatum? : Datum → Option Fault
  | .record [.string code, .string message] => some { code, message }
  | _ => none

instance : JsonData Fault := ⟨schema, toDatum, ofDatum?⟩

end Fault

instance : JsonData Outcome where
  schema := .adjacent "t" "v" <| Json.Schema.variants
    [("Returned", some (.option Value.schema)), ("Faulted", some Fault.schema)]
  toDatum
    | .returned v => .variant "Returned" (some (.ofOption (v.map Value.toDatum)))
    | .faulted f => .variant "Faulted" (some f.toDatum)
  ofDatum?
    | .variant "Returned" (some .absent) => some (.returned none)
    | .variant "Returned" (some (.present d)) => (Value.ofDatum? d).map fun v => .returned (some v)
    | .variant "Faulted" (some d) => (Fault.ofDatum? d).map .faulted
    | _ => none

namespace DispatchResult

def schema : Schema :=
  .adjacent "t" "v" <| Json.Schema.variants
    [("Void", none), ("Value", some Value.schema), ("Fault", some Fault.schema)]

def toDatum : DispatchResult → Datum
  | .void => .variant "Void" none
  | .value v => .variant "Value" (some v.toDatum)
  | .fault f => .variant "Fault" (some f.toDatum)

def ofDatum? : Datum → Option DispatchResult
  | .variant "Void" none => some .void
  | .variant "Value" (some d) => (Value.ofDatum? d).map .value
  | .variant "Fault" (some d) => (Fault.ofDatum? d).map .fault
  | _ => none

instance : JsonData DispatchResult := ⟨schema, toDatum, ofDatum?⟩

end DispatchResult

/-! ### Events -/

namespace Event

/-- A variant with fields as data. -/
def fieldsDatum (name : String) (ds : List Datum) : Datum := .variant name (some (.record ds))

def toDatum : Event → Datum
  | .dispatchStarted caller routine id =>
      fieldsDatum "dispatch_started" [.ofNat caller, .string routine, .ofNat id.toNat]
  | .frameLoaded frame program caller =>
      fieldsDatum "frame_loaded" [.ofNat frame, .string program, .ofNat caller]
  | .frameTornDown frame faulted => fieldsDatum "frame_torn_down" [.ofNat frame, .bool faulted]
  | .resumed caller routine => fieldsDatum "resumed" [.ofNat caller, .string routine]
  | .routineFinished caller routine result =>
      fieldsDatum "routine_finished" [.ofNat caller, .string routine, result.toDatum]

def ofDatum? : Datum → Option Event
  | .variant "dispatch_started" (some (.record [caller, .string routine, id])) => do
      return .dispatchStarted (← caller.toNat?) routine (UInt32.ofNat (← id.toNat?))
  | .variant "frame_loaded" (some (.record [frame, .string program, caller])) => do
      return .frameLoaded (← frame.toNat?) program (← caller.toNat?)
  | .variant "frame_torn_down" (some (.record [frame, .bool faulted])) =>
      frame.toNat?.map fun frame => .frameTornDown frame faulted
  | .variant "resumed" (some (.record [caller, .string routine])) =>
      caller.toNat?.map fun caller => .resumed caller routine
  | .variant "routine_finished" (some (.record [caller, .string routine, result])) => do
      return .routineFinished (← caller.toNat?) routine (← DispatchResult.ofDatum? result)
  | _ => none

def schema : Schema :=
  .inline "event" <| Json.Schema.fieldVariants
    [("dispatch_started",
        [("caller", .unsigned 64), ("routine", .string), ("id", .unsigned 32)]),
      ("frame_loaded", [("frame", .unsigned 64), ("program", .string), ("caller", .unsigned 64)]),
      ("frame_torn_down", [("frame", .unsigned 64), ("faulted", .bool)]),
      ("resumed", [("caller", .unsigned 64), ("routine", .string)]),
      ("routine_finished",
        [("caller", .unsigned 64), ("routine", .string), ("result", DispatchResult.schema)])]

instance : JsonData Event := ⟨schema, toDatum, ofDatum?⟩

end Event

/-! ### Routines, spans and settings -/

def Mode.name : Mode → String
  | .sync => "sync"
  | .suspending => "suspending"

def Mode.ofName? : String → Option Mode
  | "sync" => some .sync
  | "suspending" => some .suspending
  | _ => none

instance : JsonData Descriptor where
  schema := .record <| Json.Schema.required
    [("id", .unsigned 32), ("name", .string), ("params", .list .string),
      ("mode", .choice ["sync", "suspending"])]
  toDatum d := .record
    [.ofNat d.id.toNat, .string d.name, .list (d.params.map .string), .choice d.mode.name]
  ofDatum?
    | .record [id, .string name, .list params, .choice mode] => do
        let params ← params.mapM fun | .string s => some s | _ => none
        return { id := UInt32.ofNat (← id.toNat?), name, params, mode := ← Mode.ofName? mode }
    | _ => none

instance : JsonData Assembly.Span where
  schema := .record <| Json.Schema.required
    [("start", .unsigned 64), ("end", .unsigned 64), ("start_line", .unsigned 64),
      ("start_col", .unsigned 64), ("end_line", .unsigned 64), ("end_col", .unsigned 64)]
  toDatum s := .record
    [.ofNat s.start, .ofNat s.stop, .ofNat s.startLine, .ofNat s.startCol, .ofNat s.stopLine,
      .ofNat s.stopCol]
  ofDatum?
    | .record [start, stop, startLine, startCol, stopLine, stopCol] => do
        return {
          start := ← start.toNat?, stop := ← stop.toNat?
          startLine := ← startLine.toNat?, startCol := ← startCol.toNat?
          stopLine := ← stopLine.toNat?, stopCol := ← stopCol.toNat? }
    | _ => none

namespace Settings

def toDatum (s : Settings) : Datum :=
  .record
    [.record [.string s.filter],
      .record [.ofNat s.limits.maxFrames, .ofOption (s.limits.maxSteps.map .ofNat)],
      .record [.bool s.journal]]

def ofDatum? : Datum → Option Settings
  | .record [.record [.string filter], .record [maxFrames, maxSteps], .record [.bool journal]] => do
      let maxFrames ← maxFrames.toNat?
      match maxSteps with
      | .absent => return { filter, limits := { maxFrames, maxSteps := none }, journal }
      | .present n => return { filter, limits := { maxFrames, maxSteps := some (← n.toNat?) }, journal }
      | _ => none
  | _ => none

/-- Each section and each field may be missing; the default stands for it. -/
def schema : Schema :=
  let log : Fields := .cons "filter" .string (some (.string "info")) .nil
  let vm : Fields :=
    .cons "max_frames" (.unsigned 64) (some (.ofNat 256)) <|
    .cons "max_steps" (.option (.unsigned 64)) (some .absent) .nil
  let bridge : Fields := .cons "journal" .bool (some (.bool false)) .nil
  .record <|
    .cons "log" (.record log) (some (.record [.string "info"])) <|
    .cons "vm" (.record vm) (some (.record [.ofNat 256, .absent])) <|
    .cons "bridge" (.record bridge) (some (.record [.bool false])) .nil

instance : JsonData Settings := ⟨schema, toDatum, ofDatum?⟩

end Settings

end Reentrant
