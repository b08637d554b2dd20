import Reentrant.Value

/-!
Conversion between operands and the typed values that host routines work on. A shape names a host
type; reading a value at a shape either gives a value of that type or says what did not fit.
-/

namespace Reentrant

/-- The types that routines are written against. -/
inductive Shape where
  | int
  | bool
  | str
  | bytes
  | any
  | optional (s : Shape)
  deriving DecidableEq, Inhabited

namespace Shape

def name : Shape → String
  | .int => "int"
  | .bool => "bool"
  | .str => "str"
  | .bytes => "bytes"
  | .any => "any"
  | .optional s => s.name ++ "?"

/-- The host type of a shape. -/
@[reducible] def Carrier : Shape → Type
  | .int => Int64
  | .bool => Bool
  | .str => String
  | .bytes => List UInt8
  | .any => Value
  | .optional s => Option s.Carrier

end Shape

inductive ConversionError where
  | mismatch (expected : String) (found : Value.Kind)
  | void (expected : String)
  | invalidUtf8
  | arity (expected found : Nat)
  deriving DecidableEq

def ConversionError.message : ConversionError → String
  | .mismatch expected found => "expected " ++ expected ++ ", found " ++ found.name
  | .void expected => "expected " ++ expected ++ ", found void"
  | .invalidUtf8 => "bytes are not valid UTF-8"
  | .arity expected found =>
      "expected " ++ Decimal.text expected ++ " arguments, found " ++ Decimal.text found

/-- The text that a row of bytes encodes in UTF-8, if it encodes one. -/
def textOfBytes? (bs : List UInt8) : Option String := String.fromUTF8? ⟨bs.toArray⟩

def bytesOfText (s : String) : List UInt8 := s.toUTF8.toList

namespace Shape

/-- Reads a value, or the void (`none`) of a frame that returned nothing, at a shape. Text may come as
its UTF-8 bytes and bytes may come as text; only `any` and the optional shapes accept void. -/
def read : (s : Shape) → Option Value → Except ConversionError s.Carrier
  | .int, some (.int n) => .ok n
  | .int, some v => .error (.mismatch "int" v.kind)
  | .int, none => .error (.void "int")
  | .bool, some (.bool b) => .ok b
  | .bool, some v => .error (.mismatch "bool" v.kind)
  | .bool, none => .error (.void "bool")
  | .str, some (.str s) => .ok s
  | .str, some (.bytes bs) =>
      match textOfBytes? bs with
      | some s => .ok s
      | none => .error .invalidUtf8
  | .str, some v => .error (.mismatch "str" v.kind)
  | .str, none => .error (.void "str")
  | .bytes, some (.bytes bs) => .ok bs
  | .bytes, some (.str s) => .ok (bytesOfText s)
  | .bytes, some v => .error (.mismatch "bytes" v.kind)
  | .bytes, none => .error (.void "bytes")
  | .any, v => .ok (v.getD .null)
  | .optional _, none => .ok none
  | .optional _, some .null => .ok none
  | .optional s, some v => (s.read (some v)).map some

/-- The operand of a host value; an absent optional is null. -/
def toValue : (s : Shape) → s.Carrier → Value
  | .int, n => .int n
  | .bool, b => .bool b
  | .str, s => .str s
  | .bytes, bs => .bytes bs
  | .any, v => v
  | .optional _, none => .null
  | .optional s, some x => s.toValue x

end Shape

/-! ### Argument lists -/

/-- The arguments of a routine with parameters `ps`. -/
@[reducible] def Arguments : List Shape → Type
  | [] => Unit
  | s :: ps => s.Carrier × Arguments ps

namespace Arguments

/-- Reads values from the `index`-th parameter on; an error names the first parameter it concerns. -/
def readFrom (index : Nat) : (ps : List Shape) → List Value →
    Except (Nat × ConversionError) (Arguments ps)
  | [], _ => .ok ()
  | s :: ps, vs =>
      match s.read (some (vs.headD .null)) with
      | .error e => .error (index, e)
      | .ok x =>
          match readFrom (index + 1) ps vs.tail with
          | .error e => .error e
          | .ok xs => .ok (x, xs)

/-- Reads one value per parameter, in the order of declaration. -/
def read (ps : List Shape) (vs : List Value) : Except (Nat × ConversionError) (Arguments ps) :=
  if vs.length = ps.length then readFrom 0 ps vs
  else .error (0, .arity ps.length vs.length)

def toValues : (ps : List Shape) → Arguments ps → List Value
  | [], _ => []
  | s :: ps, (x, xs) => s.toValue x :: toValues ps xs

end Arguments

end Reentrant
