import Reentrant.Text.Decimal
import Reentrant.Text.Hex

/-! Operand values: what a frame's stack holds and what procedures and routines exchange. -/

namespace Reentrant

/-- An operand. Integers are 64-bit; bytes need not be text. -/
inductive Value where
  | null
  | bool (b : Bool)
  | int (n : Int64)
  | str (s : String)
  | bytes (bs : List UInt8)
  deriving DecidableEq, Inhabited

namespace Value

inductive Kind where
  | null | bool | int | str | bytes
  deriving DecidableEq, Inhabited

/-- A kind's name in messages and in data. -/
def Kind.name : Kind → String
  | .null => "null"
  | .bool => "bool"
  | .int => "int"
  | .str => "str"
  | .bytes => "bytes"

def kind : Value → Kind
  | .null => .null
  | .bool _ => .bool
  | .int _ => .int
  | .str _ => .str
  | .bytes _ => .bytes

/-- Whether a conditional jump is taken on this value: not on null, false, zero or nothing. -/
def truthy : Value → Bool
  | .null => false
  | .bool b => b
  | .int n => n != 0
  | .str s => s != ""
  | .bytes bs => !bs.isEmpty

/-- The characters a value is shown as; all kinds but `str` are shown as the literal that pushes
them. -/
def displayChars : Value → List Char
  | .null => "null".toList
  | .bool true => "true".toList
  | .bool false => "false".toList
  | .int n => Decimal.ofInt n.toInt
  | .str s => s.toList
  | .bytes bs => '0' :: 'x' :: Hex.ofBytes bs

def display (v : Value) : String := String.ofList v.displayChars

end Value

/-- The 64-bit integer equal to `z`, if there is one. -/
def int64? (z : Int) : Option Int64 :=
  if -Int.pow 2 63 ≤ z ∧ z < Int.pow 2 63 then some (Int64.ofInt z) else none

@[simp] theorem int64?_toInt (n : Int64) : int64? n.toInt = some n := by
  rw [int64?, if_pos ⟨n.le_toInt, n.toInt_lt⟩, Int64.ofInt_toInt]

end Reentrant
