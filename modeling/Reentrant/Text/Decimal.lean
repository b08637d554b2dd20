/-!
Numbers in decimal digits. Writing uses no leading zero; reading takes any run of digits, so every
number has one written form and many readable ones.
-/

namespace Reentrant.Decimal

def digit (n : Nat) : Char := Char.ofNat (48 + n)

def digitValue (c : Char) : Nat := c.toNat - 48

/-- The digits of a number, most significant first, without leading zeros. -/
def ofNat (n : Nat) : List Char :=
  if n < 10 then [digit n] else ofNat (n / 10) ++ [digit (n % 10)]

/-- The number a run of digits stands for; leading zeros do not count. -/
def toNat (ds : List Char) : Nat := ds.foldl (fun n c => n * 10 + digitValue c) 0

/-- An integer, with a minus sign in front of a negative one. -/
def ofInt : Int → List Char
  | .ofNat n => ofNat n
  | .negSucc n => '-' :: ofNat (n + 1)

/-- Reads a non-empty run of digits and nothing else. -/
def readNat? (cs : List Char) : Option Nat :=
  if cs ≠ [] ∧ cs.all Char.isDigit then some (toNat cs) else none

/-- Reads digits, with or without one sign in front. -/
def readInt? : List Char → Option Int
  | '-' :: cs => (readNat? cs).map fun n => -(n : Int)
  | '+' :: cs => (readNat? cs).map Int.ofNat
  | cs => (readNat? cs).map Int.ofNat

def text (n : Nat) : String := String.ofList (ofNat n)

end Reentrant.Decimal
