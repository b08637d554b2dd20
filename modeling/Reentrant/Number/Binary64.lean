/-!
Double-precision numbers, held exactly. A finite one is a significand times a power of two; a decimal
number is rounded to the nearest of them, half-way cases to the even significand.
-/

namespace Reentrant

/-- A decimal number, `digits * 10 ^ exponent`, with its sign. -/
structure Scientific where
  negative : Bool := false
  digits : Nat
  exponent : Int := 0
  deriving DecidableEq, Inhabited

/-- A double. A finite one is `significand * 2 ^ exponent`, where the significand has 53 bits, or
fewer at the least exponent, -1074. -/
inductive Binary64 where
  | finite (negative : Bool) (significand : Nat) (exponent : Int)
  | infinite (negative : Bool)
  | nan
  deriving DecidableEq, Inhabited

namespace Binary64

def leastExponent : Int := -1074

def greatestExponent : Int := 971

def zero (negative : Bool) : Binary64 := .finite negative 0 leastExponent

/-- A quotient rounded to the nearest natural number, a half to the even one. -/
def roundQuotient (n d : Nat) : Nat :=
  let q := n / d
  let r := n % d
  if 2 * r < d then q else if d < 2 * r then q + 1 else q + q % 2

/-- The quotient `n / d / 2 ^ e` as a fraction. -/
def scaleDown (n d : Nat) (e : Int) : Nat × Nat :=
  if 0 ≤ e then (n, d * Nat.pow 2 e.toNat) else (n * Nat.pow 2 (-e).toNat, d)

/-- The double nearest to `n / d`. -/
def ofRatio (negative : Bool) (n d : Nat) : Binary64 :=
  if n = 0 then zero negative
  else
    let e : Int := (n.log2 : Int) - d.log2 - 53
    let (a, b) := scaleDown n d e
    let e := if Nat.pow 2 53 ≤ a / b then e + 1 else e
    let e := max e leastExponent
    let (a, b) := scaleDown n d e
    let m := roundQuotient a b
    let (m, e) := if m = Nat.pow 2 53 then (Nat.pow 2 52, e + 1) else (m, e)
    if greatestExponent < e then .infinite negative else .finite negative m e

def digitCount (n : Nat) : Nat := if n < 10 then 1 else digitCount (n / 10) + 1

/-- The double nearest to a decimal number. -/
def ofScientific (x : Scientific) : Binary64 :=
  if x.digits = 0 then zero x.negative
  else
    let top := x.exponent + digitCount x.digits
    if 310 < top then .infinite x.negative
    else if top < -330 then zero x.negative
    else if 0 ≤ x.exponent then ofRatio x.negative (x.digits * Nat.pow 10 x.exponent.toNat) 1
    else ofRatio x.negative x.digits (Nat.pow 10 (-x.exponent).toNat)

def isZero : Binary64 → Bool
  | .finite _ m _ => m == 0
  | _ => false

def neg : Binary64 → Binary64
  | .finite s m e => .finite (!s) m e
  | .infinite s => .infinite (!s)
  | .nan => .nan

/-- The nearest natural number, a half upwards. Nothing negative is above zero, and nothing is above
`bound`. -/
def toNat (bound : Nat) : Binary64 → Nat
  | .nan => 0
  | .infinite true => 0
  | .infinite false => bound
  | .finite true _ _ => 0
  | .finite false m e =>
      min bound <|
        if 0 ≤ e then m * Nat.pow 2 e.toNat
        else (2 * m + Nat.pow 2 (-e).toNat) / Nat.pow 2 ((-e).toNat + 1)

end Binary64

end Reentrant
