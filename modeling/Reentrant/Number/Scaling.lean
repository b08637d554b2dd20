import Reentrant.Number.Binary64

/-!
Products and quotients of doubles, each rounded once, and decimal numbers that are scaled by powers of
ten. Scaling rounds at every step, so what it comes to may be a neighbour of the nearest double.
-/

namespace Reentrant.Binary64

/-- The double nearest to `n / d * 2 ^ e`. -/
def ofScaledRatio (negative : Bool) (n d : Nat) (e : Int) : Binary64 :=
  let (n, d) := scaleDown n d (-e)
  ofRatio negative n d

def ofNat (n : Nat) : Binary64 := ofRatio false n 1

def mul : Binary64 → Binary64 → Binary64
  | .nan, _ => .nan
  | _, .nan => .nan
  | .finite s m e, .finite t n f => ofScaledRatio (s != t) (m * n) 1 (e + f)
  | .finite s m _, .infinite t => if m = 0 then .nan else .infinite (s != t)
  | .infinite s, .finite t n _ => if n = 0 then .nan else .infinite (s != t)
  | .infinite s, .infinite t => .infinite (s != t)

def div : Binary64 → Binary64 → Binary64
  | .nan, _ => .nan
  | _, .nan => .nan
  | .finite s m e, .finite t n f =>
      if n ≠ 0 then ofScaledRatio (s != t) m n (e - f)
      else if m = 0 then .nan
      else .infinite (s != t)
  | .finite s _ _, .infinite t => zero (s != t)
  | .infinite s, .finite t _ _ => .infinite (s != t)
  | .infinite _, .infinite _ => .nan

/-! ### Powers of ten -/

def powerOfTen (k : Nat) : Binary64 := ofScientific { digits := 1, exponent := k }

/-- The exponent of the greatest power of ten that is not too large. -/
def greatestPower : Nat := 308

/-- A number times `10 ^ k`. A power that is too large takes along all but zero. -/
def raise (x : Binary64) (k : Nat) : Binary64 :=
  if k ≤ greatestPower then x.mul (powerOfTen k) else if x.isZero then x else .infinite false

/-- A number divided by `10 ^ k`, in steps of at most the greatest power. -/
def lower (x : Binary64) (k : Nat) : Binary64 :=
  if k ≤ greatestPower then x.div (powerOfTen k)
  else if x.isZero then x
  else lower (x.div (powerOfTen greatestPower)) (k - greatestPower)
termination_by k
decreasing_by simp only [greatestPower] at *; omega

/-- A decimal number as its digits, made a double, and then scaled. -/
def scaled (x : Scientific) : Binary64 :=
  let digits := ofNat x.digits
  let y := if 0 ≤ x.exponent then digits.raise x.exponent.toNat else digits.lower (-x.exponent).toNat
  if x.negative then y.neg else y

end Reentrant.Binary64
