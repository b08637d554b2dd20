import Reentrant.Number.Binary64
import Reentrant.Text.Decimal

/-!
The text of a double: the fewest digits that are read back as the same number, without an exponent.
-/

namespace Reentrant.Binary64

/-- A decimal grid: the multiples of `10 ^ place`. -/
def gridUnit (place : Int) : Nat × Nat :=
  if 0 ≤ place then (Nat.pow 10 place.toNat, 1) else (1, Nat.pow 10 (-place).toNat)

/-- The reals that are rounded to a double, as numerators over one denominator: the least, the double
itself and the greatest. The ends belong to it if the significand is even. Below a power of two the
doubles are closer, and so is the lower end. -/
structure Neighbourhood where
  least : Nat
  centre : Nat
  greatest : Nat
  denominator : Nat
  closed : Bool

def neighbourhood (m : Nat) (e : Int) : Neighbourhood :=
  let below := if m = Nat.pow 2 52 ∧ leastExponent < e then 1 else 2
  let scale := if 0 ≤ e then Nat.pow 2 e.toNat else 1
  { least := (4 * m - below) * scale
    centre := 4 * m * scale
    greatest := (4 * m + 2) * scale
    denominator := if 0 ≤ e then 4 else 4 * Nat.pow 2 (-e).toNat
    closed := m % 2 == 0 }

namespace Neighbourhood

def contains (h : Neighbourhood) (place : Int) (c : Nat) : Bool :=
  let (n, d) := gridUnit place
  let x := c * n * h.denominator
  if h.closed then h.least * d ≤ x && x ≤ h.greatest * d
  else h.least * d < x && x < h.greatest * d

/-- The grid point next to the centre, if it is in the neighbourhood; of two the nearer one, and the
upper one if both are as near. -/
def onGrid? (h : Neighbourhood) (place : Int) : Option Nat :=
  let (n, d) := gridUnit place
  let c := h.centre * d / (n * h.denominator)
  let low := h.contains place c
  let high := h.contains place (c + 1)
  if low && high then
    if h.centre * d * 2 < (2 * c + 1) * n * h.denominator then some c else some (c + 1)
  else if low then some c
  else if high then some (c + 1)
  else none

/-- The coarsest grid with a point in the neighbourhood, from `place` downwards. -/
def coarsest (h : Neighbourhood) : (fuel : Nat) → (place : Int) → Nat × Int
  | 0, place => (h.centre / h.denominator, place)
  | fuel + 1, place =>
      match h.onGrid? place with
      | some c => (c, place)
      | none => h.coarsest fuel (place - 1)

end Neighbourhood

def shortest (m : Nat) (e : Int) : Nat × Int :=
  let h := neighbourhood m e
  let top := digitCount (h.centre / h.denominator)
  h.coarsest (top + 400) top

/-- A number written out, `c * 10 ^ place`. -/
def positional (c : Nat) (place : Int) : List Char :=
  let ds := Decimal.ofNat c
  if 0 ≤ place then ds ++ List.replicate place.toNat '0'
  else
    let k := (-place).toNat
    if k < ds.length then ds.take (ds.length - k) ++ '.' :: ds.drop (ds.length - k)
    else '0' :: '.' :: List.replicate (k - ds.length) '0' ++ ds

def text : Binary64 → String
  | .nan => "NaN"
  | .infinite true => "-inf"
  | .infinite false => "inf"
  | .finite s m e =>
      let digits := if m = 0 then ['0'] else let (c, place) := shortest m e; positional c place
      String.ofList (if s then '-' :: digits else digits)

end Reentrant.Binary64
