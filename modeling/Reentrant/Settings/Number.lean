import Reentrant.Settings.Tree
import Reentrant.Text.Hex

/-! Numbers as they are written in settings. -/

namespace Reentrant.Settings.Number

/-- Whether a number has 64 bits with a sign. -/
def fits (z : Int) : Bool := -(Int.pow 2 63) ≤ z && z < Int.pow 2 63

/-- A number of 64 bits: digits, with or without a sign. -/
def integer? (cs : List Char) : Option Int := (Decimal.readInt? cs).filter fits

/-- A number behind its sign: digits, a point among or beside them, and an exponent. -/
def magnitude? (negative : Bool) (cs : List Char) : Option Binary64 :=
  let whole := cs.takeWhile Char.isDigit
  let rest := cs.drop whole.length
  let (fraction, rest) := match rest with
    | '.' :: rest =>
        let ds := rest.takeWhile Char.isDigit
        (ds, rest.drop ds.length)
    | rest => ([], rest)
  if whole.isEmpty && fraction.isEmpty then none
  else
    let e? := match rest with
      | [] => some 0
      | c :: rest => if c = 'e' ∨ c = 'E' then Decimal.readInt? rest else none
    e?.map fun e =>
      Binary64.ofScientific ⟨negative, Decimal.toNat (whole ++ fraction), e - fraction.length⟩

/-- A number of any size, the nearest double to it, or a word for what is no number. -/
def double? (cs : List Char) : Option Binary64 :=
  let (negative, cs) := match cs with
    | '-' :: cs => (true, cs)
    | '+' :: cs => (false, cs)
    | cs => (false, cs)
  match Tree.foldName (String.ofList cs) with
  | "inf" => some (.infinite negative)
  | "infinity" => some (.infinite negative)
  | "nan" => some .nan
  | _ => magnitude? negative cs

/-- The number that digits in a base stand for, if they are digits and there are any. -/
def natural? (base : Nat) (ds : List Char) : Option Nat :=
  if ds.isEmpty then none
  else
    ds.foldlM (fun n c => ((Hex.value? c).filter (· < base)).map (n * base + ·)) 0

end Reentrant.Settings.Number
