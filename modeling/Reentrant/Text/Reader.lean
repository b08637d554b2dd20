import Reentrant.Text.Decimal
import Reentrant.Text.Hex

/-!
Readers of parts of a text. A reader gives what a part stands for and what is behind it.
-/

namespace Reentrant.Text

/-- Reads a part of a text. -/
abbrev Reader (α : Type) := List Char → Option (α × List Char)

def expect (c : Char) : List Char → Option (List Char)
  | x :: cs => if x = c then some cs else none
  | [] => none

def expectWord : List Char → List Char → Option (List Char)
  | [], cs => some cs
  | _ :: _, [] => none
  | w :: ws, c :: cs => if w = c then expectWord ws cs else none

/-- Adds a character in front of what is read next. -/
def consing (c : Char) (r : Option (List Char × List Char)) : Option (List Char × List Char) :=
  r.map fun (s, rest) => (c :: s, rest)

/-- A number in `k` hexadecimal digits. -/
def hexNumber? (k : Nat) : Reader Nat := fun cs =>
  let ds := cs.take k
  if ds.length < k then none else (Hex.toNat? ds).map (·, cs.drop k)

def character? (n : Nat) : Option Char := if n.isValidChar then some (Char.ofNat n) else none

def numbered? (k : Nat) : Reader Char := fun cs =>
  (hexNumber? k cs).bind fun (n, rest) => (character? n).map (·, rest)

end Reentrant.Text
