/-!
Sets of characters as stretches: the lengths of the runs of code points that are outside the set and
inside it by turns, from zero on.
-/

namespace Reentrant.Text

/-- Whether the stretch that a code point is in is an inside one, the first stretch being `inside`. What
is behind the last stretch is outside. -/
def inStretches : (inside : Bool) → List Nat → Nat → Bool
  | _, [], _ => false
  | inside, length :: rest, n =>
      if n < length then inside else inStretches (!inside) rest (n - length)

end Reentrant.Text
