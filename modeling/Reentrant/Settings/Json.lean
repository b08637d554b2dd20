import Reentrant.Json.Draft
import Reentrant.Settings.Tree

/-! Settings as a JSON text: an object with the sections as members. -/

namespace Reentrant.Settings.JsonText

mutual

/-- What a value stands for. Integers beyond 64 bits with a sign are doubles, and of two members of
one name the later one counts. -/
def tree : Draft → Tree
  | .null => .null
  | .bool b => .bool b
  | .int z => if z < Int.pow 2 63 then .int z else .float (Binary64.ofScientific ⟨false, z.toNat, 0⟩)
  | .float x => .float x
  | .string (.ok s) => .string s
  | .string (.error _) => .null
  | .array is => .list (trees is)
  | .object ms => .table (entries ms [])
  | .broken _ _ _ => .null

def trees : Draft.Items → List Tree
  | .nil _ => []
  | .cons item rest => tree item :: trees rest

def entries : Draft.Members → List (String × Tree) → List (String × Tree)
  | .nil _, es => es
  | .cons (.ok key) d rest, es => entries rest (Tree.put key (tree d) es)
  | .cons (.error _) _ rest, es => entries rest es

end

/-- How many brackets may be open at a time, and one more. -/
def room : Nat := 128

/-- Reads a text. -/
def read? (text : String) : Option (List (String × Tree)) :=
  let (d, rest) := Draft.ofText text.toList
  match d.keep room, (Draft.skipSpace rest).isEmpty, tree d with
  | .ok (), true, .table es => some es
  | _, _, _ => none

end Reentrant.Settings.JsonText
