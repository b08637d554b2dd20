import Reentrant.Settings.Number

/-!
Settings from variables. The name of a variable is a prefix and the path of an entry, with a double
underscore for every period; its text is a switch, a number or itself.
-/

namespace Reentrant.Settings

/-- Named texts, the earliest first. -/
abbrev Variables := List (String × String)

namespace Variables

/-- What the name of a variable that holds a setting begins with, in lower case. -/
def prefixText : List Char := "rebound_".toList

def fileVariable : String := "REBOUND_CONFIG_PATH"

/-- A name with a period for every pair of underscores. -/
def dotted : List Char → List Char
  | '_' :: '_' :: cs => '.' :: dotted cs
  | c :: cs => c :: dotted cs
  | [] => []

def key? (name : String) : Option String :=
  let cs := (Tree.foldName name).toList
  if prefixText.isPrefixOf cs then some (String.ofList (dotted (cs.drop prefixText.length))) else none

def value (s : String) : Tree :=
  match Tree.foldName s with
  | "true" => .bool true
  | "false" => .bool false
  | _ =>
      match Number.integer? s.toList with
      | some z => .int z
      | none =>
          match Number.double? s.toList with
          | some x => .float x
          | none => .string s

/-- The entries that variables give. Of two variables with the same key the later one counts. -/
def entries (vs : Variables) : List (String × Tree) :=
  vs.foldl
    (fun es (name, text) =>
      match key? name with
      | some key => Tree.put key (value text) es
      | none => es)
    []

end Variables

end Reentrant.Settings
