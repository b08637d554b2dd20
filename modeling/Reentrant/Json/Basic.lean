import Reentrant.Text.Decimal
import Reentrant.Text.Hex

/-!
JSON values as they are written: numbers are integers, members keep their order. The compact form has
no blanks; the spread form puts every item on a line of its own.
-/

namespace Reentrant

mutual

inductive Json where
  | null
  | bool (b : Bool)
  | int (z : Int)
  | string (s : String)
  | array (items : Json.Items)
  | object (members : Json.Members)

inductive Json.Items where
  | nil
  | cons (item : Json) (rest : Json.Items)

inductive Json.Members where
  | nil
  | cons (key : String) (value : Json) (rest : Json.Members)

end

namespace Json

def ofList (items : List Json) : Json := .array (items.foldr .cons .nil)

def ofMembers (members : List (String × Json)) : Json :=
  .object (members.foldr (fun m rest => .cons m.1 m.2 rest) .nil)

/-- Two digits of a control character's number. -/
def controlDigits (n : Nat) : List Char := [Hex.digit (n / 16), Hex.digit (n % 16)]

/-- A character inside a string: quotes, backslashes and control characters are escaped. -/
def escapeChar (c : Char) : List Char :=
  if c = '"' then ['\\', '"']
  else if c = '\\' then ['\\', '\\']
  else if c = '\n' then ['\\', 'n']
  else if c = '\r' then ['\\', 'r']
  else if c = '\t' then ['\\', 't']
  else if c.toNat = 8 then ['\\', 'b']
  else if c.toNat = 12 then ['\\', 'f']
  else if c.toNat < 32 then '\\' :: 'u' :: '0' :: '0' :: controlDigits c.toNat
  else [c]

/-- A string in quotes. -/
def quote (s : List Char) : List Char := '"' :: s.flatMap escapeChar ++ ['"']

/-! ### The compact form -/

mutual

def render : Json → List Char
  | .null => "null".toList
  | .bool true => "true".toList
  | .bool false => "false".toList
  | .int z => Decimal.ofInt z
  | .string s => quote s.toList
  | .array .nil => ['[', ']']
  | .array (.cons item rest) => '[' :: render item ++ renderItems rest
  | .object .nil => ['\x7b', '\x7d']
  | .object (.cons key value rest) =>
      '\x7b' :: quote key.toList ++ ':' :: render value ++ renderMembers rest

/-- What follows the first item of an array. -/
def renderItems : Items → List Char
  | .nil => [']']
  | .cons item rest => ',' :: render item ++ renderItems rest

/-- What follows the first member of an object. -/
def renderMembers : Members → List Char
  | .nil => ['\x7d']
  | .cons key value rest => ',' :: quote key.toList ++ ':' :: render value ++ renderMembers rest

end

def compact (j : Json) : String := String.ofList j.render

/-! ### The spread form -/

/-- A line break and the indentation of a nesting depth. -/
def newLine (depth : Nat) : List Char := '\n' :: List.replicate (2 * depth) ' '

mutual

def spread (depth : Nat) : Json → List Char
  | .array (.cons item rest) =>
      '[' :: newLine (depth + 1) ++ spread (depth + 1) item ++ spreadItems depth rest
  | .object (.cons key value rest) =>
      '\x7b' :: newLine (depth + 1) ++ quote key.toList ++ ": ".toList ++ spread (depth + 1) value ++
        spreadMembers depth rest
  | j => render j

/-- What follows the first item of a spread array. -/
def spreadItems (depth : Nat) : Items → List Char
  | .nil => newLine depth ++ [']']
  | .cons item rest =>
      ',' :: newLine (depth + 1) ++ spread (depth + 1) item ++ spreadItems depth rest

/-- What follows the first member of a spread object. -/
def spreadMembers (depth : Nat) : Members → List Char
  | .nil => newLine depth ++ ['\x7d']
  | .cons key value rest =>
      ',' :: newLine (depth + 1) ++ quote key.toList ++ ": ".toList ++ spread (depth + 1) value ++
        spreadMembers depth rest

end

def pretty (j : Json) : String := String.ofList (j.spread 0)

end Json

end Reentrant
