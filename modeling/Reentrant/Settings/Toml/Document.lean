import Reentrant.Settings.Toml.Scalar

/-!
TOML texts. Lines give entries or open tables; a table may be opened once, and what has a value keeps
it. A text that breaks a rule is refused as a whole.
-/

namespace Reentrant.Settings.Toml

open Text (Reader expect)

/-! ### Tables under construction -/

/-- How a table came to be: opened by a line of its own, on the way to such a table, or on the way to
an entry. -/
inductive Origin where
  | opened
  | implied
  | dotted
  deriving DecidableEq

inductive Node where
  | value (t : Tree)
  | table (origin : Origin) (entries : List (String × Node))
  /-- A row of tables that grows; the last one is open. -/
  | row (closed : List (List (String × Node))) (latest : List (String × Node))

abbrev Entries := List (String × Node)

mutual

def Node.tree : Node → Tree
  | .value t => t
  | .table _ es => .table (entriesTree es)
  | .row closed latest => .list (rowTree closed ++ [.table (entriesTree latest)])

def entriesTree : List (String × Node) → List (String × Tree)
  | [] => []
  | (key, n) :: rest => (key, n.tree) :: entriesTree rest

def rowTree : List (List (String × Node)) → List Tree
  | [] => []
  | es :: rest => .table (entriesTree es) :: rowTree rest

end

/-- Changes the table at the end of a path; `made` is the origin of tables that are missing on the
way. The way to an entry does not lead through a table that was opened. -/
def edit (made : Origin) (f : Origin → Entries → Option Entries) :
    List String → Origin → Entries → Option Entries
  | [], origin, es => f origin es
  | key :: rest, _, es =>
      match es.lookup key with
      | none => (edit made f rest made []).map fun inner => Tree.put key (.table made inner) es
      | some (.value _) => none
      | some (.table origin inner) =>
          if made = .dotted ∧ origin = .opened then none
          else
            (edit made f rest origin inner).map fun inner => Tree.put key (.table origin inner) es
      | some (.row closed latest) =>
          (edit made f rest .opened latest).map fun latest => Tree.put key (.row closed latest) es

structure Key where
  path : List String
  name : String

/-- Gives a name its value, once. An entry with a path goes into a table that only such entries
make, any other into one that they do not. -/
def Key.define (k : Key) (n : Node) : Origin → Entries → Option Entries :=
  edit .dotted
    (fun origin es =>
      if decide (origin = .dotted) = k.path.isEmpty then none
      else
        match es.lookup k.name with
        | none => some (Tree.put k.name n es)
        | some _ => none)
    k.path

/-- Opens a table. One that was implied keeps its entries. -/
def Key.openTable (k : Key) (es : Entries) : Option Entries :=
  edit .implied
    (fun _ es =>
      match es.lookup k.name with
      | none => some (Tree.put k.name (.table .opened []) es)
      | some (.table .implied inner) => some (Tree.put k.name (.table .opened inner) es)
      | some _ => none)
    k.path .opened es

/-- Opens one more table of a row. -/
def Key.openRow (k : Key) (es : Entries) : Option Entries :=
  edit .implied
    (fun _ es =>
      match es.lookup k.name with
      | none => some (Tree.put k.name (.row [] []) es)
      | some (.row closed latest) => some (Tree.put k.name (.row (closed ++ [latest]) []) es)
      | some _ => none)
    k.path .opened es

/-! ### Keys -/

def isBare (c : Char) : Bool := c.isAlphanum || c == '-' || c == '_'

def simpleKey : Reader String
  | cs =>
      match cs with
      | '"' :: _ => (oneLine cs).map fun (s, rest) => (String.ofList s, rest)
      | '\'' :: _ => (oneLine cs).map fun (s, rest) => (String.ofList s, rest)
      | _ =>
          let name := cs.takeWhile isBare
          if name.isEmpty then none else some (String.ofList name, cs.drop name.length)

/-- How deep values and keys may be nested. -/
def depthLimit : Nat := 80

/-- Names with periods between them and blanks around them, at most `fuel` of them. -/
def names : (fuel : Nat) → Reader (List String × String)
  | 0, _ => none
  | fuel + 1, cs => do
      let (name, rest) ← simpleKey (skipSpace cs)
      match skipSpace rest with
      | '.' :: rest =>
          let ((path, last), rest) ← names fuel rest
          some ((name :: path, last), rest)
      | rest => some (([], name), rest)

def key : Reader Key := fun cs =>
  (names (depthLimit - 1) cs).map fun ((path, name), rest) => (⟨path, name⟩, rest)

/-! ### Values -/

def comment? : List Char → Option (List Char)
  | '#' :: cs => some (cs.dropWhile isPlain)
  | _ => none

/-- Moves past blanks, ends of lines and comments that end in one, at most `fuel` of them. -/
def skipTrivia : (fuel : Nat) → List Char → List Char
  | 0, cs => cs
  | fuel + 1, cs =>
      let cs := skipSpace cs
      match newline? ((comment? cs).getD cs) with
      | some rest => skipTrivia fuel rest
      | none => cs

mutual

/-- Reads a value. Between the brackets of lists and tables there is `room` for more of them. -/
def value : (fuel room : Nat) → Reader Tree
  | 0, _, _ => none
  | fuel + 1, room, cs =>
      match cs with
      | '[' :: cs =>
          if room ≤ 1 then none
          else (items fuel (room - 1) cs).map fun (ts, rest) => (.list ts, rest)
      | '\x7b' :: cs =>
          if room ≤ 1 then none
          else
            match skipSpace cs with
            | '\x7d' :: rest => some (.table [], rest)
            | cs =>
                (members fuel (room - 1) [] cs).map fun (es, rest) => (.table (entriesTree es), rest)
      | cs => scalar cs

/-- Reads items and the closing bracket. A comma may stand behind the last item. -/
def items : (fuel room : Nat) → Reader (List Tree)
  | 0, _, _ => none
  | fuel + 1, room, cs =>
      match skipTrivia fuel cs with
      | ']' :: rest => some ([], rest)
      | cs =>
          match value fuel room cs with
          | none => none
          | some (t, cs) =>
              match skipTrivia fuel cs with
              | ',' :: rest => (items fuel room rest).map fun (ts, rest) => (t :: ts, rest)
              | ']' :: rest => some ([t], rest)
              | _ => none

def members : (fuel room : Nat) → Entries → Reader Entries
  | 0, _, _, _ => none
  | fuel + 1, room, es, cs =>
      match key cs with
      | none => none
      | some (k, cs) =>
          match expect '=' cs with
          | none => none
          | some cs =>
              match value fuel room (skipSpace cs) with
              | none => none
              | some (t, cs) =>
                  match k.define (.value t) .opened es with
                  | none => none
                  | some es =>
                      match skipSpace cs with
                      | ',' :: rest => members fuel room es rest
                      | '\x7d' :: rest => some (es, rest)
                      | _ => none

end

/-! ### Lines -/

/-- Moves past what may follow on a line: blanks, a comment and its end. -/
def lineEnd? (cs : List Char) : Option (List Char) :=
  let cs := skipSpace cs
  let cs := (comment? cs).getD cs
  if cs.isEmpty then some [] else newline? cs

/-- What has been read: the outermost table and the path of the table that is open. -/
structure Draft where
  root : Entries := []
  current : List String := []

/-- Reads a line, blanks in front of it skipped. -/
def line (d : Draft) (cs : List Char) : Option (Draft × List Char) :=
  match cs with
  | '#' :: _ => (lineEnd? cs).map (d, ·)
  | '\n' :: _ => (lineEnd? cs).map (d, ·)
  | '\r' :: _ => (lineEnd? cs).map (d, ·)
  | '[' :: '[' :: cs => do
      let (k, cs) ← key cs
      let cs ← expect ']' (← expect ']' cs)
      let cs ← lineEnd? cs
      some (⟨← k.openRow d.root, k.path ++ [k.name]⟩, cs)
  | '[' :: cs => do
      let (k, cs) ← key cs
      let cs ← lineEnd? (← expect ']' cs)
      some (⟨← k.openTable d.root, k.path ++ [k.name]⟩, cs)
  | cs => do
      let (k, cs) ← key cs
      let cs ← expect '=' cs
      let (t, cs) ← value (2 * cs.length + 2) depthLimit (skipSpace cs)
      let cs ← lineEnd? cs
      some ({ d with root := ← edit .implied (k.define (.value t)) d.current .opened d.root }, cs)

/-- Reads the lines of a text, at most `fuel` of them. -/
def lines? : (fuel : Nat) → Draft → List Char → Option Draft
  | 0, _, _ => none
  | fuel + 1, d, cs =>
      match skipSpace cs with
      | [] => some d
      | cs => (line d cs).bind fun (d, cs) => lines? fuel d cs

/-- A text without a mark of its byte order. -/
def withoutMark (cs : List Char) : List Char :=
  if cs.head? = some (Char.ofNat 0xFEFF) then cs.tail else cs

def read? (text : String) : Option (List (String × Tree)) :=
  let cs := withoutMark text.toList
  (lines? (cs.length + 1) {} cs).map fun d => entriesTree d.root

end Reentrant.Settings.Toml
