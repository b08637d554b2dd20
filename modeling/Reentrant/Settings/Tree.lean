import Reentrant.Number.Shortest
import Reentrant.Settings

/-!
Settings before they are read: trees of tables, as files and variables give them. Later sources are
merged into earlier ones, table by table. Reading is generous with scalars, a number also comes as a
text, and strict with all else.
-/

namespace Reentrant.Settings

inductive Tree where
  | null
  | bool (b : Bool)
  | int (z : Int)
  | float (x : Binary64)
  | string (s : String)
  | list (items : List Tree)
  | table (entries : List (String × Tree))
  deriving Inhabited

namespace Tree

/-- The entries of a table. Nothing else has any. -/
def entries : Tree → List (String × Tree)
  | .table es => es
  | _ => []

/-- The items of a list. Nothing else has any. -/
def items : Tree → List Tree
  | .list ts => ts
  | _ => []

/-! ### Merging -/

/-- A name as it is compared: the case of letters does not count. No setting has letters beyond
ASCII, so only those are folded. -/
def foldName (s : String) : String := s.map Char.toLower

/-- Replaces the entry of a name, or adds one at the end. -/
def put {α : Type} (key : String) (a : α) : List (String × α) → List (String × α)
  | [] => [(key, a)]
  | (k, b) :: rest => if k = key then (k, a) :: rest else (k, b) :: put key a rest

mutual

/-- Sets an entry. Of a table the entries are set one by one, so that others stay. -/
def merge (key : String) : Tree → List (String × Tree) → List (String × Tree)
  | .table new, old =>
      match old.lookup (foldName key) with
      | none => put (foldName key) (.table (mergeAll new [])) old
      | some t =>
          if new.isEmpty then old else put (foldName key) (.table (mergeAll new t.entries)) old
  | t, old => put (foldName key) t old

def mergeAll : List (String × Tree) → List (String × Tree) → List (String × Tree)
  | [], old => old
  | (key, t) :: rest, old => mergeAll rest (merge key t old)

end

/-! ### Paths -/

/-- A step from a value to a part of it. A negative place counts from the end. -/
inductive Step where
  | child (name : String)
  | item (place : Int)

/-- The way to a part of a table: one of its entries, and steps from there. -/
structure Path where
  first : String
  steps : List Step

def isNameChar (c : Char) : Bool := c.isAlphanum || c == ' ' || c == '_' || c == '-'

def isPadding (c : Char) : Bool := c == ' ' || c == '\t'

def bracketed? (cs : List Char) : Option (Int × List Char) :=
  let cs := cs.dropWhile isPadding
  let (negative, cs) := match cs with
    | '-' :: cs => (true, cs)
    | cs => (false, cs)
  let ds := cs.takeWhile Char.isDigit
  match (cs.drop ds.length).dropWhile isPadding with
  | ']' :: rest =>
      let n := Decimal.toNat ds
      if ds.isEmpty || Nat.pow 2 63 ≤ n then none else some (if negative then -n else n, rest)
  | _ => none

/-- Reads steps: a period and a name, or a place in brackets. -/
def steps? : (fuel : Nat) → List Char → Option (List Step)
  | _, [] => some []
  | 0, _ => none
  | fuel + 1, '.' :: cs =>
      let name := cs.takeWhile isNameChar
      if name.isEmpty then none
      else (steps? fuel (cs.drop name.length)).map (.child (String.ofList name) :: ·)
  | fuel + 1, '[' :: cs => do
      let (place, rest) ← bracketed? cs
      (steps? fuel rest).map (.item place :: ·)
  | _ + 1, _ => none

/-- Reads a path. A text that is none is the name of an entry. -/
def path (key : String) : Path :=
  let cs := key.toList
  let name := cs.takeWhile isNameChar
  match steps? cs.length (cs.drop name.length) with
  | some steps => if name.isEmpty then ⟨key, []⟩ else ⟨String.ofList name, steps⟩
  | none => ⟨key, []⟩

def resolve (place : Int) (length : Nat) : Nat :=
  if place < 0 then (length + place).toNat else place.toNat

/-- Replaces an item. The list grows if it is too short. -/
def putItem (i : Nat) (t : Tree) (items : List Tree) : List Tree :=
  (items ++ List.replicate (i + 1 - items.length) Tree.null).set i t

/-- Sets the part of a value at the end of some steps; what is on the way becomes a table or a list. -/
def place (t : Tree) : List Step → Tree → Tree
  | [], _ => t
  | [.child name], old => .table (merge name t old.entries)
  | .child name :: rest, old =>
      let inner := (old.entries.lookup (foldName name)).getD .null
      .table (put (foldName name) (place t rest inner) old.entries)
  | .item i :: rest, old =>
      let i := resolve i old.items.length
      .list (putItem i (place t rest (old.items.getD i .null)) old.items)

def add (key : String) (t : Tree) (old : List (String × Tree)) : List (String × Tree) :=
  let p := path key
  (place t (.child p.first :: p.steps) (.table old)).entries

def addAll (new old : List (String × Tree)) : List (String × Tree) :=
  new.foldl (fun old (key, t) => add key t old) old

/-! ### Reading -/

/-- The greatest number that a setting can have. -/
def bound : Nat := Nat.pow 2 64 - 1

def yes : List String := ["true", "on", "yes"]

def no : List String := ["false", "off", "no"]

/-- A switch: a number that is not zero is on. -/
def toBool? : Tree → Option Bool
  | .bool b => some b
  | .int z => some (z ≠ 0)
  | .float x => some (!x.isZero)
  | .string s =>
      let s := foldName s
      if s ∈ "1" :: yes then some true else if s ∈ "0" :: no then some false else none
  | _ => none

/-- Digits of a number up to `bound`, with or without a plus sign. -/
def unsigned? (s : String) : Option Nat :=
  let n? := match s.toList with
    | '+' :: cs => Decimal.readNat? cs
    | cs => Decimal.readNat? cs
  n?.filter (· ≤ bound)

/-- A number: a switch that is on counts one. -/
def toNat? : Tree → Option Nat
  | .bool b => some b.toNat
  | .int z => if 0 ≤ z ∧ z.toNat ≤ bound then some z.toNat else none
  | .float x => some (x.toNat bound)
  | .string s =>
      let folded := foldName s
      if folded ∈ yes then some 1 else if folded ∈ no then some 0 else unsigned? s
  | _ => none

def toText? : Tree → Option String
  | .bool b => some (if b then "true" else "false")
  | .int z => some (String.ofList (Decimal.ofInt z))
  | .float x => some x.text
  | .string s => some s
  | _ => none

/-- A part of a section. A section is a table, or a list with its parts in order; a part that is not
there has its default. -/
def part {α : Type} (whole : Option Tree) (name : String) (place : Nat) (default : α)
    (read : Tree → Option α) : Option α :=
  match whole with
  | none => some default
  | some (.table es) => (es.lookup name).elim (some default) read
  | some (.list ts) => (ts[place]?).elim (some default) read
  | some _ => none

/-- Reads settings. What is not set has its default, and unknown entries are ignored. -/
def settings? (es : List (String × Tree)) : Option Settings := do
  let log := es.lookup "log"
  let vm := es.lookup "vm"
  let bridge := es.lookup "bridge"
  let d : Settings := {}
  let filter ← part log "filter" 0 d.filter toText?
  let maxFrames ← part vm "max_frames" 0 d.limits.maxFrames toNat?
  let maxSteps ← part vm "max_steps" 1 d.limits.maxSteps fun
    | .null => some none
    | t => (toNat? t).map some
  let journal ← part bridge "journal" 0 d.journal toBool?
  return { filter, limits := { maxFrames, maxSteps }, journal }

end Tree

end Reentrant.Settings
