import Reentrant.Settings.Variables
import Reentrant.Text.Blank
import Reentrant.Text.Letter

/-!
Files of variables. A line is a name, an equals sign and a value; a value may be in quotes, run over
several lines and refer to other variables with a dollar sign. A file is read up to the first line
that is none of this, and it never changes a variable that is set already.
-/

namespace Reentrant.Settings.VariableFile

/-! ### Lines -/

/-- Where in a line its scan is. -/
inductive Place where
  | plain
  | blank
  | escape
  /-- Inside quotes; `escaped` behind a backslash. -/
  | quoted (q : Char) (escaped : Bool)
  | comment
  deriving DecidableEq

def Place.next : Place → Char → Place
  | .plain, c =>
      if c ≠ '\n' ∧ c ≠ '\r' ∧ Text.isBlank c then .blank
      else if c = '\\' then .escape
      else if c = '"' ∨ c = '\'' then .quoted c false
      else .plain
  | .blank, c =>
      if c = '#' then .comment
      else if c = '\\' then .escape
      else if c = '"' ∨ c = '\'' then .quoted c false
      else .plain
  | .escape, _ => .plain
  | .quoted q true, _ => .quoted q false
  | .quoted q false, c =>
      if c = '\\' then .quoted q true else if c = q then .plain else .quoted q false
  | .comment, _ => .comment

/-- Scans a line: the place at its end, and the line without its comment. -/
def scan : Place → List Char → Place × List Char
  | p, [] => (p, [])
  | p, c :: cs =>
      if p.next c = .comment then (.comment, [])
      else
        let (last, kept) := scan (p.next c) cs
        (last, c :: kept)

def chop (cs : List Char) : List Char :=
  match cs.reverse with
  | '\n' :: '\r' :: rest => rest.reverse
  | '\n' :: rest => rest.reverse
  | _ => cs

def physicalLines (cs : List Char) : List (List Char) :=
  let (line, lines) := cs.foldr
    (fun c (line, lines) =>
      if c = '\n' then (['\n'], if line.isEmpty then lines else line :: lines) else (c :: line, lines))
    ([], [])
  if line.isEmpty then lines else line :: lines

/-- Joins lines until quotes are closed. `none` is a text that ends before they are. -/
def logicalLines : List (List Char) → (begun : List Char) → Place → List (Option (List Char))
  | [], _, p => if p = .plain then [] else [none]
  | line :: rest, begun, p =>
      let whole := begun ++ line
      if (whole.dropWhile Text.isBlank).head? = some '#' then some [] :: logicalLines rest [] .plain
      else
        match scan p line with
        | (.comment, kept) => some (begun ++ kept) :: logicalLines rest [] .plain
        | (.plain, _) => some (chop whole) :: logicalLines rest [] .plain
        | (p, _) => logicalLines rest whole p

/-! ### Values -/

/-- A reference to a variable that is being read: its name so far, the last character first, and
whether it is in braces. -/
structure Reference where
  name : List Char := []
  braced : Bool := false

/-- A value that is being read: its characters so far, the last one first. -/
structure Reading where
  out : List Char := []
  quote : Option Char := none
  escaped : Bool := false
  /-- Behind a blank that ends the value. -/
  ended : Bool := false
  reference : Option Reference := none

def Reading.refer (r : Reading) (meaning : String → String) (name : List Char) : Reading :=
  { r with
    out := (meaning (String.ofList name.reverse)).toList.reverse ++ r.out
    reference := none }

def Reading.refers (r : Reading) (meaning : String → String) (ref : Reference) (c : Char) : Reading :=
  if Text.isLetterOrNumber c then { r with reference := some { ref with name := c :: ref.name } }
  else if ref.braced then
    if c = '\x7d' then r.refer meaning ref.name
    else { r with reference := some { ref with name := c :: ref.name } }
  else if c = '\x7b' ∧ ref.name.isEmpty then { r with reference := some { ref with braced := true } }
  else
    let r := r.refer meaning ref.name
    if c = '$' then { r with reference := some {} } else { r with out := c :: r.out }

def escaped? (c : Char) : Option Char :=
  if c = 'n' then some '\n'
  else if c ∈ ['\\', '\'', '"', '$', ' '] then some c
  else none

def Reading.take (r : Reading) (meaning : String → String) (c : Char) : Option Reading :=
  if r.ended then if c = ' ' ∨ c = '\t' then some r else none
  else if r.escaped then (escaped? c).map fun x => { r with out := x :: r.out, escaped := false }
  else if r.quote = some '\'' then
    some (if c = '\'' then { r with quote := none } else { r with out := c :: r.out })
  else
    match r.reference with
    | some ref => some (r.refers meaning ref c)
    | none =>
        some <|
          if c = '$' then { r with reference := some {} }
          else if c = '\\' then { r with escaped := true }
          else if c = '"' then { r with quote := if r.quote.isSome then none else some '"' }
          else if r.quote.isSome then { r with out := c :: r.out }
          else if c = '\'' then { r with quote := some '\'' }
          else if c = ' ' ∨ c = '\t' then { r with ended := true }
          else { r with out := c :: r.out }

/-- Reads a value. A hash sign ends it where nothing else may follow. -/
def Reading.run (meaning : String → String) : Reading → List Char → Option Reading
  | r, [] => some r
  | r, c :: cs =>
      if r.ended ∧ c = '#' then some r else (r.take meaning c).bind fun r => run meaning r cs

def value? (meaning : String → String) (cs : List Char) : Option String :=
  (Reading.run meaning {} cs).bind fun r =>
    if r.quote.isSome || (r.reference.map Reference.braced).getD false then none
    else
      let r := (r.reference.map fun ref => r.refer meaning ref.name).getD r
      some (String.ofList r.out.reverse)

/-! ### Variables -/

def skipBlank (cs : List Char) : List Char := cs.dropWhile Text.isBlank

def name? (cs : List Char) : Option (String × List Char) :=
  match cs with
  | c :: _ =>
      if c.isAlpha || c == '_' then
        let name := cs.takeWhile fun c => c.isAlphanum || c == '_' || c == '.'
        some (String.ofList name, cs.drop name.length)
      else none
  | [] => none

/-- Moves past an equals sign and the blanks around it. -/
def equals? (cs : List Char) : Option (List Char) :=
  match skipBlank cs with
  | '=' :: rest => some (skipBlank rest)
  | _ => none

/-- The name of a line and what is behind its equals sign. The word `export` may stand in front. -/
def header? (cs : List Char) : Option (String × List Char) := do
  let (name, rest) ← name? cs
  match equals? rest with
  | some rest => some (name, rest)
  | none =>
      if name = "export" then
        let (name, rest) ← name? (skipBlank rest)
        return (name, ← equals? rest)
      else none

/-- Sets a variable, unless it is set. -/
def setIfUnset (name text : String) (vs : Variables) : Variables :=
  if (vs.lookup name).isSome then vs else vs ++ [(name, text)]

/-- What a name refers to: the variable, or what the file has given it. -/
def meaning (vs given : Variables) (name : String) : String :=
  ((vs.lookup name).or (given.lookup name)).getD ""

/-- Reads lines until one is wrong; `given` is what the file has given so far. -/
def load : List (Option (List Char)) → (given vs : Variables) → Variables
  | [], _, vs => vs
  | none :: _, _, vs => vs
  | some line :: rest, given, vs =>
      let cs := skipBlank (Text.trimEnd line)
      if cs.isEmpty ∨ cs.head? = some '#' then load rest given vs
      else
        match header? cs with
        | none => vs
        | some (name, cs) =>
            let text? := if cs.isEmpty ∨ cs.head? = some '#' then some ""
              else value? (meaning vs given) cs
            match text? with
            | none => vs
            | some text => load rest (Tree.put name text given) (setIfUnset name text vs)

/-- Adds the variables of a file to those that are set. -/
def extend (text : String) (vs : Variables) : Variables :=
  let cs := text.toList
  let cs := if cs.head? = some (Char.ofNat 0xFEFF) then cs.tail else cs
  load (logicalLines (physicalLines cs) [] .plain) [] vs

end Reentrant.Settings.VariableFile
