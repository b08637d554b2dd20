import Reentrant.Settings.Number
import Reentrant.Text.Reader

/-!
Settings in object notation: records with their fields in parentheses, maps in braces, lists in
brackets, optional values, and comments that may be nested. A record may have a name in front, and a
name alone stands for nothing.
-/

namespace Reentrant.Settings.Ron

open Text (Reader expect expectWord consing character? numbered?)

/-! ### Blanks and comments -/

def isSpace (c : Char) : Bool := c == ' ' || c == '\t' || c == '\n' || c == '\r'

/-- Moves past the end of a comment with others inside it. -/
def closeComment : (depth : Nat) → List Char → Option (List Char)
  | depth, '/' :: '*' :: cs => closeComment (depth + 1) cs
  | 0, '*' :: '/' :: cs => some cs
  | depth + 1, '*' :: '/' :: cs => closeComment depth cs
  | depth, _ :: cs => closeComment depth cs
  | _, [] => none

/-- Moves past blanks and comments, at most `fuel` of them. A slash begins a comment. -/
def skip : (fuel : Nat) → List Char → Option (List Char)
  | 0, cs => some cs
  | fuel + 1, cs =>
      match cs.dropWhile isSpace with
      | '/' :: '/' :: rest => skip fuel (rest.dropWhile (· ≠ '\n'))
      | '/' :: '*' :: rest => (closeComment 0 rest).bind (skip fuel)
      | '/' :: _ => none
      | cs => some cs

def skipAll (cs : List Char) : Option (List Char) := skip (cs.length + 1) cs

/-- Moves past a comma, if there is one, and the blanks around it. -/
def comma (cs : List Char) : Option (Bool × List Char) :=
  match skipAll cs with
  | some (',' :: rest) => (skipAll rest).map (true, ·)
  | some rest => some (false, rest)
  | none => none

/-! ### Names -/

def isNameStart (c : Char) : Bool := c.isAlpha || c == '_'

def isNamePart (c : Char) : Bool := c.isAlphanum || c == '_'

/-- Characters that only a marked name has. -/
def isMarkedPart (c : Char) : Bool := isNamePart c || c == '.' || c == '+' || c == '-'

/-- A name, or one with a mark in front. What looks like a marked name and lacks the mark is none, nor
is the beginning of a string without escapes. -/
def name : Reader (List Char) := fun cs =>
  match cs with
  | 'r' :: '"' :: _ => none
  | 'r' :: '#' :: cs =>
      let s := cs.takeWhile isMarkedPart
      if s.isEmpty then none else some (s, cs.drop s.length)
  | c :: _ =>
      let s := cs.takeWhile isNamePart
      if isNameStart c ∧ s.length = (cs.takeWhile isMarkedPart).length then
        some (s, cs.drop s.length)
      else none
  | [] => none

def word (w : String) (cs : List Char) : Option (List Char) :=
  match expectWord w.toList cs with
  | some (c :: rest) => if isNamePart c then none else some (c :: rest)
  | some [] => some []
  | none => none

/-! ### Strings -/

/-- The digits of a character's number up to the closing brace, at most six. -/
def numberedChar (cs : List Char) : Option (Char × List Char) := do
  let cs ← expect '\x7b' cs
  let ds := (cs.take 6).takeWhile (· ≠ '\x7d')
  let rest ← expect '\x7d' (cs.drop ds.length)
  let c ← character? (← Number.natural? 16 ds)
  some (c, rest)

/-- The character of an escape, behind its backslash. -/
def escape : Reader Char
  | '\'' :: cs => some ('\'', cs)
  | '"' :: cs => some ('"', cs)
  | '\\' :: cs => some ('\\', cs)
  | 'n' :: cs => some ('\n', cs)
  | 'r' :: cs => some ('\r', cs)
  | 't' :: cs => some ('\t', cs)
  | '0' :: cs => some (Char.ofNat 0, cs)
  | 'x' :: cs => numbered? 2 cs
  | 'u' :: cs => numberedChar cs
  | _ => none

def stringBody : (fuel : Nat) → Reader (List Char)
  | 0, _ => none
  | _ + 1, [] => none
  | fuel + 1, c :: cs =>
      if c = '"' then some ([], cs)
      else if c = '\\' then (escape cs).bind fun (x, rest) => consing x (stringBody fuel rest)
      else consing c (stringBody fuel cs)

/-- A string without escapes, up to a closing mark. -/
def rawBody (mark : List Char) : Reader (List Char)
  | [] => none
  | c :: cs =>
      match expectWord mark (c :: cs) with
      | some rest => some ([], rest)
      | none => consing c (rawBody mark cs)

/-- A string without escapes, behind its letter: as many number signs behind it as in front. -/
def raw : Reader (List Char) := fun cs => do
  let signs := cs.takeWhile (· == '#')
  rawBody ('"' :: signs) (← expect '"' (cs.drop signs.length))

def character : Reader Char := fun cs => do
  let (c, rest) ← match cs with
    | '\\' :: cs => escape cs
    | c :: cs => if c = '\'' then none else some (c, cs)
    | [] => none
  some (c, ← expect '\'' rest)

/-! ### Numbers -/

def isDoublePart (c : Char) : Bool :=
  c.isDigit || c == '+' || c == '-' || c == '.' || c == 'e' || c == 'E' || c == '_'

def isIntegerPart (c : Char) : Bool := Hex.isDigit c || c == '_'

/-- A number that is read as a double. -/
def double : Reader Tree := fun cs =>
  let s := cs.takeWhile isDoublePart
  if s.contains '_' then none
  else (Number.double? s).map fun x => (.float x, cs.drop s.length)

/-- An integer behind its sign. Underscores do not count, and none comes first. -/
def natural : Reader Nat := fun cs =>
  let (base, cs) := match cs with
    | '0' :: 'x' :: cs => (16, cs)
    | '0' :: 'b' :: cs => (2, cs)
    | '0' :: 'o' :: cs => (8, cs)
    | cs => (10, cs)
  let s := cs.takeWhile isIntegerPart
  if s.head? = some '_' then none
  else (Number.natural? base (s.filter (· ≠ '_'))).map (·, cs.drop s.length)

def integer : Reader Int
  | '-' :: cs => (natural cs).map fun (n, rest) => (-(n : Int), rest)
  | '+' :: cs => (natural cs).map fun (n, rest) => ((n : Int), rest)
  | cs => (natural cs).map fun (n, rest) => ((n : Int), rest)

/-- A number. It is an integer unless it has a part that integers lack. One that has too many bits is
read as a double; without a sign there is one bit more, but no more than 64 bits with a sign. -/
def number : Reader Tree := fun cs =>
  let (signed, digits) := match cs with
    | '+' :: ds => (true, ds)
    | '-' :: ds => (true, ds)
    | ds => (false, ds)
  if (digits.takeWhile isIntegerPart).length < (digits.takeWhile isDoublePart).length then double cs
  else
    match integer cs with
    | some (z, rest) =>
        if Number.fits z then some (.int z, rest)
        else if !signed && z < Int.pow 2 64 then some (.float (Binary64.ofScientific { digits := z.toNat }), rest)
        else double cs
    | none => double cs

/-! ### Values -/

/-- Whether a record with named fields begins, behind the opening parenthesis. -/
def hasFields (cs : List Char) : Bool :=
  match (name cs).bind fun (_, rest) => skipAll rest with
  | some (':' :: _) => true
  | _ => false

def memberName : Tree → Option String
  | .string s => some s
  | _ => none

def ofText (r : Option (List Char × List Char)) : Option (Tree × List Char) :=
  r.map fun (s, rest) => (.string (String.ofList s), rest)

mutual

/-- Reads a value. There may be `room` more brackets inside one another. -/
def value : (fuel room : Nat) → Reader Tree
  | 0, _, _ => none
  | fuel + 1, room, cs =>
      if let some rest := word "true" cs then some (.bool true, rest)
      else if let some rest := word "false" cs then some (.bool false, rest)
      else if (word "Some" cs).isSome then present fuel room (cs.drop 4)
      else if let some rest := word "None" cs then some (.null, rest)
      else if let some rest := expectWord "()".toList cs then some (.null, rest)
      else if let some rest := word "inf" cs then some (.float (.infinite false), rest)
      else if let some rest := word "-inf" cs then some (.float (.infinite true), rest)
      else if let some rest := word "NaN" cs then some (.float .nan, rest)
      else
        match name cs with
        | some (_, rest) =>
            match skipAll rest with
            | some ('(' :: rest) => record fuel room rest
            | some rest => some (.null, rest)
            | none => none
        | none =>
            match cs with
            | '(' :: cs => record fuel room cs
            | '[' :: cs =>
                if room = 0 then none
                else (items fuel (room - 1) ']' true cs).map fun (ts, rest) => (.list ts, rest)
            | '\x7b' :: cs =>
                if room = 0 then none
                else (members fuel (room - 1) true [] cs).map fun (es, rest) => (.table es, rest)
            | '.' :: _ => double cs
            | '"' :: cs => ofText (stringBody (cs.length + 1) cs)
            | 'r' :: cs => ofText (raw cs)
            | '\'' :: cs => (character cs).map fun (c, rest) => (.string c.toString, rest)
            | cs => number cs

/-- Reads what is there, behind the word that says so. -/
def present : (fuel room : Nat) → Reader Tree
  | 0, _, _ => none
  | fuel + 1, room, cs =>
      match skipAll cs with
      | some ('(' :: cs) =>
          if room = 0 then none
          else
            match (skipAll cs).bind (value fuel (room - 1)) with
            | none => none
            | some (t, cs) =>
                match comma cs with
                | some (_, ')' :: rest) => some (t, rest)
                | _ => none
      | _ => none

/-- Reads the fields of a record, named ones or values in a row, behind its parenthesis. -/
def record : (fuel room : Nat) → Reader Tree
  | 0, _, _ => none
  | fuel + 1, room, cs =>
      if room = 0 then none
      else
        match skipAll cs with
        | none => none
        | some cs =>
            if hasFields cs then
              (fields fuel (room - 1) true [] cs).map fun (es, rest) => (.table es, rest)
            else (items fuel (room - 1) ')' true cs).map fun (ts, rest) => (.list ts, rest)

/-- Reads items and the closing bracket. Behind every item but the last there is a comma. -/
def items : (fuel room : Nat) → (close : Char) → (again : Bool) → Reader (List Tree)
  | 0, _, _, _, _ => none
  | fuel + 1, room, close, again, cs =>
      match skipAll cs with
      | none => none
      | some cs =>
          if cs.head? = some close then some ([], cs.tail)
          else if !again then none
          else
            match value fuel room cs with
            | none => none
            | some (t, cs) =>
                match comma cs with
                | none => none
                | some (again, cs) =>
                    (items fuel room close again cs).map fun (ts, rest) => (t :: ts, rest)

def fields : (fuel room : Nat) → (again : Bool) → List (String × Tree) →
    Reader (List (String × Tree))
  | 0, _, _, _, _ => none
  | fuel + 1, room, again, es, cs =>
      match skipAll cs with
      | none => none
      | some (')' :: rest) => some (es, rest)
      | some cs =>
          if !again then none
          else
            match name cs with
            | none => none
            | some (s, cs) =>
                match content fuel room cs with
                | none => none
                | some (t, again, cs) => fields fuel room again (Tree.put (String.ofList s) t es) cs

def members : (fuel room : Nat) → (again : Bool) → List (String × Tree) →
    Reader (List (String × Tree))
  | 0, _, _, _, _ => none
  | fuel + 1, room, again, es, cs =>
      match skipAll cs with
      | none => none
      | some ('\x7d' :: rest) => some (es, rest)
      | some cs =>
          if !again then none
          else
            match value fuel room cs with
            | none => none
            | some (k, cs) =>
                match memberName k, content fuel room cs with
                | some s, some (t, again, cs) => members fuel room again (Tree.put s t es) cs
                | _, _ => none

/-- Reads a colon, a value and the comma behind it, if there is one. -/
def content : (fuel room : Nat) → List Char → Option (Tree × Bool × List Char)
  | 0, _, _ => none
  | fuel + 1, room, cs =>
      match skipAll cs with
      | some (':' :: cs) =>
          match (skipAll cs).bind (value fuel room) with
          | none => none
          | some (t, cs) => (comma cs).map fun (again, cs) => (t, again, cs)
      | _ => none

end

/-! ### Texts -/

/-- What may be switched on in front of a text. -/
def extensions : List String := ["unwrap_newtypes", "implicit_some", "unwrap_variant_newtypes"]

/-- The names in a switch, with commas between them, at most `fuel` of them. -/
def switches : (fuel : Nat) → List Char → Option (List Char)
  | 0, _ => none
  | fuel + 1, cs => do
      let (s, cs) ← name cs
      if String.ofList s ∈ extensions then
        let (more, cs) ← comma cs
        if more && (cs.head?.map isNamePart).getD false then switches fuel cs else some cs
      else none

def wordsBehind : List String → List Char → Option (List Char)
  | [], cs => some cs
  | w :: ws, cs => ((expectWord w.toList cs).bind skipAll).bind (wordsBehind ws)

/-- Moves past the switches in front of a text, at most `fuel` lines of them. -/
def header : (fuel : Nat) → List Char → Option (List Char)
  | 0, _ => none
  | fuel + 1, cs => do
      let cs ← skipAll cs
      if cs.head? = some '#' then
        let cs ← wordsBehind ["#", "!", "[", "enable", "("] cs
        let cs ← switches (cs.length + 1) cs
        header fuel (← wordsBehind [")", "]"] (← skipAll cs))
      else some cs

/-- How many brackets may be inside one another. -/
def depthLimit : Nat := 128

def read? (text : String) : Option (List (String × Tree)) := do
  let cs := text.toList
  let cs ← header (cs.length + 1) cs
  match ← value (3 * cs.length + 3) depthLimit cs with
  | (.table es, rest) => if (← skipAll rest).isEmpty then some es else none
  | _ => none

end Reentrant.Settings.Ron
