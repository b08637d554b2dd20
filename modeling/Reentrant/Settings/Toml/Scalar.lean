import Reentrant.Settings.Tree
import Reentrant.Text.Reader

/-!
The parts of a TOML text that stand for single values: strings, numbers and dates. Where a part is
followed by something that cannot follow it, its reader stops there and whoever reads on refuses.
-/

namespace Reentrant.Settings.Toml

open Text (Reader expect consing numbered?)

def isSpace (c : Char) : Bool := c == ' ' || c == '\t'

def skipSpace (cs : List Char) : List Char := cs.dropWhile isSpace

def newline? : List Char → Option (List Char)
  | '\n' :: cs => some cs
  | '\r' :: '\n' :: cs => some cs
  | _ => none

/-- A character that may stand for itself in a string or a comment. -/
def isPlain (c : Char) : Bool := c == '\t' || (32 ≤ c.toNat && c.toNat ≠ 127)

/-! ### Strings -/

def escape? : Reader Char
  | 'b' :: cs => some (Char.ofNat 8, cs)
  | 't' :: cs => some ('\t', cs)
  | 'n' :: cs => some ('\n', cs)
  | 'f' :: cs => some (Char.ofNat 12, cs)
  | 'r' :: cs => some ('\r', cs)
  | '"' :: cs => some ('"', cs)
  | '\\' :: cs => some ('\\', cs)
  | 'u' :: cs => numbered? 4 cs
  | 'U' :: cs => numbered? 8 cs
  | _ => none

/-- A string with escapes, behind its opening quote. At most `fuel` characters are read. -/
def basic : (fuel : Nat) → Reader (List Char)
  | 0, _ => none
  | _ + 1, [] => none
  | fuel + 1, c :: cs =>
      if c = '"' then some ([], cs)
      else if c = '\\' then (escape? cs).bind fun (x, rest) => consing x (basic fuel rest)
      else if isPlain c then consing c (basic fuel cs)
      else none

/-- A string without escapes, behind its opening quote. -/
def literal : Reader (List Char)
  | [] => none
  | c :: cs =>
      if c = '\'' then some ([], cs) else if isPlain c then consing c (literal cs) else none

def skipLines : List Char → List Char
  | ' ' :: cs => skipLines cs
  | '\t' :: cs => skipLines cs
  | '\n' :: cs => skipLines cs
  | '\r' :: '\n' :: cs => skipLines cs
  | cs => cs

/-- Up to two quotes that stand before the closing ones belong to the string. -/
def closing (q : Char) : List Char → List Char × List Char
  | a :: b :: cs => if a = q then if b = q then ([q, q], cs) else ([q], b :: cs) else ([], a :: b :: cs)
  | [a] => if a = q then ([q], []) else ([], [a])
  | [] => ([], [])

/-- A string of many lines, behind its opening quotes. Every end of a line is a single character. If
`q` is a double quote, there are escapes, and a backslash at the end of a line hides what is blank up
to the next text. At most `fuel` characters are read. -/
def lines (q : Char) : (fuel : Nat) → Reader (List Char)
  | 0, _ => none
  | _ + 1, [] => none
  | fuel + 1, c :: cs =>
      if c = q then
        match cs with
        | a :: b :: rest =>
            if a = q ∧ b = q then some (closing q rest) else consing q (lines q fuel cs)
        | _ => none
      else if c = '\\' ∧ q = '"' then
        match newline? (skipSpace cs) with
        | some rest => lines q fuel (skipLines rest)
        | none => (escape? cs).bind fun (x, rest) => consing x (lines q fuel rest)
      else
        match newline? (c :: cs) with
        | some rest => consing '\n' (lines q fuel rest)
        | none => if isPlain c then consing c (lines q fuel cs) else none

/-- A string of many lines. An end of a line behind the opening quotes does not belong to it. -/
def manyLines (q : Char) (cs : List Char) : Option (List Char × List Char) :=
  lines q (cs.length + 1) ((newline? cs).getD cs)

def oneLine : Reader (List Char)
  | '"' :: cs => basic (cs.length + 1) cs
  | '\'' :: cs => literal cs
  | _ => none

def string : Reader (List Char)
  | '"' :: '"' :: '"' :: cs => manyLines '"' cs
  | '\'' :: '\'' :: '\'' :: cs => manyLines '\'' cs
  | cs => oneLine cs

/-! ### Numbers -/

/-- Digits behind a first one. A single underscore may stand between two. -/
def moreDigits (isDigit : Char → Bool) : List Char → List Char × List Char
  | '_' :: c :: cs =>
      if isDigit c then
        let (ds, rest) := moreDigits isDigit cs
        (c :: ds, rest)
      else ([], '_' :: c :: cs)
  | c :: cs =>
      if isDigit c then
        let (ds, rest) := moreDigits isDigit cs
        (c :: ds, rest)
      else ([], c :: cs)
  | [] => ([], [])

def digits (isDigit : Char → Bool) : Reader (List Char)
  | c :: cs => if isDigit c then
      let (ds, rest) := moreDigits isDigit cs
      some (c :: ds, rest)
    else none
  | [] => none

/-- Whether a character is a digit in a base up to sixteen. -/
def isBelow (base : Nat) (c : Char) : Bool := (Hex.value? c).any (· < base)

def based (base : Nat) : Reader Tree := fun cs => do
  let (ds, rest) ← digits (isBelow base) cs
  let n := ds.foldl (fun n c => n * base + (Hex.value? c).getD 0) 0
  if n < Nat.pow 2 63 then some (.int n, rest) else none

/-- The digits before the point. A leading zero stands alone. -/
def wholePart : Reader (List Char)
  | '0' :: cs => some (['0'], cs)
  | cs => digits Char.isDigit cs

/-- The exponent of a number, if there is one. -/
def exponent : Reader Int
  | 'e' :: cs => signed cs
  | 'E' :: cs => signed cs
  | cs => some (0, cs)
where
  signed : Reader Int
    | '+' :: cs => (digits Char.isDigit cs).map fun (ds, rest) => ((Decimal.toNat ds : Int), rest)
    | '-' :: cs => (digits Char.isDigit cs).map fun (ds, rest) => (-(Decimal.toNat ds : Int), rest)
    | cs => (digits Char.isDigit cs).map fun (ds, rest) => ((Decimal.toNat ds : Int), rest)

/-- A double from its parts. It must not be too large; a negative one may be. -/
def double? (negative : Bool) (whole fraction : List Char) (e : Int) : Option Tree :=
  match Binary64.ofScientific ⟨negative, Decimal.toNat (whole ++ fraction), e - fraction.length⟩ with
  | .infinite false => none
  | x => some (.float x)

/-- An integer of 64 bits. -/
def integer? (negative : Bool) (whole : List Char) : Option Tree :=
  let n := Decimal.toNat whole
  if negative then if n ≤ Nat.pow 2 63 then some (.int (-n)) else none
  else if n < Nat.pow 2 63 then some (.int n)
  else none

/-- A number behind its sign. -/
def unsigned (negative : Bool) : Reader Tree
  | 'i' :: 'n' :: 'f' :: cs => some (.float (.infinite negative), cs)
  | 'n' :: 'a' :: 'n' :: cs => some (.float .nan, cs)
  | cs => do
      let (whole, rest) ← wholePart cs
      match rest with
      | '.' :: rest =>
          let (fraction, rest) ← digits Char.isDigit rest
          let (e, rest) ← exponent rest
          (double? negative whole fraction e).map (·, rest)
      | 'e' :: _ =>
          let (e, rest) ← exponent rest
          (double? negative whole [] e).map (·, rest)
      | 'E' :: _ =>
          let (e, rest) ← exponent rest
          (double? negative whole [] e).map (·, rest)
      | _ => (integer? negative whole).map (·, rest)

def number : Reader Tree
  | '0' :: 'x' :: cs => based 16 cs
  | '0' :: 'o' :: cs => based 8 cs
  | '0' :: 'b' :: cs => based 2 cs
  | '+' :: cs => unsigned false cs
  | '-' :: cs => unsigned true cs
  | cs => unsigned false cs

/-! ### Dates

A date is read as a text in one form: `T` between day and time, no zeros at the end of a fraction, and
no more than nine digits of it. -/

def fixed (k : Nat) : Reader Nat := fun cs =>
  (Decimal.readNat? (cs.take k)).bind fun n =>
    if k ≤ cs.length then some (n, cs.drop k) else none

/-- The digits of a number, with zeros in front up to `k` digits. -/
def padded (k n : Nat) : List Char :=
  let ds := Decimal.ofNat n
  List.replicate (k - ds.length) '0' ++ ds

def daysIn (year month : Nat) : Nat :=
  if month = 2 then
    if year % 4 = 0 ∧ (year % 100 ≠ 0 ∨ year % 400 = 0) then 29 else 28
  else if month ∈ [4, 6, 9, 11] then 30
  else 31

def date : Reader (List Char) := fun cs => do
  let (year, cs) ← fixed 4 cs
  let (month, cs) ← fixed 2 (← expect '-' cs)
  let (day, cs) ← fixed 2 (← expect '-' cs)
  if 1 ≤ month ∧ month ≤ 12 ∧ 1 ≤ day ∧ day ≤ daysIn year month then
    some (padded 4 year ++ '-' :: padded 2 month ++ '-' :: padded 2 day, cs)
  else none

/-- The fraction of a second, if there is one. -/
def fraction : Reader (List Char)
  | '.' :: cs =>
      let ds := cs.takeWhile Char.isDigit
      let kept := ((ds.take 9).reverse.dropWhile (· == '0')).reverse
      if ds.isEmpty then none
      else some (if kept.isEmpty then [] else '.' :: kept, cs.drop ds.length)
  | cs => some ([], cs)

def time : Reader (List Char) := fun cs => do
  let (hour, cs) ← fixed 2 cs
  let (minute, cs) ← fixed 2 (← expect ':' cs)
  let (second, cs) ← fixed 2 (← expect ':' cs)
  let (part, cs) ← fraction cs
  if hour ≤ 23 ∧ minute ≤ 59 ∧ second ≤ 60 then
    some (padded 2 hour ++ ':' :: padded 2 minute ++ ':' :: padded 2 second ++ part, cs)
  else none

/-- The distance from universal time, in hours and minutes. -/
def distance (sign : Char) : Reader (List Char) := fun cs => do
  let (hour, cs) ← fixed 2 cs
  let (minute, cs) ← fixed 2 (← expect ':' cs)
  let sign := if hour = 0 ∧ minute = 0 then '+' else sign
  if hour ≤ 23 ∧ minute ≤ 59 then some (sign :: padded 2 hour ++ ':' :: padded 2 minute, cs)
  else none

/-- The time zone, if there is one. -/
def zone (cs : List Char) : List Char × List Char :=
  match cs with
  | 'Z' :: rest => (['Z'], rest)
  | 'z' :: rest => (['Z'], rest)
  | '+' :: rest => (distance '+' rest).getD ([], cs)
  | '-' :: rest => (distance '-' rest).getD ([], cs)
  | _ => ([], cs)

/-- What may follow a date: a time, and a time zone. -/
def timeOfDay (cs : List Char) : List Char × List Char :=
  match cs with
  | c :: rest =>
      if c = 'T' ∨ c = 't' ∨ c = ' ' then
        match time rest with
        | some (t, rest) =>
            let (z, rest) := zone rest
            ('T' :: t ++ z, rest)
        | none => ([], cs)
      else ([], cs)
  | [] => ([], [])

/-- A date, a time or both. -/
def moment : Reader (List Char) := fun cs =>
  match date cs with
  | some (d, rest) =>
      let (t, rest) := timeOfDay rest
      some (d ++ t, rest)
  | none => time cs

/-! ### Words -/

/-- A value that is neither a list nor a table. -/
def scalar : Reader Tree
  | 't' :: 'r' :: 'u' :: 'e' :: cs => some (.bool true, cs)
  | 'f' :: 'a' :: 'l' :: 's' :: 'e' :: cs => some (.bool false, cs)
  | cs =>
      match cs with
      | '"' :: _ => text cs
      | '\'' :: _ => text cs
      | _ => ((moment cs).map fun (s, rest) => (Tree.string (String.ofList s), rest)).or (number cs)
where
  text (cs : List Char) : Option (Tree × List Char) :=
    (string cs).map fun (s, rest) => (.string (String.ofList s), rest)

end Reentrant.Settings.Toml
