import Reentrant.Settings.Tree
import Reentrant.Text.Blank
import Reentrant.Text.Reader

/-!
Settings as an INI text: names with values, in sections or in front of them. All values are strings.
A name ends at its equals sign or colon, on whatever line that is, and a value at the end of its line.
-/

namespace Reentrant.Settings.Ini

open Text (Reader isBlank character? hexNumber? expect)

def trim (cs : List Char) : List Char := Text.trimEnd (cs.dropWhile isBlank)

/-- Moves past blanks; `fresh` tells whether a line begins there. -/
def skipBlank : (fresh : Bool) → List Char → Bool × List Char
  | fresh, [] => (fresh, [])
  | fresh, c :: cs => if isBlank c then skipBlank (c == '\n') cs else (fresh, c :: cs)

/-- What an escape stands for, behind its backslash: at the end of a line for nothing. -/
def escape : List Char → Option (Option Char × List Char)
  | [] => none
  | '0' :: cs => some (some (Char.ofNat 0), cs)
  | 'a' :: cs => some (some (Char.ofNat 7), cs)
  | 'b' :: cs => some (some (Char.ofNat 8), cs)
  | 't' :: cs => some (some '\t', cs)
  | 'r' :: cs => some (some '\r', cs)
  | 'n' :: cs => some (some '\n', cs)
  | '\n' :: cs => some (none, cs)
  | 'x' :: cs => (hexNumber? 4 cs).bind fun (n, rest) => (character? n).map fun c => (some c, rest)
  | c :: cs => some (some c, cs)

/-- Reads characters and escapes up to one that ends the part, at most `fuel` of them. The end of the
text ends it only if it may stop there. -/
def part (ends : Char → Bool) (mayStop : Bool) : (fuel : Nat) → Reader (List Char)
  | 0, _ => none
  | _ + 1, [] => if mayStop then some ([], []) else none
  | fuel + 1, c :: cs =>
      if ends c then some ([], c :: cs)
      else if c = '\\' then
        match escape cs with
        | none => none
        | some (none, rest) => part ends mayStop fuel rest
        | some (some x, rest) => Text.consing x (part ends mayStop fuel rest)
      else Text.consing c (part ends mayStop fuel cs)

def closedPart (ends : Char → Bool) : Reader (List Char) := fun cs =>
  part ends false (cs.length + 1) cs

def line : Reader (List Char) := fun cs =>
  part (fun c => c == '\n' || c == '\r') true (cs.length + 1) cs

/-- A value: strings in quotes, one behind the other, and what is left of the line, without the blanks
at its end. In front of the first string or the line there may be blanks. At most `fuel` strings are
read. -/
def value : (fuel : Nat) → (first : Bool) → Reader (List Char)
  | 0, _, _ => none
  | _ + 1, _, [] => some ([], [])
  | fuel + 1, first, c :: cs =>
      if c = '"' ∨ c = '\'' then do
        let (s, rest) ← closedPart (· == c) cs
        let (t, rest) ← value fuel false (← expect c rest)
        some (s ++ t, rest)
      else do
        let (s, rest) ← line (c :: cs)
        some (if first then trim s else Text.trimEnd s, rest)

/-- What has been read: entries in front of all sections, and sections with the latest one first. -/
structure Draft where
  general : List (String × Tree) := []
  sections : List (String × List (String × Tree)) := []

def Draft.define (d : Draft) (name text : List Char) : Draft :=
  let name := String.ofList name
  let t := Tree.string (String.ofList text)
  match d.sections with
  | [] => { d with general := Tree.put name t d.general }
  | (s, es) :: rest => { d with sections := (s, Tree.put name t es) :: rest }

/-- All entries. Of two sections of one name the later one counts. -/
def Draft.entries (d : Draft) : List (String × Tree) :=
  d.sections.reverse.foldl (fun es (name, inner) => Tree.put name (.table inner) es) d.general

/-- Reads sections, entries and comments, at most `fuel` of them. A comment has a line of its own and
begins it. -/
def parts? : (fuel : Nat) → Draft → (fresh : Bool) → List Char → Option Draft
  | 0, _, _, _ => none
  | fuel + 1, d, fresh, cs =>
      match skipBlank fresh cs with
      | (_, []) => some d
      | (fresh, c :: cs) =>
          if c = ';' ∨ c = '#' then
            if fresh then parts? fuel d true (cs.dropWhile (· ≠ '\n')) else none
          else if c = '[' then do
            let (name, cs) ← closedPart (· == ']') cs
            let name := String.ofList (trim name)
            parts? fuel { d with sections := (name, []) :: d.sections } false (← expect ']' cs)
          else do
            let (name, cs) ← closedPart (fun c => c == '=' || c == ':') (c :: cs)
            let name := trim name
            if name.isEmpty then none
            else
              let cs := cs.tail.dropWhile fun c => isBlank c && c ≠ '\n' && c ≠ '\r'
              let (text, cs) ← value (cs.length + 1) true cs
              parts? fuel (d.define name text) false cs

def read? (text : String) : Option (List (String × Tree)) :=
  let cs := text.toList
  (parts? (cs.length + 1) {} true cs).map Draft.entries

end Reentrant.Settings.Ini
