import Reentrant.Settings.Toml.Document

/-!
Settings as a TOML text: a table for every section, entries that are not set left out. A string is in
the quotes that save escapes.
-/

namespace Reentrant.Settings.Toml

/-! ### Strings -/

def longestRun (c : Char) (cs : List Char) : Nat := go 0 cs
where
  go : Nat → List Char → Nat
    | n, [] => n
    | n, x :: xs => if x = c then max (n + 1) (go (n + 1) xs) else max n (go 0 xs)

/-- A control character other than the tab and the end of a line. Only an escape can write it. -/
def isControl (c : Char) : Bool := (c.toNat < 32 || c.toNat = 127) && c ≠ '\t' && c ≠ '\n'

def escape (c : Char) : List Char :=
  if c = '"' then ['\\', '"']
  else if c = '\\' then ['\\', '\\']
  else if c = '\n' then ['\\', 'n']
  else if c = '\t' then ['\\', 't']
  else if c = '\r' then ['\\', 'r']
  else if c.toNat = 8 then ['\\', 'b']
  else if c.toNat = 12 then ['\\', 'f']
  else if isControl c then
    ['\\', 'u', '0', '0', Hex.digit (c.toNat / 16), (Hex.digit (c.toNat % 16)).toUpper]
  else [c]

/-- The inside of a string of many lines: ends of lines stand for themselves, and so do quotes, except
every third of a row. -/
def escapeLines : (quotes : Nat) → List Char → List Char
  | _, [] => []
  | quotes, c :: cs =>
      if c = '"' then
        if quotes = 2 then '\\' :: '"' :: escapeLines 0 cs else '"' :: escapeLines (quotes + 1) cs
      else if c = '\n' then '\n' :: escapeLines 0 cs
      else escape c ++ escapeLines 0 cs

def tripled (q : Char) (inside : List Char) : List Char := [q, q, q] ++ inside ++ [q, q, q]

def quote (cs : List Char) : List Char :=
  let controls := cs.any isControl
  let backslash := cs.contains '\\'
  let breaks := cs.contains '\n'
  let double := longestRun '"' cs
  let single := longestRun '\'' cs
  let opened := if breaks then ['\n'] else []
  if !controls && !backslash && double == 0 && !breaks then '"' :: cs.flatMap escape ++ ['"']
  else if !controls && single == 0 && !breaks then '\'' :: cs ++ ['\'']
  else if !controls && !backslash && double ≤ 2 then tripled '"' (opened ++ escapeLines 0 cs)
  else if !controls && single ≤ 2 then tripled '\'' (opened ++ cs)
  else if breaks then tripled '"' (opened ++ escapeLines 0 cs)
  else '"' :: cs.flatMap escape ++ ['"']

/-! ### Settings -/

def entry (name : String) (value : List Char) : List Char :=
  name.toList ++ " = ".toList ++ value ++ ['\n']

def tableText (name : String) (entries : List Char) : List Char :=
  '[' :: name.toList ++ [']', '\n'] ++ entries

/-- An integer, if 64 bits with a sign can hold it. -/
def integer (n : Nat) : Option (List Char) :=
  if n < Nat.pow 2 63 then some (Decimal.ofNat n) else none

/-- The text of settings. There is none if a number is too large for an integer. -/
def write? (s : Settings) : Option String := do
  let maxFrames ← integer s.limits.maxFrames
  let maxSteps ← match s.limits.maxSteps with
    | none => some []
    | some n => (integer n).map (entry "max_steps")
  let log := tableText "log" (entry "filter" (quote s.filter.toList))
  let vm := tableText "vm" (entry "max_frames" maxFrames ++ maxSteps)
  let bridge := tableText "bridge" (entry "journal" (if s.journal then "true" else "false").toList)
  return String.ofList (log ++ '\n' :: vm ++ '\n' :: bridge)

def settings? (text : String) : Option Settings :=
  (read? text).bind fun es => Tree.settings? (Tree.addAll es [])

end Reentrant.Settings.Toml
