import Reentrant.Assembly.Peg
import Reentrant.Assembly.Span
import Reentrant.Text.Decimal

/-!
The report of a text that does not fit the grammar: the place, its line, a mark under it, and the
rules that were tried there.
-/

namespace Reentrant.Assembly

/-- A failed parse. The place is counted from one, with a carriage return and a line feed together as
one line break. -/
structure SyntaxError where
  line : Nat
  column : Nat
  /-- The line of the place, its line break included. -/
  text : List Char
  /-- Whether the place is at a line break. -/
  atBreak : Bool
  expected : List Rule
  unexpected : List Rule

namespace SyntaxError

def position (line col : Nat) : List Char → Nat × Nat
  | [] => (line, col)
  | '\r' :: '\n' :: cs => position (line + 1) 1 cs
  | '\n' :: cs => position (line + 1) 1 cs
  | _ :: cs => position line (col + 1) cs

def firstLine : List Char → List Char
  | [] => []
  | c :: cs => if c = '\n' then [c] else c :: firstLine cs

def lastLine (cs : List Char) : List Char := (cs.reverse.takeWhile (· != '\n')).reverse

/-- The failure that the attempts at the furthest place amount to. -/
def ofAttempts (source : List Char) (t : Attempts) : SyntaxError :=
  let before := (Cursor.mk source 0).textTo t.place
  let after := source.drop before.length
  let (line, column) := position 1 1 before
  { line, column
    text := lastLine before ++ firstLine after
    atBreak := after.head?.any Cursor.isLineBreak
    expected := Rule.all.filter t.expected.contains
    unexpected := Rule.all.filter t.unexpected.contains }

/-- The line as it is shown: line breaks are made visible at a place that is one, and are left out
otherwise. -/
def shownLine (e : SyntaxError) : List Char :=
  if e.atBreak then
    e.text.map fun c => if c = '\r' then '␍' else if c = '\n' then '␊' else c
  else e.text.filter (!Cursor.isLineBreak ·)

def enumerate : List Rule → String
  | [] => ""
  | [a] => a.name
  | [a, b] => a.name ++ " or " ++ b.name
  | rules => ", ".intercalate (rules.dropLast.map Rule.name) ++ ", or " ++
      (rules.getLast?.map Rule.name).getD ""

/-- What was there and what was looked for. -/
def expectation (e : SyntaxError) : String :=
  match e.unexpected, e.expected with
  | [], es => "expected " ++ enumerate es
  | us, [] => "unexpected " ++ enumerate us
  | us, es => "unexpected " ++ enumerate us ++ "; expected " ++ enumerate es

/-- The mark's indentation, with tabs where the line has tabs. -/
def padding (e : SyntaxError) : List Char :=
  (e.shownLine.take (e.column - 1)).map fun c => if c = '\t' then '\t' else ' '

def message (e : SyntaxError) : String :=
  let number := Decimal.text e.line
  let margin := String.ofList (List.replicate number.length ' ')
  "\n".intercalate
    [margin ++ "--> " ++ number ++ ":" ++ Decimal.text e.column,
     margin ++ " |",
     number ++ " | " ++ String.ofList e.shownLine,
     margin ++ " | " ++ String.ofList e.padding ++ "^---",
     margin ++ " |",
     margin ++ " = " ++ e.expectation]

/-- The place as a span; byte offsets are not given. -/
def span (e : SyntaxError) : Span :=
  { startLine := e.line - 1, startCol := e.column - 1, stopLine := e.line - 1, stopCol := e.column }

end SyntaxError

end Reentrant.Assembly
