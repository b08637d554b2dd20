import Reentrant.Assembly.Grammar
import Reentrant.Assembly.Report
import Reentrant.Program

/-!
Listings: what a program text says, with names and literals not yet resolved. Reading a text gives
its listing or the report of why it has none.
-/

namespace Reentrant.Assembly

/-- An operand as it is written. -/
inductive Operand where
  /-- A byte literal's digits, without the `0x`. -/
  | bytes (digits : List Char)
  | int (text : List Char)
  /-- What stands between the quotes. -/
  | string (raw : List Char)
  | ident (name : List Char)
  deriving DecidableEq

inductive Line where
  | label (name : List Char) (span : Span)
  | instr (mnemonic : List Char) (operand : Option Operand) (span : Span)
  deriving DecidableEq

/-- A procedure as it is written. -/
structure Listing where
  name : List Char
  lines : List Line
  span : Span
  deriving DecidableEq

namespace Operand

def ofNode (n : Node) : Operand :=
  match n.rule with
  | .bytes => .bytes (n.text.drop 2)
  | .int => .int n.text
  | .string => .string ((n.children.head?.map Node.text).getD [])
  | _ => .ident n.text

end Operand

namespace Line

def headText (n : Node) : List Char := (n.children.head?.map Node.text).getD []

/-- The line that a match stands for, if it is one. -/
def ofNode? (source : List Char) (n : Node) : Option Line :=
  let span := Span.between source n.start n.stop
  match n.rule with
  | .label => some (.label (headText n) span)
  | .instr => some (.instr (headText n) ((n.children[1]?).map Operand.ofNode) span)
  | _ => none

end Line

namespace Listing

/-- The procedure that a match stands for, if it is one. -/
def ofNode? (source : List Char) (n : Node) : Option Listing :=
  match n.rule with
  | .proc => some
      { name := Line.headText n
        lines := n.children.filterMap (Line.ofNode? source)
        span := Span.between source n.start n.stop }
  | _ => none

def read (source : List Char) : Except SyntaxError (List Listing) :=
  match Grammar.file.run {} ⟨source, 0⟩ {} with
  | (none, t) => .error (.ofAttempts source t)
  | (some (_, ns), _) => .ok ((ns.flatMap Node.children).filterMap (ofNode? source))

end Listing

end Reentrant.Assembly
