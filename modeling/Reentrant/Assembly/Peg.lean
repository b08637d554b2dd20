/-!
Parsing expressions. An expression is matched from a place in the text and either fails or consumes a
part of it; choices are ordered and what has matched is not tried again. Between the parts of a
sequence, blanks and comments are skipped unless a rule is atomic.

Beside the match, a trace is kept of the rules that were tried and failed at the furthest place
reached (`Attempts`): it is what the report of a failed parse names.
-/

namespace Reentrant.Assembly

/-- The rules that a match or a report names. -/
inductive Rule where
  | endOfInput | file | proc | label | instr | mnemonic | bytes | int | string | inner | ident | kwEnd
  deriving DecidableEq

namespace Rule

/-- The rules in the order in which a report lists them. -/
def all : List Rule :=
  [.endOfInput, .file, .proc, .label, .instr, .mnemonic, .bytes, .int, .string, .inner, .ident,
    .kwEnd]

def name : Rule → String
  | .endOfInput => "EOI"
  | .file => "file"
  | .proc => "proc"
  | .label => "label"
  | .instr => "instr"
  | .mnemonic => "mnemonic"
  | .bytes => "bytes"
  | .int => "int"
  | .string => "string"
  | .inner => "inner"
  | .ident => "ident"
  | .kwEnd => "kw_end"

end Rule

/-! ### Places in a text -/

/-- What is left of a text, and how many bytes were before it. -/
structure Cursor where
  rest : List Char
  offset : Nat := 0

namespace Cursor

/-- Moves past the leading characters of a kind. -/
def skipWhile (p : Char → Bool) (c : Cursor) : Cursor := go c.rest c.offset
where
  go : List Char → Nat → Cursor
    | [], n => ⟨[], n⟩
    | x :: xs, n => if p x then go xs (n + x.utf8Size) else ⟨x :: xs, n⟩

def isBlank (x : Char) : Bool := x == ' ' || x == '\t'

def isLineBreak (x : Char) : Bool := x == '\n' || x == '\r'

/-- Moves past blanks and a comment, which runs from a semicolon to the end of the line. -/
def skip (c : Cursor) : Cursor :=
  let c := c.skipWhile isBlank
  match c.rest with
  | ';' :: _ => c.skipWhile fun x => !isLineBreak x
  | _ => c

/-- Moves past one given text. -/
def expect : List Char → Cursor → Option Cursor
  | [], c => some c
  | x :: xs, c =>
      match c.rest with
      | y :: ys => if x = y then expect xs ⟨ys, c.offset + y.utf8Size⟩ else none
      | [] => none

/-- The characters between a place and a later byte offset. -/
def textTo (c : Cursor) (stop : Nat) : List Char := go c.rest c.offset
where
  go : List Char → Nat → List Char
    | [], _ => []
    | x :: xs, n => if n < stop then x :: go xs (n + x.utf8Size) else []

end Cursor

/-! ### Expressions -/

/-- Whether a rule skips blanks inside, and whether rules inside it are tracked and kept. -/
inductive Grain where
  /-- As the surrounding rule. -/
  | inherit
  /-- No skipping, but the rules inside still count. -/
  | compound
  /-- No skipping, and the rules inside do not count. -/
  | atomic
  deriving DecidableEq

inductive Expr where
  /-- One character of a kind. -/
  | char (p : Char → Bool)
  | text (s : List Char)
  | endOfInput
  | seq (a b : Expr)
  | alt (a b : Expr)
  | opt (a : Expr)
  | many (a : Expr)
  /-- Matches nothing, where `a` does not match. -/
  | absent (a : Expr)
  | rule (r : Rule) (grain : Grain) (body : Expr)

/-- One or more. -/
def Expr.oneOrMore (a : Expr) : Expr := .seq a (.many a)

/-- A rule's match: where it starts and ends, and the matches inside it. -/
inductive Node where
  | node (rule : Rule) (start : Cursor) (stop : Nat) (children : List Node)

namespace Node

def rule : Node → Rule
  | .node r _ _ _ => r

def start : Node → Nat
  | .node _ c _ _ => c.offset

def stop : Node → Nat
  | .node _ _ n _ => n

def children : Node → List Node
  | .node _ _ _ ns => ns

def text : Node → List Char
  | .node _ c n _ => c.textTo n

end Node

/-! ### Attempts -/

/-- The rules that failed at the furthest place, oldest first: those that were expected there and
those that were there and must not have been. -/
structure Attempts where
  place : Nat := 0
  expected : List Rule := []
  unexpected : List Rule := []

/-- In what surroundings an expression is matched. -/
structure Mood where
  skips : Bool := true
  /-- Inside an atomic rule. -/
  quiet : Bool := false
  /-- Under an odd number of `absent`. -/
  negated : Bool := false

def Mood.enter (m : Mood) : Grain → Mood
  | .inherit => m
  | .compound => { m with skips := false, quiet := false }
  | .atomic => { m with skips := false, quiet := true }

namespace Attempts

/-- How many attempts of each kind there are at a place. -/
def countsAt (t : Attempts) (place : Nat) : Nat × Nat :=
  if place = t.place then (t.expected.length, t.unexpected.length) else (0, 0)

/-- Enters the failure of a rule that began at `place`, when there were `before` attempts. If exactly
one rule inside it was entered since, that one says more and stays alone; otherwise the rule stands
for what was entered inside it. -/
def track (t : Attempts) (mood : Mood) (r : Rule) (place : Nat) (before : Nat × Nat) : Attempts :=
  let now := t.countsAt place
  if mood.quiet || now.1 + now.2 == before.1 + before.2 + 1 then t
  else
    let t : Attempts :=
      if t.place < place then { place }
      else if place = t.place then
        { t with expected := t.expected.take before.1, unexpected := t.unexpected.take before.2 }
      else t
    if place < t.place then t
    else if mood.negated then { t with unexpected := t.unexpected ++ [r] }
    else { t with expected := t.expected ++ [r] }

end Attempts

/-! ### Matching -/

/-- What a match gives: the place behind it and the rules matched inside, or failure; and the
attempts so far. -/
abbrev Matched := Option (Cursor × List Node) × Attempts

/-- Matches as often as it goes, at most `fuel` times. A step that always moves on needs one more than
there are characters left: the last step is the one that fails. -/
def repeatedly (step : Cursor → Attempts → Matched) :
    (fuel : Nat) → Cursor → Attempts → (Cursor × List Node) × Attempts
  | 0, c, t => ((c, []), t)
  | fuel + 1, c, t =>
      match step c t with
      | (none, t) => ((c, []), t)
      | (some (c, ns), t) =>
          let ((c, ms), t) := repeatedly step fuel c t
          ((c, ns ++ ms), t)

namespace Expr

/-- Matches an expression from a place. -/
def run : Expr → Mood → Cursor → Attempts → Matched
  | .char p, _, c, t =>
      match c.rest with
      | x :: xs => (if p x then some (⟨xs, c.offset + x.utf8Size⟩, []) else none, t)
      | [] => (none, t)
  | .text s, _, c, t => ((c.expect s).map (·, []), t)
  | .endOfInput, _, c, t => (if c.rest.isEmpty then some (c, []) else none, t)
  | .seq a b, m, c, t =>
      match a.run m c t with
      | (none, t) => (none, t)
      | (some (c, ns), t) =>
          match b.run m (if m.skips then c.skip else c) t with
          | (none, t) => (none, t)
          | (some (c, ms), t) => (some (c, ns ++ ms), t)
  | .alt a b, m, c, t =>
      match a.run m c t with
      | (none, t) => b.run m c t
      | r => r
  | .opt a, m, c, t =>
      match a.run m c t with
      | (none, t) => (some (c, []), t)
      | r => r
  | .many a, m, c, t =>
      match a.run m c t with
      | (none, t) => (some (c, []), t)
      | (some (c, ns), t) =>
          let again := fun (c : Cursor) t => a.run m (if m.skips then c.skip else c) t
          let ((c, ms), t) := repeatedly again (c.rest.length + 1) c t
          (some (c, ns ++ ms), t)
  | .absent a, m, c, t =>
      match a.run { m with negated := !m.negated } c t with
      | (none, t) => (some (c, []), t)
      | (some _, t) => (none, t)
  | .rule r grain body, m, c, t =>
      let before := t.countsAt c.offset
      match body.run (m.enter grain) c t with
      | (none, t) => (none, if m.negated then t else t.track m r c.offset before)
      | (some (d, ns), t) =>
          (some (d, if m.quiet || m.negated then [] else [.node r c d.offset ns]),
            if m.negated then t.track m r c.offset before else t)

end Expr

end Reentrant.Assembly
