import Reentrant.Settings.Number
import Reentrant.Settings.Yaml.Cursor
import Reentrant.Text.Reader

/-!
Scalars of a YAML text: plain ones, ones in quotes and blocks of lines. Over the end of a line plain
ones and ones in quotes are folded, that is one end of a line becomes a space and any further one is
kept. A plain scalar may stand for something else than a string.
-/

namespace Reentrant.Settings.Yaml

open Text (Reader numbered?)

namespace Cursor

/-! ### Folding -/

/-- What stands between two stretches of text: blanks on a line, or ends of lines. -/
structure Between where
  /-- The blanks, the last one first. -/
  blanks : List Char := []
  /-- Whether a line ended, or was joined to the next one. -/
  broken : Bool := false
  /-- Whether the first end of a line counts. -/
  first : Bool := false
  /-- The ends of lines behind the first one. -/
  breaks : Nat := 0

def Between.text (b : Between) : List Char :=
  if !b.broken then b.blanks
  else if b.first && b.breaks == 0 then [' ']
  else List.replicate b.breaks '\n'

def Between.addBreak (b : Between) : Between :=
  if b.broken then { b with breaks := b.breaks + 1 }
  else { blanks := [], broken := true, first := true }

/-! ### Quotes -/

def escape : Reader Char
  | '0' :: cs => some (Char.ofNat 0, cs)
  | 'a' :: cs => some (Char.ofNat 7, cs)
  | 'b' :: cs => some (Char.ofNat 8, cs)
  | 't' :: cs => some ('\t', cs)
  | '\t' :: cs => some ('\t', cs)
  | 'n' :: cs => some ('\n', cs)
  | 'v' :: cs => some (Char.ofNat 11, cs)
  | 'f' :: cs => some (Char.ofNat 12, cs)
  | 'r' :: cs => some ('\r', cs)
  | 'e' :: cs => some (Char.ofNat 27, cs)
  | ' ' :: cs => some (' ', cs)
  | '"' :: cs => some ('"', cs)
  | '/' :: cs => some ('/', cs)
  | '\\' :: cs => some ('\\', cs)
  | 'N' :: cs => some (Char.ofNat 0x85, cs)
  | '_' :: cs => some (Char.ofNat 0xA0, cs)
  | 'L' :: cs => some (Char.ofNat 0x2028, cs)
  | 'P' :: cs => some (Char.ofNat 0x2029, cs)
  | 'x' :: cs => numbered? 2 cs
  | 'u' :: cs => numbered? 4 cs
  | 'U' :: cs => numbered? 8 cs
  | _ => none

/-- Reads up to a blank, the end of a line or the closing quote, at most `fuel` characters; the text is
held with its last character first. The flag tells whether a backslash joined the line to the next. -/
def quotedWord (quote : Char) : (fuel : Nat) → List Char → Cursor → Option (List Char × Bool × Cursor)
  | 0, out, c => some (out, false, c)
  | fuel + 1, out, c =>
      match c.rest with
      | [] => some (out, false, c)
      | x :: rest =>
          if isBlank x || isBreak x then some (out, false, c)
          else if x = quote then
            if quote = '\'' ∧ rest.head? = some '\'' then
              quotedWord quote fuel ('\'' :: out) (c.pastAll 2)
            else some (out, false, c)
          else if x = '\\' ∧ quote = '"' then
            if (rest.head?.map isBreak).getD false then some (out, true, c.past.pastBreak)
            else
              match escape rest with
              | none => none
              | some (y, behind) =>
                  quotedWord quote fuel (y :: out) (c.pastAll (c.rest.length - behind.length))
          else quotedWord quote fuel (x :: out) c.past

/-- Moves past blanks and ends of lines between words in quotes, at most `fuel` of them. An indentation
has no tabs. -/
def quotedGap : (fuel : Nat) → Between → Cursor → Option (Between × Cursor)
  | 0, b, c => some (b, c)
  | fuel + 1, b, c =>
      match c.rest with
      | [] => some (b, c)
      | x :: _ =>
          if isBlank x then
            if b.broken then
              if x == '\t' && c.outdented then none else quotedGap fuel b c.forward
            else quotedGap fuel { b with blanks := x :: b.blanks } c.forward
          else if isBreak x then quotedGap fuel b.addBreak c.pastBreak
          else some (b, c)

/-- Reads a string up to its closing quote, at most `fuel` words; the text is held with its last
character first. -/
def quotedWords (quote : Char) : (fuel : Nat) → List Char → Cursor → Option (List Char × Cursor)
  | 0, _, _ => none
  | fuel + 1, out, c =>
      if c.atDocumentStart || c.atDocumentEnd || c.rest.isEmpty || c.outdented then none
      else
        match quotedWord quote (c.rest.length + 1) out c with
        | none => none
        | some (out, joined, c) =>
            if c.next? = some quote then some (out, c.past)
            else
              match quotedGap (c.rest.length + 1) { broken := joined } c with
              | none => none
              | some (b, c) => quotedWords quote fuel (b.text ++ out) c

/-- Whether a string in quotes that began on a line may end here: at the end of the line, as a key, or
in a flow collection. -/
def mayFollow (line : Nat) (c : Cursor) : Bool :=
  match c.rest with
  | [] => true
  | x :: _ =>
      isBreak x || (c.inFlow && (x == ',' || x == ']' || x == '\x7d')) ||
        (x == ':' && (c.inFlow || line == c.line))

def quoted (quote : Char) (start : Cursor) : Option (String × Cursor) := do
  let (out, c) ← quotedWords quote (start.rest.length + 1) [] start.past
  let (c, _) ← c.skipGap true
  if mayFollow start.line c then some (String.ofList out.reverse, c) else none

/-! ### Plain scalars -/

def isPlainNext (c : Cursor) : Bool :=
  match c.rest with
  | [] => false
  | ':' :: rest => !(atGap rest || (c.inFlow && (rest.head?.map isFlow).getD false))
  | x :: _ => !(c.inFlow && isFlow x)

/-- Reads up to a blank, the end of a line or what ends a plain scalar, at most `fuel` characters. -/
def plainWord : (fuel : Nat) → List Char → Cursor → List Char × Cursor
  | 0, out, c => (out, c)
  | fuel + 1, out, c =>
      match c.rest with
      | [] => (out, c)
      | x :: _ =>
          if isBlank x || isBreak x || !c.isPlainNext then (out, c)
          else plainWord fuel (x :: out) c.past

/-- Moves past blanks and ends of lines between the words of a plain scalar, at most `fuel` of them.
Left of `indent` there are no tabs, unless nothing else is on the line. -/
def plainGap (indent : Int) : (fuel : Nat) → Between → Cursor → Option (Between × Cursor)
  | 0, b, c => some (b, c)
  | fuel + 1, b, c =>
      match c.rest with
      | [] => some (b, c)
      | x :: _ =>
          if isBlank x then
            if !b.broken then plainGap indent fuel { b with blanks := x :: b.blanks } c.forward
            else if x == '\t' && c.column < indent then
              match c.skipGap true with
              | some (c, _) => if atLineEnd c.rest then plainGap indent fuel b c else none
              | none => none
            else plainGap indent fuel b c.forward
          else if isBreak x then plainGap indent fuel b.addBreak c.pastBreak
          else some (b, c)

def plainWords (indent : Int) : (fuel : Nat) → List Char → Between → Cursor →
    Option (List Char × Cursor)
  | 0, _, _, _ => none
  | fuel + 1, out, b, c =>
      if c.atDocumentStart || c.atDocumentEnd || c.next? = some '#' then some (out, c)
      else if c.inFlow && c.next? = some '-' && (c.rest[1]?.map isFlow).getD false then none
      else
        let (out, c) :=
          if !atGap c.rest && c.isPlainNext then plainWord c.rest.length (b.text ++ out) c
          else (out, c)
        if atGap c.rest && !c.rest.isEmpty then
          match plainGap indent (c.rest.length + 1) {} c with
          | none => none
          | some (b, c) =>
              if !c.inFlow && c.column < indent then some (out, c)
              else plainWords indent fuel out b c
        else some (out, c)

/-- Reads a plain scalar. If it ends behind its line, a key may follow. -/
def plain (c : Cursor) : Option (String × Cursor) := do
  let c := c.withoutAllLoose c.indents.length
  let indent := c.indent + 1
  if c.inFlow && c.column < indent then none
  else
    let (out, c) ← plainWords indent (c.rest.length + 1) [] {} c
    if out.isEmpty then none
    else some (String.ofList out.reverse, if c.leading then c.allowKey else c)

/-! ### Blocks of lines -/

inductive Chomping where
  | clip
  | strip
  | keep
  deriving DecidableEq

/-- The indicators of a block: what is done at its end, and its indentation if that is given. -/
def blockHeader : Reader (Chomping × Option Nat) := fun cs =>
  match chomping? cs with
  | some (h, cs) => (width? cs).map fun (w, rest) => ((h, w), rest)
  | none =>
      (width? cs).map fun (w, rest) =>
        match w, chomping? rest with
        | some w, some (h, rest) => ((h, some w), rest)
        | w, _ => ((.clip, w), rest)
where
  chomping? : Reader Chomping
    | '+' :: cs => some (.keep, cs)
    | '-' :: cs => some (.strip, cs)
    | _ => none
  width? : Reader (Option Nat)
    | '0' :: _ => none
    | x :: cs => some (if x.isDigit then (some (Decimal.digitValue x), cs) else (none, x :: cs))
    | [] => some (none, [])

/-- Moves past spaces, up to a column if there is one. -/
def skipSpaces (limit : Option Nat) (c : Cursor) : Cursor :=
  let n := (c.rest.takeWhile (· == ' ')).length
  let n := match limit with
    | some l => min n (l - c.column)
    | none => n
  { c with rest := c.rest.drop n, index := c.index + n, column := c.column + n }

/-- Moves to the first line that is not blank: the greatest column that was reached, and how many lines
ended, at most `fuel` of them. -/
def firstLine : (fuel : Nat) → (column breaks : Nat) → Cursor → Nat × Nat × Cursor
  | 0, column, breaks, c => (column, breaks, c)
  | fuel + 1, column, breaks, c =>
      let c := c.skipSpaces none
      let column := max column c.column
      if (c.next?.map isBreak).getD false then firstLine fuel column (breaks + 1) c.pastBreak
      else (column, breaks, c)

/-- Moves to the indentation of the next line that is not blank: how many lines ended, at most `fuel`
of them. -/
def nextLine (indent : Nat) : (fuel : Nat) → (breaks : Nat) → Cursor → Nat × Cursor
  | 0, breaks, c => (breaks, c)
  | fuel + 1, breaks, c =>
      let c := c.skipSpaces (some indent)
      if (c.next?.map isBreak).getD false then nextLine indent fuel (breaks + 1) c.pastBreak
      else (breaks, c)

structure Lines where
  /-- The text, with its last character first. -/
  out : List Char := []
  /-- Whether the last line ended. -/
  ended : Bool := false
  /-- How many blank lines followed. -/
  breaks : Nat
  /-- Whether the last line begins with a blank. -/
  blank : Bool := false

/-- Ends of lines in front of a line are folded if neither it nor the one before begins with a blank. -/
def Lines.join (ls : Lines) (folded blank : Bool) : List Char :=
  if folded && ls.ended && !ls.blank && !blank then
    (if ls.breaks = 0 then [' '] else List.replicate ls.breaks '\n') ++ ls.out
  else List.replicate (ls.breaks + ls.ended.toNat) '\n' ++ ls.out

def blockLines (folded : Bool) (indent : Nat) : (fuel : Nat) → Lines → Cursor → Lines × Cursor
  | 0, ls, c => (ls, c)
  | fuel + 1, ls, c =>
      if c.column ≠ indent ∨ c.rest.isEmpty ∨ (indent = 0 ∧ c.atDocumentEnd) then (ls, c)
      else
        let blank := (c.next?.map isBlank).getD false
        let line := c.rest.takeWhile fun x => !isBreak x
        let out := line.reverse ++ ls.join folded blank
        let c := c.toLineEnd
        if c.rest.isEmpty then ({ out, breaks := 0, blank }, c)
        else
          let (breaks, c) := nextLine indent (c.rest.length + 1) 0 c.pastBreak
          blockLines folded indent fuel { out, ended := true, breaks, blank } c

def Lines.text (ls : Lines) (h : Chomping) (indent : Nat) (c : Cursor) : List Char :=
  let atEnd := c.rest.isEmpty && max indent 1 ≤ c.column
  let out := if h = .strip then ls.out else List.replicate (ls.ended.toNat + atEnd.toNat) '\n' ++ ls.out
  (if h = .keep then List.replicate ls.breaks '\n' ++ out else out).reverse

/-- Reads a block of lines behind its first indicator. The lines of a block that has none but blank ones
count only if they are kept. -/
def block (folded : Bool) (start : Cursor) : Option (String × Cursor) := do
  let start := start.withoutAllLoose start.indents.length
  let ((h, width), rest) ← blockHeader start.rest
  let (c, _) ← (start.pastAll (start.rest.length - rest.length)).skipGap true
  if !atLineEnd c.rest then none
  else
    let broken := !c.rest.isEmpty
    let c := c.pastBreak
    if c.next? = some '\t' then none
    else
      let fuel := c.rest.length + 1
      let (indent, breaks, c) := match width with
        | some w =>
            let indent := (if 0 ≤ c.indent then c.indent.toNat else 0) + w
            let (breaks, c) := nextLine indent fuel 0 c
            (indent, breaks, c)
        | none =>
            let (column, breaks, c) := firstLine fuel 0 0 c
            let indent := max column (c.indent + 1).toNat
            (if 0 < c.indent then max indent 1 else indent, breaks, c)
      if c.rest.isEmpty then
        let n := match h with
          | .strip => 0
          | .clip => broken.toNat
          | .keep => if breaks = 0 then broken.toNat else breaks
        some (String.ofList (List.replicate n '\n'), c)
      else if c.column < indent ∧ c.indent < c.column then none
      else
        let (ls, c) := blockLines folded indent (c.rest.length + 1) { breaks } c
        some (String.ofList (ls.text h indent c), c)

end Cursor

/-! ### What plain scalars stand for -/

namespace Plain

/-- Words for infinite doubles and for no number. They cannot be settings. -/
def special : List String :=
  [".inf", ".Inf", ".INF", "+.inf", "+.Inf", "+.INF", "-.inf", "-.Inf", "-.INF", ".nan", ".NaN", ".NAN"]

def based? (base : Nat) (cs : List Char) : Option Int :=
  let z? := match cs with
    | '-' :: ds => (Number.natural? base ds).map fun n => -(n : Int)
    | '+' :: ds => (Number.natural? base ds).map Int.ofNat
    | ds => (Number.natural? base ds).map Int.ofNat
  z?.filter Number.fits

/-- An integer: decimal, or hexadecimal or octal behind a mark. A plus sign may stand in front of
another sign. -/
def integer? (cs : List Char) : Option Int :=
  let marked := match cs with
    | '0' :: 'x' :: ds => based? 16 ds
    | '0' :: 'o' :: ds => based? 8 ds
    | '+' :: ds => Number.integer? ds
    | _ => none
  marked.or (Number.integer? cs)

def double? (cs : List Char) : Option Binary64 :=
  if cs.any Char.isDigit then Number.double? cs else none

/-- What a plain scalar stands for, if it can be a setting. -/
def tree? (s : String) : Option Tree :=
  if s = "~" ∨ s = "null" then some .null
  else if s = "true" then some (.bool true)
  else if s = "false" then some (.bool false)
  else if s ∈ special then none
  else
    match integer? s.toList with
    | some z => some (.int z)
    | none =>
        match double? s.toList with
        | some x => some (.float x)
        | none => some (.string s)

/-- The prefix of the tags that have a meaning. -/
def coreTags : String := "tag:yaml.org,2002:"

/-- What a plain scalar with a tag stands for: a text that does not fit the tag for nothing. -/
def tagged? (handle suffix s : String) : Option Tree :=
  if handle ≠ coreTags then some (.string s)
  else if suffix = "bool" then
    some (if s = "true" then .bool true else if s = "false" then .bool false else .null)
  else if suffix = "int" then some ((Number.integer? s.toList).elim .null .int)
  else if suffix = "float" then
    if s ∈ special then none else some ((double? s.toList).elim .null .float)
  else if suffix = "null" then some .null
  else some (.string s)

end Plain

end Reentrant.Settings.Yaml
