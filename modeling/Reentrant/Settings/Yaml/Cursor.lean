/-!
Places in a YAML text. A cursor holds what is left of the text, where on its line it stands, and what
the text so far means for what follows: the open blocks and flow collections, and whether what comes
next may turn out to be the key of a mapping. The tokens that were found are with it, since a key is
known as such only at the colon behind it.
-/

namespace Reentrant.Settings.Yaml

inductive Token where
  | documentStart
  | documentEnd
  | version
  /-- What a short form of tags stands for. -/
  | tagDirective (handle meaning : String)
  | blockSequence
  | blockMapping
  | blockEnd
  | flowSequence
  | flowSequenceEnd
  | flowMapping
  | flowMappingEnd
  /-- A dash. -/
  | item
  /-- A comma. -/
  | entry
  | key
  | value
  | alias (name : String)
  | anchor (name : String)
  | tag (handle suffix : String)
  | scalar (plain : Bool) (text : String)
  deriving DecidableEq, Inhabited

/-! ### Characters -/

def isBlank (c : Char) : Bool := c == ' ' || c == '\t'

def isBreak (c : Char) : Bool := c == '\n' || c == '\r'

/-- The indicators of flow collections. -/
def isFlow (c : Char) : Bool :=
  c == ',' || c == '[' || c == ']' || c == '\x7b' || c == '\x7d'

/-- Letters, digits, the underscore and the dash. -/
def isWord (c : Char) : Bool := c.isAlphanum || c == '_' || c == '-'

/-- Whether a line ends here, or the text. -/
def atLineEnd : List Char → Bool
  | [] => true
  | c :: _ => isBreak c

/-- Whether a blank or an end is next. -/
def atGap : List Char → Bool
  | [] => true
  | c :: _ => isBlank c || isBreak c

/-! ### Cursors -/

/-- An indentation below the present one: its column, and whether a block ends when it is reached
again. -/
structure Indent where
  column : Int
  block : Bool

/-- Something that may be the key of a mapping: the number of its first token, and where it begins.
`required` if at its place there has to be a key. -/
structure PossibleKey where
  token : Nat
  index : Nat
  line : Nat
  column : Nat
  required : Bool

inductive FlowKind where
  | sequence
  | mapping
  deriving DecidableEq

structure Cursor where
  rest : List Char
  index : Nat := 0
  line : Nat := 0
  column : Nat := 0
  /-- Whether there are only blanks in front on the line. -/
  leading : Bool := true
  tokens : Array Token := #[]
  /-- The column of the last token. -/
  tokenColumn : Nat := 0
  indent : Int := -1
  /-- The indentations below the present one, the latest first. -/
  indents : List Indent := []
  /-- The open flow collections, the latest first. -/
  flow : List FlowKind := []
  /-- What may be a key, outside the flow collections and in each of them, the latest first. -/
  keys : List (Option PossibleKey) := [none]
  /-- Whether a key may begin here. -/
  keyAllowed : Bool := true
  /-- Where a colon may stand right behind a key. -/
  adjacent : Option Nat := none

namespace Cursor

variable (c : Cursor)

def next? : Option Char := c.rest.head?

def inFlow : Bool := !c.flow.isEmpty

/-- Whether the cursor stands left of the present indentation. -/
def outdented : Bool := c.column < c.indent

def forward : Cursor :=
  { c with rest := c.rest.tail, index := c.index + 1, column := c.column + 1 }

/-- Moves past a character that is not blank. -/
def past : Cursor := { c.forward with leading := false }

def pastAll (n : Nat) : Cursor :=
  { c with
    rest := c.rest.drop n, index := c.index + n, column := c.column + n
    leading := if n = 0 then c.leading else false }

def pastBreak : Cursor :=
  match c.rest with
  | '\r' :: '\n' :: rest =>
      { c with rest, index := c.index + 2, line := c.line + 1, column := 0, leading := true }
  | _ :: rest => { c with rest, index := c.index + 1, line := c.line + 1, column := 0, leading := true }
  | [] => c

def toLineEnd : Cursor := c.pastAll (c.rest.takeWhile fun x => !isBreak x).length

def push (t : Token) (column : Nat) : Cursor :=
  { c with tokens := c.tokens.push t, tokenColumn := column }

/-- Puts a token in front of one that was found earlier. -/
def insert (place : Nat) (t : Token) : Cursor := { c with tokens := c.tokens.insertIdxIfInBounds place t }

/-! ### Gaps -/

/-- Which blanks were found. -/
structure Gap where
  tab : Bool := false
  space : Bool := false

/-- Moves past blanks and a comment, at most `fuel` of them. A comment has a blank in front of it. -/
def gap (tabs : Bool) : (fuel : Nat) → Gap → Cursor → Option (Cursor × Gap)
  | 0, g, c => some (c, g)
  | fuel + 1, g, c =>
      match c.rest with
      | ' ' :: _ => gap tabs fuel { g with space := true } c.forward
      | '\t' :: _ => if tabs then gap tabs fuel { g with tab := true } c.forward else some (c, g)
      | '#' :: _ => if g.tab || g.space then some (c.toLineEnd, g) else none
      | _ => some (c, g)

def skipGap (tabs : Bool) : Option (Cursor × Gap) := gap tabs (c.rest.length + 1) {} c

/-- Moves to the next token, past blanks, comments and ends of lines, at most `fuel` of them. Where a
block is indented, its indentation has no tabs, unless nothing else is on the line. -/
def toToken : (fuel : Nat) → Cursor → Option Cursor
  | 0, c => some c
  | fuel + 1, c =>
      match c.rest with
      | ' ' :: _ => toToken fuel c.forward
      | '\t' :: _ =>
          if !c.indents.isEmpty && c.leading && c.outdented then
            match c.skipGap true with
            | some (c, _) => if atLineEnd c.rest then toToken fuel c else none
            | none => none
          else toToken fuel c.forward
      | '#' :: _ => toToken fuel c.toLineEnd
      | x :: _ =>
          if isBreak x then
            let c := c.pastBreak
            toToken fuel { c with keyAllowed := c.keyAllowed || !c.inFlow }
          else some c
      | [] => some c

def skipToToken : Option Cursor := toToken (c.rest.length + 1) c

/-! ### Indentation -/

/-- Ends the blocks that are indented deeper than a column. -/
def unrollIndents (column : Int) : List Indent → Cursor → Cursor
  | [], c => c
  | i :: is, c =>
      if column < c.indent then
        let c := { c with indent := i.column, indents := is }
        unrollIndents column is (if i.block then c.push .blockEnd c.column else c)
      else c

def unroll (column : Int) : Cursor := if c.inFlow then c else unrollIndents column c.indents c

/-- Takes back the latest indentation if no block belongs to it. -/
def withoutLoose : Cursor :=
  match c.indents with
  | i :: is => if i.block then c else { c with indent := i.column, indents := is }
  | [] => c

/-- Takes back all latest indentations that no block belongs to. -/
def withoutAllLoose : (fuel : Nat) → Cursor → Cursor
  | 0, c => c
  | fuel + 1, c =>
      match c.indents with
      | i :: _ => if i.block then c else withoutAllLoose fuel c.withoutLoose
      | [] => c

/-- Begins a block at a column, if it is right of the present one. Its token is put in front of a token
that was found earlier, or behind all. -/
def roll (column : Nat) (place : Option Nat) (t : Token) : Cursor :=
  if c.inFlow then c
  else
    let c := if c.indent ≤ column then c.withoutLoose else c
    if c.indent < column then
      let c := { c with indent := column, indents := ⟨c.indent, true⟩ :: c.indents }
      match place with
      | some n => c.insert n t
      | none => c.push t column
    else c

/-- Asks for one more column than the block has. -/
def rollLoose : Cursor :=
  match c.indents with
  | i :: _ =>
      if !c.inFlow && i.block then
        { c with indent := c.indent + 1, indents := ⟨c.indent, false⟩ :: c.indents }
      else c
  | [] => c

/-! ### Keys -/

/-- Notes that the next token may begin a key. -/
def saveKey : Cursor :=
  if c.keyAllowed then
    let required := !c.inFlow && c.indent == c.column &&
      (c.indents.head?.map Indent.block).getD false
    { c with
      keys := some ⟨c.tokens.size, c.index, c.line, c.column, required⟩ :: c.keys.tail }
  else c

/-- What began last is no key. -/
def dropKey : Option Cursor :=
  match c.keys with
  | some k :: ks => if k.required then none else some { c with keys := none :: ks }
  | _ => some c

/-- A key outside flow collections is on one line and not too long. -/
def staleKeys : Option Cursor :=
  if c.inFlow then some c
  else
    let isStale : Option PossibleKey → Bool
      | some k => k.line < c.line || k.index + 1024 < c.index
      | none => false
    if c.keys.any fun k => isStale k && (k.map PossibleKey.required).getD false then none
    else some { c with keys := c.keys.map fun k => if isStale k then none else k }

def allowKey : Cursor := { c with keyAllowed := true }

def forbidKey : Cursor := { c with keyAllowed := false }

/-! ### Documents -/

/-- Whether three characters of a kind with a gap behind them are next, at the beginning of a line. -/
def atMarker (x : Char) : Bool :=
  c.column == 0 &&
    match c.rest with
    | a :: b :: d :: rest => a == x && b == x && d == x && atGap rest
    | _ => false

def atDocumentStart : Bool := c.atMarker '-'

def atDocumentEnd : Bool := c.atMarker '.'

end Cursor

end Reentrant.Settings.Yaml
