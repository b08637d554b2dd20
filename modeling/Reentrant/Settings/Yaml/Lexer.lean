import Reentrant.Settings.Yaml.Scalar

/-!
The tokens of a YAML text. Blocks are begun and ended by indentation; that something is a key shows at
the colon behind it, and then the token for that is put in front of it.
-/

namespace Reentrant.Settings.Yaml

namespace Cursor

/-! ### Indicators -/

/-- Begins a flow collection. It may be a key itself. -/
def openFlow (kind : FlowKind) (c : Cursor) : Option Cursor := do
  let c := c.saveKey.rollLoose
  let column := c.column
  let c := { c with flow := kind :: c.flow, keys := none :: c.keys }
  let (c, _) ← c.allowKey.past.skipGap true
  some (c.push (if kind = .sequence then .flowSequence else .flowMapping) column)

/-- Ends a flow collection. Inside another one a colon may stand right behind it. -/
def closeFlow (kind : FlowKind) (c : Cursor) : Option Cursor := do
  let c ← c.dropKey
  let c := if c.inFlow then { c with flow := c.flow.tail, keys := c.keys.tail } else c
  let column := c.column
  let (c, _) ← c.forbidKey.past.skipGap true
  let c := if c.inFlow then { c with adjacent := some c.index } else c
  some (c.push (if kind = .sequence then .flowSequenceEnd else .flowMappingEnd) column)

def comma (c : Cursor) : Option Cursor := do
  let c ← c.dropKey
  let column := c.column
  let (c, _) ← c.allowKey.past.skipGap true
  some (c.push .entry column)

/-- Moves past the dash of an item. Between two dashes there are no tabs. -/
def dash (c : Cursor) : Option Cursor := do
  let marked := match c.tokens.back? with
    | some (.anchor _) => true
    | some (.tag _ _) => true
    | _ => false
  if c.inFlow || !c.keyAllowed then none
  else if marked && c.column == 0 && c.tokenColumn == 0 && 0 ≤ c.indent then none
  else
    let column := c.column
    let (c, g) ← (c.past.roll column none .blockSequence).skipGap true
    if g.tab && c.next? = some '-' && atGap (c.rest.drop 1) then none
    else
      let c := if !c.rest.isEmpty && (c.next?.map fun x => isBreak x || isFlow x).getD false
        then c.rollLoose else c
      let c ← c.dropKey
      some (c.allowKey.push .item column)

/-- Moves past blanks, a comment and ends of lines, at most `fuel` of them. -/
def skipLines : (fuel : Nat) → (found : Bool) → Cursor → Bool × Cursor
  | 0, found, c => (found, c)
  | fuel + 1, found, c =>
      match c.rest with
      | ' ' :: _ => skipLines fuel true c.forward
      | '#' :: _ => skipLines fuel found c.toLineEnd
      | x :: _ =>
          if isBreak x then
            let c := c.pastBreak
            skipLines fuel true { c with keyAllowed := c.keyAllowed || !c.inFlow }
          else (found, c)
      | [] => (found, c)

/-- Moves past a question mark, behind which a key begins. -/
def keyMark (c : Cursor) : Option Cursor := do
  if !c.inFlow && !c.keyAllowed then none
  else
    let column := c.column
    let c ← (c.roll column none .blockMapping).dropKey
    let c := { c.past with keyAllowed := !c.inFlow }
    let (found, c) := skipLines (c.rest.length + 1) false c
    if !found || c.next? = some '\t' then none else some (c.push .key column)

/-- Moves past a colon, behind which a value begins. What may have been a key is one. -/
def valueMark (c : Cursor) : Option Cursor := do
  let line := c.line
  let column := c.column
  let c := c.past
  let c ← match c.rest with
    | '\t' :: _ =>
        let (c, g) ← c.skipGap true
        if !g.space && (c.next?.map fun x => x == '-' || isWord x).getD false then none else some c
    | _ => some c
  match c.keys with
  | some k :: ks =>
      if c.flow.head? = some .sequence && k.line < line then none
      else
        let c := (c.insert k.token .key).roll k.column (some k.token) .blockMapping
        some (({ c.rollLoose with keys := none :: ks }).forbidKey.push .value column)
  | _ =>
      if !c.inFlow && !c.keyAllowed then none
      else
        let c := (c.roll column none .blockMapping).rollLoose
        some ({ c with keyAllowed := !c.inFlow }.push .value column)

/-! ### Names and tags -/

/-- What names of anchors are written with: neither gaps nor indicators, nor the mark of byte order. -/
def isNamePart (c : Char) : Bool := !(isBlank c || isBreak c || isFlow c || c.toNat == 0xFEFF)

def anchorName (c : Cursor) : Option (String × Cursor) :=
  let name := c.rest.takeWhile isNamePart
  if name.isEmpty then none else some (String.ofList name, c.pastAll name.length)

def isTagPart (c : Char) : Bool := isWord c || "#;/?:@&=+$_.~*'()%".contains c

def tagText (c : Cursor) : List Char × Cursor :=
  let s := c.rest.takeWhile isTagPart
  (s, c.pastAll s.length)

/-- A tag, as its handle and what is behind that. A tag in angle brackets has no handle. -/
def tagParts (c : Cursor) : Option (String × String × Cursor) :=
  match c.rest with
  | '!' :: '<' :: rest =>
      let s := rest.takeWhile fun x => isTagPart x || "!,[]".contains x
      if s.isEmpty ∨ (rest.drop s.length).head? ≠ some '>' then none
      else some ("", String.ofList s, c.pastAll (s.length + 3))
  | '!' :: rest =>
      let word := rest.takeWhile isWord
      if (rest.drop word.length).head? = some '!' then
        let (suffix, c) := (c.pastAll (word.length + 2)).tagText
        some (String.ofList ('!' :: word ++ ['!']), String.ofList suffix, c)
      else
        let (suffix, c) := (c.pastAll (word.length + 1)).tagText
        match word ++ suffix with
        | [] => some ("", "!", c)
        | s => some ("!", String.ofList s, c)
  | _ => none

/-- Reads a tag. Behind it there is a gap, or in a flow collection one of its indicators. -/
def tag (c : Cursor) : Option Cursor := do
  let column := c.column
  let c := c.saveKey.forbidKey
  let (handle, suffix, c) ← c.tagParts
  if atGap c.rest || (c.inFlow && (c.next?.map isFlow).getD false) then
    some (c.push (.tag handle suffix) column)
  else none

/-! ### Directives and documents -/

def endBlocks (c : Cursor) : Option Cursor := do
  let c ← (c.unroll (-1)).dropKey
  some c.forbidKey

/-- The token of a directive, behind its percent sign, and what is behind it. Unknown ones mean
nothing. -/
def directiveToken (c : Cursor) : Option (Token × Cursor) := do
  let name := c.rest.takeWhile isWord
  let c := c.pastAll name.length
  if name.isEmpty || !atGap c.rest then none
  else
    let blanks (c : Cursor) : Cursor := c.pastAll (c.rest.takeWhile isBlank).length
    if name = "YAML".toList then
      let c := blanks c
      let major := c.rest.takeWhile Char.isDigit
      let c := c.pastAll major.length
      let minor := (c.rest.drop 1).takeWhile Char.isDigit
      if major.isEmpty || minor.isEmpty || c.next? ≠ some '.' || 9 < major.length || 9 < minor.length
      then none
      else some (.version, c.pastAll (minor.length + 1))
    else if name = "TAG".toList then
      let c := blanks c
      let handle := c.rest.takeWhile fun x => x == '!' || isWord x
      let word := (handle.drop 1).takeWhile isWord
      if handle ≠ ['!'] ∧ handle ≠ '!' :: word ++ ['!'] then none
      else
        let c := c.pastAll handle.length
        if !(c.next?.map isBlank).getD false then none
        else
          let c := blanks c
          let meaning := c.rest.takeWhile fun x => isTagPart x || "!,[]".contains x
          let c := c.pastAll meaning.length
          if meaning.isEmpty || !atGap c.rest then none
          else some (.tagDirective (String.ofList handle) (String.ofList meaning), c)
    else some (.tagDirective "" "", c.toLineEnd)

/-- Reads a directive, which has its line for itself. -/
def directive (c : Cursor) : Option Cursor := do
  let c ← c.endBlocks
  let (t, c) ← c.past.directiveToken
  let (c, _) ← c.skipGap true
  if atLineEnd c.rest then some (c.pastBreak.push t 0) else none

/-- Reads the mark that begins or ends a document. -/
def documentMark (t : Token) (c : Cursor) : Option Cursor := do
  let c ← c.endBlocks
  some ((c.pastAll 3).push t 0)

/-! ### Tokens -/

def scalar (isPlain : Bool) (read : Cursor → Option (String × Cursor)) (c : Cursor) : Option Cursor := do
  let column := c.column
  let (s, c) ← read c
  some (c.push (.scalar isPlain s) column)

/-- Reads a string in quotes. In a flow collection a colon may stand right behind it. -/
def quotedScalar (quote : Char) (c : Cursor) : Option Cursor := do
  let column := c.column
  let (s, c) ← quoted quote c.saveKey.forbidKey
  let c ← c.skipToToken
  some ({ c with adjacent := some c.index }.push (.scalar false s) column)

def token (c : Cursor) : Option Cursor :=
  let plainScalar := scalar true plain c.saveKey.forbidKey
  match c.rest with
  | [] => none
  | '[' :: _ => c.openFlow .sequence
  | '\x7b' :: _ => c.openFlow .mapping
  | ']' :: _ => c.closeFlow .sequence
  | '\x7d' :: _ => c.closeFlow .mapping
  | ',' :: _ => c.comma
  | '*' :: _ => do
      let (name, d) ← c.saveKey.forbidKey.past.anchorName
      some (d.push (.alias name) c.column)
  | '&' :: _ => do
      let (name, d) ← c.saveKey.forbidKey.past.anchorName
      some (d.push (.anchor name) c.column)
  | '!' :: _ => c.tag
  | '\'' :: _ => c.quotedScalar '\''
  | '"' :: _ => c.quotedScalar '"'
  | x :: rest =>
      if x = '-' then if atGap rest then c.dash else plainScalar
      else if x = '?' then
        if atGap rest then c.keyMark else plainScalar
      else if x = ':' then
        if atGap rest || (c.inFlow && ((rest.head?.map isFlow).getD false || c.adjacent = some c.index))
        then c.valueMark
        else plainScalar
      else if (x = '|' ∨ x = '>') ∧ !c.inFlow then
        scalar false (block (x = '>')) c.saveKey.allowKey.past
      else if x = '%' ∨ x = '@' ∨ x.toNat = 96 then none
      else plainScalar

/-- Ends the text: what had to be a key is one no more. -/
def finish (c : Cursor) : Option Cursor :=
  if c.keys.any fun k => (k.map PossibleKey.required).getD false then none
  else some ({ c with column := 0, keys := c.keys.map fun _ => none }.unroll (-1))

def step (c : Cursor) : Option Cursor :=
  if c.atDocumentStart then c.documentMark .documentStart
  else if c.atDocumentEnd then
    match c.documentMark .documentEnd with
    | none => none
    | some c =>
        match c.skipGap true with
        | some (c, _) => if atLineEnd c.rest then some c else none
        | none => none
  else if c.column = 0 ∧ c.next? = some '%' then c.directive
  else if c.outdented then none
  else c.token

/-- Reads tokens up to the end of the text, at most `fuel` of them. -/
def steps : (fuel : Nat) → Cursor → Option Cursor
  | 0, _ => none
  | fuel + 1, c =>
      match c.skipToToken with
      | none => none
      | some c =>
          match c.staleKeys with
          | none => none
          | some c =>
              let c := c.unroll c.column
              if c.rest.isEmpty then c.finish else (step c).bind (steps fuel)

end Cursor

/-- The tokens of a text. The character zero ends it. -/
def tokens? (text : String) : Option (List Token) :=
  let cs := text.toList.takeWhile fun c => c.toNat ≠ 0
  (Cursor.steps (cs.length + 2) { rest := cs }).map fun c => c.tokens.toList

end Reentrant.Settings.Yaml
