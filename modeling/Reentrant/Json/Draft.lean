import Reentrant.Number.Scaling
import Reentrant.Text.Decimal
import Reentrant.Text.Hex

/-!
JSON texts as they are read. A draft is what a text holds up to the first place where it is not JSON,
with that place in it. So whoever reads a draft in the order of the text meets a defect of the text
exactly when the reading gets there, and may have found something else wrong before.

Some defects count only when a value is read and not when it is skipped, as an unknown member is; a
draft keeps both answers.
-/

namespace Reentrant

/-- What is wrong with a text: it is not JSON, it ends too soon, or its data does not fit. -/
inductive ReadError where
  | syntaxError
  | endOfText
  | data
  deriving DecidableEq

/-- How a row of items or members ends. -/
inductive Draft.Stop where
  | closed
  /-- At a defect: `read` if one more item is looked for, `finish` if the closing bracket is looked
  for, and `skip` when skipping. -/
  | broken (read skip finish : ReadError)
  deriving DecidableEq

/-- What a defective value begins like. -/
inductive Draft.Opening where
  | nothing
  | quote
  | other
  deriving DecidableEq

mutual

/-- A value of a text, as far as it can be read. -/
inductive Draft where
  | null
  | bool (b : Bool)
  /-- An integer between -2^63 and 2^64. -/
  | int (z : Int)
  /-- Any other number; one that is too large for a double is infinite. -/
  | float (x : Binary64)
  /-- A string; its escapes may stand for no text. -/
  | string (s : Except ReadError String)
  | array (items : Draft.Items)
  | object (members : Draft.Members)
  | broken (opening : Draft.Opening) (read skip : ReadError)

inductive Draft.Items where
  | nil (stop : Draft.Stop)
  | cons (item : Draft) (rest : Draft.Items)

inductive Draft.Members where
  | nil (stop : Draft.Stop)
  | cons (key : Except ReadError String) (value : Draft) (rest : Draft.Members)

end

namespace Draft

/-! ### Characters -/

def isSpace (c : Char) : Bool := c == ' ' || c == '\n' || c == '\t' || c == '\r'

def skipSpace (cs : List Char) : List Char := cs.dropWhile isSpace

def isDigit (c : Char) : Bool := '0' ≤ c && c ≤ '9'

/-! ### Words and numbers -/

/-- Reads the rest of a word that has begun. -/
def word (v : Draft) : List Char → List Char → Draft × List Char
  | [], cs => (v, cs)
  | _ :: _, [] => (.broken .other .endOfText .endOfText, [])
  | w :: ws, c :: cs =>
      if w = c then word v ws cs else (.broken .other .syntaxError .syntaxError, [])

/-- A number that ends too soon: skipping does not wait for more. -/
def shortNumber : List Char → Draft × List Char
  | [] => (.broken .other .endOfText .syntaxError, [])
  | _ :: _ => (.broken .other .syntaxError .syntaxError, [])

/-- Takes up digits while the number has at most 64 bits; what is left over is given beside it. -/
def takeDigits (n : Nat) : List Char → Nat × List Char
  | [] => (n, [])
  | c :: cs =>
      let m := n * 10 + Decimal.digitValue c
      if m < Nat.pow 2 64 then takeDigits m cs else (n, c :: cs)

/-- A number as a double. Of a part that has too many digits the last ones count as zeros. -/
def decimal (negative : Bool) (whole fraction : List Char) (exponent : Int) : Draft :=
  let (n, left) := takeDigits 0 whole
  let (n, dropped) := takeDigits n fraction
  .float (Binary64.scaled
    ⟨negative, n, exponent + left.length + dropped.length - fraction.length⟩)

/-- The exponent of a number, behind its sign. -/
def exponentDigits (number : Int → Draft) (negative : Bool) (cs : List Char) : Draft × List Char :=
  let ds := cs.takeWhile isDigit
  if ds.isEmpty then shortNumber cs
  else
    let e : Int := Decimal.toNat ds
    (number (if negative then -e else e), cs.drop ds.length)

/-- A number behind its digits and fraction. -/
def afterFraction (number : Int → Draft) (cs : List Char) : Draft × List Char :=
  match cs with
  | c :: rest =>
      if c = 'e' ∨ c = 'E' then
        match rest with
        | '+' :: rest => exponentDigits number false rest
        | '-' :: rest => exponentDigits number true rest
        | rest => exponentDigits number false rest
      else (number 0, cs)
  | [] => (number 0, [])

/-- A number that is digits only. Minus zero and what 64 bits cannot hold are not integers. -/
def wholeNumber (negative : Bool) (ds : List Char) : Draft :=
  let n := Decimal.toNat ds
  if negative then if n ≠ 0 ∧ n ≤ Nat.pow 2 63 then .int (-n) else decimal true ds [] 0
  else if n < Nat.pow 2 64 then .int n
  else decimal false ds [] 0

/-- A number behind its sign. A leading zero stands alone. -/
def number (negative : Bool) (cs : List Char) : Draft × List Char :=
  let ds := cs.takeWhile isDigit
  let rest := cs.drop ds.length
  match ds with
  | [] => shortNumber cs
  | '0' :: _ :: _ => (.broken .other .syntaxError .syntaxError, [])
  | _ =>
      match rest with
      | '.' :: rest =>
          let fs := rest.takeWhile isDigit
          if fs.isEmpty then shortNumber rest
          else afterFraction (decimal negative ds fs) (rest.drop fs.length)
      | 'e' :: _ => afterFraction (decimal negative ds []) rest
      | 'E' :: _ => afterFraction (decimal negative ds []) rest
      | _ => (wholeNumber negative ds, rest)

/-! ### Strings -/

/-- A string while it is read: its characters so far, the last one first, or what was wrong. -/
abbrev Partial := Except ReadError (List Char)

/-- Four hexadecimal digits. Fewer than four bytes before the end of the text end it too soon. -/
def hex4 (cs : List Char) : Except ReadError (Nat × List Char) :=
  match cs with
  | a :: b :: c :: d :: rest =>
      match Hex.toNat? [a, b, c, d] with
      | some n => .ok (n, rest)
      | none => .error .syntaxError
  | cs => if cs.foldl (fun n c => n + c.utf8Size) 0 < 4 then .error .endOfText else .error .syntaxError

/-- What is read at the end of a string's text, or at a defect. -/
def endString (soFar : Partial) (defect : ReadError) :
    (Partial × ReadError) ⊕ (Partial × List Char) :=
  .inl (match soFar with | .ok _ => .error defect | .error e => .error e, defect)

def Partial.push (p : Partial) (c : Char) : Partial := p.map (c :: ·)

def Partial.fail (p : Partial) (e : ReadError) : Partial :=
  match p with
  | .ok _ => .error e
  | .error e => .error e

def pairChar (high low : Nat) : Char := Char.ofNat (0x10000 + (high - 0xD800) * 0x400 + (low - 0xDC00))

/-- Adds the character of an escape by number. The second half of a surrogate pair has to follow the
first one; `high` is a first half that waits for it. -/
def pushUnit (p : Partial) (high : Option Nat) (n : Nat) : Partial × Option Nat :=
  match high with
  | some h => if 0xDC00 ≤ n ∧ n ≤ 0xDFFF then (p.push (pairChar h n), none) else (p.fail .syntaxError, none)
  | none =>
      if 0xDC00 ≤ n ∧ n ≤ 0xDFFF then (p.fail .syntaxError, none)
      else if 0xD800 ≤ n ∧ n ≤ 0xDBFF then (p, some n)
      else (p.push (Char.ofNat n), none)

/-- The character that a backslash and another character stand for. -/
def escaped? (c : Char) : Option Char :=
  if c = '"' then some '"'
  else if c = '\\' then some '\\'
  else if c = '/' then some '/'
  else if c = 'b' then some (Char.ofNat 8)
  else if c = 'f' then some (Char.ofNat 12)
  else if c = 'n' then some '\n'
  else if c = 'r' then some '\r'
  else if c = 't' then some '\t'
  else none

/-- Reads a string behind its opening quote. On the left a defect: what reading and what skipping
finds. On the right the string and what is behind its closing quote. At most `fuel` characters and
escapes are read. -/
def stringBody : (fuel : Nat) → Partial → (high : Option Nat) → List Char →
    (Partial × ReadError) ⊕ (Partial × List Char)
  | 0, p, _, _ => endString p .endOfText
  | _ + 1, p, _, [] => endString p .endOfText
  | fuel + 1, p, high, c :: cs =>
      if c = '\\' then
        match cs with
        | [] => endString p .endOfText
        | 'u' :: rest =>
            match hex4 rest with
            | .error e => endString p e
            | .ok (n, rest) =>
                let (p, high) := pushUnit p high n
                stringBody fuel p high rest
        | c :: rest =>
            let p := if high.isSome then p.fail .syntaxError else p
            match escaped? c with
            | some x => stringBody fuel (p.push x) none rest
            | none => endString p .syntaxError
      else
        let p := if high.isSome then p.fail .syntaxError else p
        if c = '"' then .inr (p, cs)
        else if c.toNat < 32 then endString p .syntaxError
        else stringBody fuel (p.push c) none cs

def Partial.text (p : Partial) : Except ReadError String :=
  p.map fun cs => String.ofList cs.reverse

def stringFrom (cs : List Char) : (ReadError × ReadError) ⊕ (Except ReadError String × List Char) :=
  match stringBody (cs.length + 1) (.ok []) none cs with
  | .inr (p, rest) => .inr (p.text, rest)
  | .inl (.error read, skip) => .inl (read, skip)
  | .inl (.ok _, skip) => .inl (skip, skip)

/-! ### Values -/

/-- A row that ends at a defect which is the same for everybody. -/
def brokenRow (e : ReadError) : Stop := .broken e e e

mutual

/-- Reads a value, with blanks in front of it. -/
def value : (fuel : Nat) → List Char → Draft × List Char
  | 0, _ => (.broken .nothing .endOfText .endOfText, [])
  | fuel + 1, cs =>
      match skipSpace cs with
      | [] => (.broken .nothing .endOfText .endOfText, [])
      | 'n' :: cs => word .null "ull".toList cs
      | 't' :: cs => word (.bool true) "rue".toList cs
      | 'f' :: cs => word (.bool false) "alse".toList cs
      | '-' :: cs => number true cs
      | '"' :: cs =>
          match stringFrom cs with
          | .inl (read, skip) => (.broken .quote read skip, [])
          | .inr (s, cs) => (.string s, cs)
      | '[' :: cs =>
          let (items, cs) := items fuel true cs
          (.array items, cs)
      | '\x7b' :: cs =>
          let (members, cs) := members fuel true cs
          (.object members, cs)
      | c :: cs =>
          if isDigit c then number false (c :: cs)
          else (.broken .other .syntaxError .syntaxError, [])

/-- Reads items up to the closing bracket. Before every item but the first there is a comma. -/
def items : (fuel : Nat) → (first : Bool) → List Char → Items × List Char
  | 0, _, _ => (.nil (brokenRow .endOfText), [])
  | fuel + 1, first, cs =>
      match skipSpace cs with
      | [] => (.nil (brokenRow .endOfText), [])
      | c :: rest =>
          if c = ']' then (.nil .closed, rest)
          else if first then item fuel (c :: rest)
          else if c ≠ ',' then (.nil (brokenRow .syntaxError), [])
          else
            match skipSpace rest with
            | [] => (.nil (.broken .endOfText .endOfText .syntaxError), [])
            | c :: rest =>
                if c = ']' then (.nil (brokenRow .syntaxError), []) else item fuel (c :: rest)

def item : (fuel : Nat) → List Char → Items × List Char
  | 0, _ => (.nil (brokenRow .endOfText), [])
  | fuel + 1, cs =>
      let (v, cs) := value fuel cs
      let (rest, cs) := items fuel false cs
      (.cons v rest, cs)

/-- Reads members up to the closing brace. Before every member but the first there is a comma. -/
def members : (fuel : Nat) → (first : Bool) → List Char → Members × List Char
  | 0, _, _ => (.nil (brokenRow .endOfText), [])
  | fuel + 1, first, cs =>
      match skipSpace cs with
      | [] => (.nil (brokenRow .endOfText), [])
      | c :: rest =>
          if c = '\x7d' then (.nil .closed, rest)
          else if first then member fuel (c :: rest)
          else if c ≠ ',' then (.nil (brokenRow .syntaxError), [])
          else
            match skipSpace rest with
            | [] => (.nil (.broken .endOfText .endOfText .syntaxError), [])
            | c :: rest =>
                if c = '\x7d' then (.nil (brokenRow .syntaxError), []) else member fuel (c :: rest)

def member : (fuel : Nat) → List Char → Members × List Char
  | 0, _ => (.nil (brokenRow .endOfText), [])
  | fuel + 1, cs =>
      match cs with
      | '"' :: cs =>
          match stringFrom cs with
          | .inl (read, skip) => (.nil (.broken read skip .syntaxError), [])
          | .inr (key, cs) =>
              match skipSpace cs with
              | [] => (.cons key (.broken .nothing .endOfText .endOfText) (.nil .closed), [])
              | c :: cs =>
                  if c = ':' then
                    let (v, cs) := value fuel cs
                    let (rest, cs) := members fuel false cs
                    (.cons key v rest, cs)
                  else (.cons key (.broken .other .syntaxError .syntaxError) (.nil .closed), [])
      | _ => (.nil (brokenRow .syntaxError), [])

end

/-- Reads a text: its value and what is behind it. -/
def ofText (cs : List Char) : Draft × List Char := value (3 * cs.length + 3) cs

/-! ### Skipping and keeping -/

mutual

def skip : Draft → Except ReadError Unit
  | .broken _ _ skip => .error skip
  | .array items => skipItems items
  | .object members => skipMembers members
  | _ => .ok ()

def skipItems : Items → Except ReadError Unit
  | .nil .closed => .ok ()
  | .nil (.broken _ skip _) => .error skip
  | .cons v rest =>
      match skip v with
      | .error e => .error e
      | .ok () => skipItems rest

def skipMembers : Members → Except ReadError Unit
  | .nil .closed => .ok ()
  | .nil (.broken _ skip _) => .error skip
  | .cons _ v rest =>
      match skip v with
      | .error e => .error e
      | .ok () => skipMembers rest

end

mutual

/-- Reads a value of any kind, to be looked at later. `room` is how many more brackets may be open at
a time, the outermost counted. -/
def keep (room : Nat) : Draft → Except ReadError Unit
  | .broken _ read _ => .error read
  | .float (.infinite _) => .error .syntaxError
  | .string (.error e) => .error e
  | .array items => if room ≤ 1 then .error .syntaxError else keepItems (room - 1) items
  | .object members => if room ≤ 1 then .error .syntaxError else keepMembers (room - 1) members
  | _ => .ok ()

def keepItems (room : Nat) : Items → Except ReadError Unit
  | .nil .closed => .ok ()
  | .nil (.broken read _ _) => .error read
  | .cons v rest =>
      match keep room v with
      | .error e => .error e
      | .ok () => keepItems room rest

def keepMembers (room : Nat) : Members → Except ReadError Unit
  | .nil .closed => .ok ()
  | .nil (.broken read _ _) => .error read
  | .cons (.error e) _ _ => .error e
  | .cons (.ok _) v rest =>
      match keep room v with
      | .error e => .error e
      | .ok () => keepMembers room rest

end

end Draft

end Reentrant
