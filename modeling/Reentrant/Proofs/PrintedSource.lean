import Reentrant.Assembly.Grammar
import Reentrant.Text.Decimal

/-!
Printed sources. A source says a row of procedures, each a name and its lines; `PrintsSource` holds of
every text that says it, in whatever layout: how many blanks stand between the words, where lines end
in a comment, how they are broken and how many blank ones are between them, and which characters of a
string are escaped.
-/

namespace Reentrant.Assembly

open Grammar

/-! ### What a source says -/

def isNameStart (c : Char) : Bool := isLetter c || c == '_'

def isNameChar (c : Char) : Bool := isLetter c || isDigit c || c == '_' || c == '.'

/-- A letter or an underscore, and then letters, digits, underscores and periods. -/
structure Name where
  first : Char
  others : List Char
  isStart : isNameStart first = true
  isName : others.all isNameChar = true
  deriving DecidableEq

namespace Name

def chars (n : Name) : List Char := n.first :: n.others

def text (n : Name) : String := String.ofList n.chars

end Name

/-- The digits of a byte literal, any number of them. -/
structure HexDigits where
  digits : List Char
  isHex : digits.all Hex.isDigit = true
  deriving DecidableEq

/-- The mnemonics of the instructions that have no operand. -/
inductive Plain where
  | pop | dup | swap | add | sub | mul | div | eq | not | throw | log | ret
  deriving DecidableEq

/-- The mnemonics of the instructions that have a target. -/
inductive Jumping where
  | jump | jumpIf | catchAt
  deriving DecidableEq

inductive Mnemonic where
  | plain (i : Plain)
  | push
  | jumping (j : Jumping)
  | native
  deriving DecidableEq

namespace Mnemonic

def text : Mnemonic → String
  | .plain .pop => "pop"
  | .plain .dup => "dup"
  | .plain .swap => "swap"
  | .plain .add => "add"
  | .plain .sub => "sub"
  | .plain .mul => "mul"
  | .plain .div => "div"
  | .plain .eq => "eq"
  | .plain .not => "not"
  | .plain .throw => "throw"
  | .plain .log => "log"
  | .plain .ret => "ret"
  | .push => "push"
  | .jumping .jump => "jump"
  | .jumping .jumpIf => "jump_if"
  | .jumping .catchAt => "catch"
  | .native => "native"

def chars (m : Mnemonic) : List Char := m.text.toList

end Mnemonic

inductive Argument where
  | int (z : Int)
  | bytes (d : HexDigits)
  | str (s : String)
  | name (n : Name)
  deriving DecidableEq

inductive Item where
  | label (n : Name)
  | instr (m : Mnemonic) (a : Option Argument)
  deriving DecidableEq

structure Procedure where
  name : Name
  lines : List Item
  deriving DecidableEq

/-! ### How it is printed -/

def Blanks (w : List Char) : Prop := ∀ c ∈ w, Cursor.isBlank c = true

instance (w : List Char) : Decidable (Blanks w) :=
  decidable_of_iff (w.all Cursor.isBlank = true) List.all_eq_true

/-- What may stand at the end of a line: blanks, and perhaps a comment. -/
inductive Trailing : List Char → Prop where
  | blanks {b : List Char} (hb : Blanks b) : Trailing b
  | comment {b c : List Char} (hb : Blanks b) (hc : c.all (!Cursor.isLineBreak ·) = true) :
      Trailing (b ++ ';' :: c)

inductive LineBreak : List Char → Prop where
  | lf : LineBreak ['\n']
  | crlf : LineBreak ['\r', '\n']
  | cr : LineBreak ['\r']

/-- Blank and comment-only lines. -/
inductive Gap : List Char → Prop where
  | nil : Gap []
  | line {w k g : List Char} (hw : Trailing w) (hk : LineBreak k) (hg : Gap g) :
      Gap (w ++ (k ++ g))

/-- A string between its quotes: quotes and backslashes are escaped, and line feeds and tabs may
be. -/
inductive Quoted : List Char → List Char → Prop where
  | nil : Quoted [] []
  | raw {c : Char} {cs w : List Char} (hquote : c ≠ '"') (hslash : c ≠ '\\') (hw : Quoted cs w) :
      Quoted (c :: cs) (c :: w)
  | escaped {c : Char} {cs w : List Char} (hc : c = '"' ∨ c = '\\') (hw : Quoted cs w) :
      Quoted (c :: cs) ('\\' :: c :: w)
  | lineFeed {cs w : List Char} (hw : Quoted cs w) : Quoted ('\n' :: cs) ('\\' :: 'n' :: w)
  | tab {cs w : List Char} (hw : Quoted cs w) : Quoted ('\t' :: cs) ('\\' :: 't' :: w)

inductive PrintsArgument : Argument → List Char → Prop where
  | int (z : Int) : PrintsArgument (.int z) (Decimal.ofInt z)
  | bytes (d : HexDigits) : PrintsArgument (.bytes d) ('0' :: 'x' :: d.digits)
  | str {s : String} {w : List Char} (hw : Quoted s.toList w) :
      PrintsArgument (.str s) ('"' :: (w ++ ['"']))
  | name (n : Name) : PrintsArgument (.name n) n.chars

/-- A line from its first word to its last. -/
inductive PrintsItem : Item → List Char → Prop where
  | label (n : Name) {b : List Char} (hb : Blanks b) : PrintsItem (.label n) (n.chars ++ (b ++ [':']))
  | bare (m : Mnemonic) : PrintsItem (.instr m none) m.chars
  | operand (m : Mnemonic) {b w : List Char} {a : Argument} (hb : Blanks b) (hne : b ≠ [])
      (ha : PrintsArgument a w) : PrintsItem (.instr m (some a)) (m.chars ++ (b ++ w))

/-- The lines of a procedure and the word `end`. -/
inductive PrintsBody : List Item → List Char → Prop where
  | last {b : List Char} (hb : Blanks b) : PrintsBody [] (b ++ "end".toList)
  | line {b w t k g v : List Char} {i : Item} {is : List Item} (hb : Blanks b)
      (hi : PrintsItem i w) (ht : Trailing t) (hk : LineBreak k) (hg : Gap g)
      (hv : PrintsBody is v) :
      PrintsBody (i :: is) (b ++ (w ++ (t ++ (k ++ (g ++ v)))))

inductive PrintsProcedure : Procedure → List Char → Prop where
  | mk {b t k g v : List Char} {p : Procedure} (hb : Blanks b) (hne : b ≠ []) (ht : Trailing t)
      (hk : LineBreak k) (hg : Gap g) (hv : PrintsBody p.lines v) :
      PrintsProcedure p ("proc".toList ++ (b ++ (p.name.chars ++ (t ++ (k ++ (g ++ v))))))

/-- The text does not prolong a word in front of it. -/
def Parted (rest : List Char) : Prop := ∀ c ∈ rest.head?, isNameChar c = false

instance (rest : List Char) : Decidable (Parted rest) :=
  decidable_of_iff (rest.head?.all (!isNameChar ·) = true) (by cases rest <;> simp [Parted])

/-- Procedures and what stands between them, from the first procedure on. -/
inductive PrintsProcedures : List Procedure → List Char → Prop where
  | done {t : List Char} (ht : Trailing t) : PrintsProcedures [] t
  | next {b w g v : List Char} {p : Procedure} {ps : List Procedure} (hb : Blanks b)
      (hp : PrintsProcedure p w) (hparted : Parted (g ++ v)) (hg : Gap g)
      (hv : PrintsProcedures ps v) : PrintsProcedures (p :: ps) (b ++ (w ++ (g ++ v)))

inductive PrintsSource : List Procedure → List Char → Prop where
  | mk {ps : List Procedure} {g v : List Char} (hg : Gap g) (hv : PrintsProcedures ps v) :
      PrintsSource ps (g ++ v)

end Reentrant.Assembly
