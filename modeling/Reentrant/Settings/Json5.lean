import Reentrant.Settings.Number
import Reentrant.Text.Blank
import Reentrant.Text.Letter
import Reentrant.Text.Reader

/-!
Settings as a JSON5 text. Names need no quotes, strings may have single ones, a comma may stand behind
the last item, numbers may be hexadecimal, and there are comments.
-/

namespace Reentrant.Settings.Json5

open Text (Reader expectWord consing hexNumber? character? numbered?)

/-! ### Blanks and comments -/

def isLineEnd (c : Char) : Bool :=
  c == '\n' || c == '\r' || c.toNat == 0x2028 || c.toNat == 0x2029

def isSpace (c : Char) : Bool := (Text.isBlank c && c.toNat ≠ 0x85) || c.toNat == 0xFEFF

/-- Moves past the end of a comment that may run over lines. -/
def closeComment : List Char → Option (List Char)
  | '*' :: '/' :: cs => some cs
  | _ :: cs => closeComment cs
  | [] => none

/-- Moves past blanks and comments, at most `fuel` of them. -/
def skip : (fuel : Nat) → List Char → List Char
  | 0, cs => cs
  | fuel + 1, cs =>
      match cs.dropWhile isSpace with
      | '/' :: '/' :: rest => skip fuel (rest.dropWhile fun c => !isLineEnd c)
      | '/' :: '*' :: rest =>
          match closeComment rest with
          | some rest => skip fuel rest
          | none => '/' :: '*' :: rest
      | cs => cs

def skipAll (cs : List Char) : List Char := skip (cs.length + 1) cs

/-! ### Strings and names -/

/-- The character of a pair of halves. -/
def pairChar (high low : Nat) : Option Char :=
  character? (0x10000 + (high - 0xD800) * 0x400 + (low - 0xDC00))

/-- The character of an escape by number, behind the letter. The first half of a pair needs the second
one behind it. -/
def unicodeEscape : Reader Char := fun cs => do
  let (n, cs) ← hexNumber? 4 cs
  if 0xD800 ≤ n ∧ n ≤ 0xDBFF then
    let cs ← expectWord ['\\', 'u'] cs
    let (low, cs) ← hexNumber? 4 cs
    if 0xDC00 ≤ low ∧ low ≤ 0xDFFF then (pairChar n low).map (·, cs) else none
  else (character? n).map (·, cs)

/-- What an escape stands for, behind its backslash. An end of a line is passed over. -/
def escape : List Char → Option (Option Char × List Char)
  | [] => none
  | '\r' :: '\n' :: cs => some (none, cs)
  | 'u' :: cs => (unicodeEscape cs).map fun (c, rest) => (some c, rest)
  | 'x' :: cs => (numbered? 2 cs).map fun (c, rest) => (some c, rest)
  | '0' :: cs => some (some (Char.ofNat 0), cs)
  | 'b' :: cs => some (some (Char.ofNat 8), cs)
  | 'f' :: cs => some (some (Char.ofNat 12), cs)
  | 'n' :: cs => some (some '\n', cs)
  | 'r' :: cs => some (some '\r', cs)
  | 't' :: cs => some (some '\t', cs)
  | 'v' :: cs => some (some (Char.ofNat 11), cs)
  | c :: cs =>
      if c.isDigit then none else if isLineEnd c then some (none, cs) else some (some c, cs)

/-- A string behind its opening quote. At most `fuel` characters are read. -/
def stringBody (quote : Char) : (fuel : Nat) → Reader (List Char)
  | 0, _ => none
  | _ + 1, [] => none
  | fuel + 1, c :: cs =>
      if c = quote then some ([], cs)
      else if c = '\\' then
        match escape cs with
        | none => none
        | some (none, rest) => stringBody quote fuel rest
        | some (some x, rest) => consing x (stringBody quote fuel rest)
      else if isLineEnd c then none
      else consing c (stringBody quote fuel cs)

def string : Reader (List Char)
  | '"' :: cs => stringBody '"' (cs.length + 1) cs
  | '\'' :: cs => stringBody '\'' (cs.length + 1) cs
  | _ => none

def isNameStart (c : Char) : Bool :=
  c == '$' || c == '_' || (Text.isLetterOrNumber c && !c.isDigit)

/-- Behind the first character there may also be digits and the two joiners. -/
def isNamePart (c : Char) : Bool :=
  isNameStart c || c.isDigit || c.toNat == 0x200C || c.toNat == 0x200D

/-- The characters of a name as far as it goes, at most `fuel` of them. -/
def nameBody : (fuel : Nat) → (first : Bool) → Reader (List Char)
  | 0, _, cs => some ([], cs)
  | fuel + 1, first, cs =>
      match cs with
      | '\\' :: 'u' :: rest =>
          (unicodeEscape rest).bind fun (c, rest) => consing c (nameBody fuel false rest)
      | c :: rest =>
          if if first then isNameStart c else isNamePart c then
            consing c (nameBody fuel false rest)
          else some ([], cs)
      | [] => some ([], [])

def key : Reader String := fun cs =>
  match cs with
  | '"' :: _ => (string cs).map fun (s, rest) => (String.ofList s, rest)
  | '\'' :: _ => (string cs).map fun (s, rest) => (String.ofList s, rest)
  | _ =>
      match nameBody cs.length true cs with
      | some ([], _) => none
      | some (s, rest) => some (String.ofList s, rest)
      | none => none

/-! ### Numbers -/

/-- The exponent of a number as far as it is there. -/
def exponentPart (cs : List Char) : List Char × List Char :=
  match cs with
  | e :: cs' =>
      if e = 'e' ∨ e = 'E' then
        let (sign, ds) := match cs' with
          | '+' :: ds => (['+'], ds)
          | '-' :: ds => (['-'], ds)
          | ds => ([], ds)
        let digits := ds.takeWhile Char.isDigit
        if digits.isEmpty then ([], cs) else (e :: sign ++ digits, ds.drop digits.length)
      else ([], cs)
  | [] => ([], [])

/-- The digits before the point. A leading zero stands alone. -/
def wholePart (cs : List Char) : List Char :=
  match cs with
  | '0' :: _ => ['0']
  | _ => cs.takeWhile Char.isDigit

/-- A number with a sign in front or none, in decimal digits. Without a point and an exponent it is an
integer and has to have 64 bits, and a double must not be too large. -/
def decimal (sign : List Char) : Reader Tree := fun cs =>
  let whole := wholePart cs
  match cs.drop whole.length with
  | '.' :: rest =>
      let fraction := rest.takeWhile Char.isDigit
      if whole.isEmpty && fraction.isEmpty then none
      else
        let (e, rest) := exponentPart (rest.drop fraction.length)
        double? (sign ++ whole ++ '.' :: fraction ++ e) rest
  | rest =>
      if whole.isEmpty then none
      else
        match exponentPart rest with
        | ([], rest) => (Number.integer? (sign ++ whole)).map fun z => (.int z, rest)
        | (e, rest) => double? (sign ++ whole ++ e) rest
where
  double? (text rest : List Char) : Option (Tree × List Char) :=
    match Number.double? text with
    | some (.infinite _) => none
    | some x => some (.float x, rest)
    | none => none

/-- A hexadecimal number of 32 bits, behind its letter. -/
def hexadecimal (cs : List Char) : Option (Tree × List Char) :=
  let ds := cs.takeWhile Hex.isDigit
  (Number.natural? 16 ds).bind fun n =>
    if n < Nat.pow 2 32 then some (.int n, cs.drop ds.length) else none

/-- A number. Only without a sign it may be hexadecimal, and the words take no plus sign. -/
def number : Reader Tree
  | 'I' :: cs => (expectWord "nfinity".toList cs).map fun rest => (.float (.infinite false), rest)
  | 'N' :: cs => (expectWord "aN".toList cs).map fun rest => (.float .nan, rest)
  | '-' :: 'I' :: cs => (expectWord "nfinity".toList cs).map fun rest => (.float (.infinite true), rest)
  | '-' :: 'N' :: cs => (expectWord "aN".toList cs).map fun rest => (.float .nan, rest)
  | '0' :: 'x' :: cs => hexadecimal cs
  | '0' :: 'X' :: cs => hexadecimal cs
  | '+' :: cs => decimal ['+'] cs
  | '-' :: cs => decimal ['-'] cs
  | cs => decimal [] cs

/-! ### Values -/

mutual

def value : (fuel : Nat) → Reader Tree
  | 0, _ => none
  | fuel + 1, cs =>
      match cs with
      | 'n' :: cs => (expectWord "ull".toList cs).map (.null, ·)
      | 't' :: cs => (expectWord "rue".toList cs).map (.bool true, ·)
      | 'f' :: cs => (expectWord "alse".toList cs).map (.bool false, ·)
      | '[' :: cs => (items fuel (skipAll cs)).map fun (ts, rest) => (.list ts, rest)
      | '\x7b' :: cs => (members fuel [] (skipAll cs)).map fun (es, rest) => (.table es, rest)
      | '"' :: _ => (string cs).map fun (s, rest) => (.string (String.ofList s), rest)
      | '\'' :: _ => (string cs).map fun (s, rest) => (.string (String.ofList s), rest)
      | cs => number cs

/-- Reads items and the closing bracket. -/
def items : (fuel : Nat) → Reader (List Tree)
  | 0, _ => none
  | fuel + 1, cs =>
      match cs with
      | ']' :: rest => some ([], rest)
      | cs =>
          match value fuel cs with
          | none => none
          | some (t, cs) =>
              match skipAll cs with
              | ',' :: rest => (items fuel (skipAll rest)).map fun (ts, rest) => (t :: ts, rest)
              | ']' :: rest => some ([t], rest)
              | _ => none

/-- Reads members and the closing brace. Of two members of one name the later one counts. -/
def members : (fuel : Nat) → List (String × Tree) → Reader (List (String × Tree))
  | 0, _, _ => none
  | fuel + 1, es, cs =>
      match cs with
      | '\x7d' :: rest => some (es, rest)
      | cs =>
          match key cs with
          | none => none
          | some (name, cs) =>
              match skipAll cs with
              | ':' :: cs =>
                  match value fuel (skipAll cs) with
                  | none => none
                  | some (t, cs) =>
                      let es := Tree.put name t es
                      match skipAll cs with
                      | ',' :: rest => members fuel es (skipAll rest)
                      | '\x7d' :: rest => some (es, rest)
                      | _ => none
              | _ => none

end

def read? (text : String) : Option (List (String × Tree)) :=
  let cs := skipAll text.toList
  match value (2 * cs.length + 2) cs with
  | some (.table es, rest) => if (skipAll rest).isEmpty then some es else none
  | _ => none

end Reentrant.Settings.Json5
