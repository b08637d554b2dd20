import Reentrant.Assembly.Peg
import Reentrant.Text.Hex

/-!
The grammar of program texts. A file is a row of procedures; a procedure is its name and its lines,
each a label or an instruction with at most one operand, up to `end`.
-/

namespace Reentrant.Assembly.Grammar

open Reentrant.Assembly.Expr

def isLower (c : Char) : Bool := 'a' ≤ c && c ≤ 'z'

def isLetter (c : Char) : Bool := isLower c || ('A' ≤ c && c ≤ 'Z')

def isDigit (c : Char) : Bool := '0' ≤ c && c ≤ '9'

def newline : Expr := alt (text ['\n']) (alt (text ['\r', '\n']) (text ['\r']))

/-- A name begins with a letter or an underscore and may hold digits and periods. -/
def ident : Expr :=
  rule .ident .atomic <| seq (char fun c => isLetter c || c == '_')
    (many (char fun c => isLetter c || isDigit c || c == '_' || c == '.'))

/-- The word `end`, unless it is the beginning of a longer word. -/
def kwEnd : Expr :=
  rule .kwEnd .atomic <| seq (text "end".toList)
    (absent (char fun c => isLetter c || isDigit c || c == '_'))

def mnemonic : Expr :=
  rule .mnemonic .atomic <| seq (char isLower) (many (char fun c => isLower c || c == '_'))

def bytes : Expr :=
  rule .bytes .atomic <| seq (text "0x".toList) (many (char Hex.isDigit))

def int : Expr :=
  rule .int .atomic <| seq (opt (text ['-'])) (oneOrMore (char isDigit))

/-- What stands between the quotes of a string, escapes not yet read. -/
def inner : Expr :=
  rule .inner .atomic <| many <| alt (char fun c => c != '"' && c != '\\')
    (seq (text ['\\']) (char fun _ => true))

def string : Expr :=
  rule .string .compound <| seq (text ['"']) (seq inner (text ['"']))

def operand : Expr := alt bytes (alt int (alt string ident))

def instr : Expr :=
  rule .instr .inherit <| seq (absent kwEnd) (seq mnemonic (opt operand))

def label : Expr := rule .label .inherit <| seq ident (text [':'])

def line : Expr := alt label instr

def proc : Expr :=
  rule .proc .inherit <| seq (text "proc".toList) <| seq ident <| seq (oneOrMore newline) <|
    seq (many (seq line (oneOrMore newline))) kwEnd

/-- Matches nothing, so that the blanks before the first part of a file are skipped too. -/
def startOfInput : Expr := text []

def file : Expr :=
  rule .file .inherit <| seq startOfInput <| seq (many newline) <| seq (many (seq proc (many newline)))
    (rule .endOfInput .inherit endOfInput)

end Reentrant.Assembly.Grammar
