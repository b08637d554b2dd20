import Reentrant.Assembly.Listing

/-!
Assembling: from listings to programs. Labels become indices, symbolic routines become numbers, and
literals become values; the first line that does not is the error.
-/

namespace Reentrant.Assembly

inductive Problem where
  | duplicateProcedure (name : String)
  | duplicateLabel (label procedure : String)
  | takesNoOperand (mnemonic : String)
  | needsLabel (mnemonic : String)
  | unknownLabel (label : String)
  | badTarget (text : String)
  | nothingToPush
  | intOutOfRange (text : String)
  | oddBytes (digits : String)
  | cannotPush (name : String)
  | needsRoutine
  | badRoutineId (text : String)
  | unknownRoutine (name : String)
  | unknownInstruction (mnemonic : String)
  deriving DecidableEq

def Problem.message : Problem → String
  | .duplicateProcedure name => "duplicate procedure `" ++ name ++ "`"
  | .duplicateLabel label procedure => "duplicate label `" ++ label ++ "` in `" ++ procedure ++ "`"
  | .takesNoOperand m => "`" ++ m ++ "` takes no operand"
  | .needsLabel m => "`" ++ m ++ "` needs a label"
  | .unknownLabel label => "unknown label `" ++ label ++ "`"
  | .badTarget text => "bad target `" ++ text ++ "`"
  | .nothingToPush => "`push` needs an operand"
  | .intOutOfRange text => "integer out of range: " ++ text
  | .oddBytes digits => "odd-length byte literal 0x" ++ digits
  | .cannotPush name => "cannot push `" ++ name ++ "`"
  | .needsRoutine => "`native` needs a routine"
  | .badRoutineId text => "bad routine id `" ++ text ++ "`"
  | .unknownRoutine name => "unknown native routine `" ++ name ++ "`"
  | .unknownInstruction m => "unknown instruction `" ++ m ++ "`"

/-- Why a source does not assemble: it does not fit the grammar, or something in it has no meaning. -/
inductive AssemblyError where
  | grammar (e : SyntaxError)
  | build (problem : Problem) (span : Span)

namespace AssemblyError

def message : AssemblyError → String
  | .grammar e => e.message
  | .build problem _ => problem.message

/-- The message with the place in front, unless it shows the place itself. -/
def display : AssemblyError → String
  | .grammar e => e.message
  | .build problem span =>
      Decimal.text (span.startLine + 1) ++ ":" ++ Decimal.text (span.startCol + 1) ++ ": " ++
        problem.message

def span : AssemblyError → Span
  | .grammar e => e.span
  | .build _ span => span

end AssemblyError

/-! ### Literals -/

/-- Reads the escapes of a string: `\n` and `\t` stand for themselves, and a backslash before any
other character for that character. -/
def unescape : List Char → List Char
  | '\\' :: c :: rest =>
      (if c = 'n' then '\n' else if c = 't' then '\t' else c) :: unescape rest
  | c :: rest => c :: unescape rest
  | [] => []

/-- A natural number below a bound, in digits. -/
def readBelow? (bound : Nat) (text : List Char) : Option Nat :=
  (Decimal.readNat? text).filter (· < bound)

/-! ### Instructions -/

/-- The operand of `push` as a value. -/
def literal : Option Operand → Except Problem Value
  | none => .error .nothingToPush
  | some (.int text) =>
      match (Decimal.readInt? text).bind int64? with
      | some n => .ok (.int n)
      | none => .error (.intOutOfRange (String.ofList text))
  | some (.string raw) => .ok (.str (String.ofList (unescape raw)))
  | some (.bytes digits) =>
      match Hex.toBytes? digits with
      | some bs => .ok (.bytes bs)
      | none => .error (.oddBytes (String.ofList digits))
  | some (.ident name) =>
      if name = "true".toList then .ok (.bool true)
      else if name = "false".toList then .ok (.bool false)
      else if name = "null".toList then .ok .null
      else .error (.cannotPush (String.ofList name))

def target (labels : List (List Char × Nat)) (mnemonic : String) :
    Option Operand → Except Problem Nat
  | some (.ident name) =>
      match labels.lookup name with
      | some i => .ok i
      | none => .error (.unknownLabel (String.ofList name))
  | some (.int text) =>
      match readBelow? (Nat.pow 2 64) text with
      | some i => .ok i
      | none => .error (.badTarget (String.ofList text))
  | _ => .error (.needsLabel mnemonic)

def routine (natives : List (String × RoutineId)) : Option Operand → Except Problem RoutineId
  | some (.int text) =>
      match readBelow? (Nat.pow 2 32) text with
      | some i => .ok (UInt32.ofNat i)
      | none => .error (.badRoutineId (String.ofList text))
  | some (.ident name) =>
      match natives.lookup (String.ofList name) with
      | some id => .ok id
      | none => .error (.unknownRoutine (String.ofList name))
  | _ => .error .needsRoutine

/-- The instructions without an operand. -/
def plain : List (String × Op) :=
  [("pop", .pop), ("dup", .dup), ("swap", .swap), ("add", .add), ("sub", .sub), ("mul", .mul),
    ("div", .div), ("eq", .eq), ("not", .not), ("throw", .throw), ("log", .log), ("ret", .ret)]

def instruction (natives : List (String × RoutineId)) (labels : List (List Char × Nat))
    (mnemonic : String) (operand : Option Operand) : Except Problem Op :=
  match plain.lookup mnemonic with
  | some op =>
      match operand with
      | none => .ok op
      | some _ => .error (.takesNoOperand mnemonic)
  | none =>
      if mnemonic = "push" then (literal operand).map .push
      else if mnemonic = "jump" then (target labels mnemonic operand).map .jump
      else if mnemonic = "jump_if" then (target labels mnemonic operand).map .jumpIf
      else if mnemonic = "catch" then (target labels mnemonic operand).map .catchAt
      else if mnemonic = "native" then (routine natives operand).map .native
      else .error (.unknownInstruction mnemonic)

/-! ### Procedures and sources -/

/-- The labels of a procedure with the index of the instruction behind each, from the `index`-th
instruction on. `known` holds those in front. -/
def labelsFrom (procedure : String) (known : List (List Char × Nat)) (index : Nat) :
    List Line → Except (Problem × Span) (List (List Char × Nat))
  | [] => .ok known
  | .instr _ _ _ :: rest => labelsFrom procedure known (index + 1) rest
  | .label name span :: rest =>
      if (known.lookup name).isSome then
        .error (.duplicateLabel (String.ofList name) procedure, span)
      else labelsFrom procedure ((name, index) :: known) index rest

def codeOf (natives : List (String × RoutineId)) (labels : List (List Char × Nat)) :
    List Line → Except (Problem × Span) (List Op)
  | [] => .ok []
  | .label _ _ :: rest => codeOf natives labels rest
  | .instr mnemonic operand span :: rest =>
      match instruction natives labels (String.ofList mnemonic) operand with
      | .error e => .error (e, span)
      | .ok op => (codeOf natives labels rest).map (op :: ·)

def Listing.program (natives : List (String × RoutineId)) (l : Listing) :
    Except (Problem × Span) Program :=
  let name := String.ofList l.name
  match labelsFrom name [] 0 l.lines with
  | .error e => .error e
  | .ok labels => (codeOf natives labels l.lines).map fun code => { name, code }

/-- The programs of several procedures; `before` holds the names of those in front. -/
def programsFrom (natives : List (String × RoutineId)) (before : List String) :
    List Listing → Except (Problem × Span) (List Program)
  | [] => .ok []
  | l :: rest =>
      match l.program natives with
      | .error e => .error e
      | .ok p =>
          if before.contains p.name then .error (.duplicateProcedure p.name, l.span)
          else (programsFrom natives (p.name :: before) rest).map (p :: ·)

/-- Assembles every procedure of a source. `natives` gives the numbers of symbolic routines. -/
def assemble (natives : List (String × RoutineId)) (source : String) :
    Except AssemblyError (List Program) :=
  match Listing.read source.toList with
  | .error e => .error (.grammar e)
  | .ok listings =>
      match programsFrom natives [] listings with
      | .error (problem, span) => .error (.build problem span)
      | .ok ps => .ok ps

end Reentrant.Assembly
