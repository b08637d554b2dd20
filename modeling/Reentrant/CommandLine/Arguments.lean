/-!
The arguments of the command line. There are options before the command and behind it, a command, and
the file some commands work on. Reading stops at the first argument that is wrong; some mistakes, such
as an option that is given twice, show only when the next argument is taken up.
-/

namespace Reentrant.CommandLine

/-- Why arguments are refused, or answered with help. -/
inductive UsageError where
  | help
  /-- There are no arguments. -/
  | helpForNothing
  | missingCommand
  | unknownCommand
  | unknownArgument
  | missingArgument
  | invalidValue
  | repeated
  /-- A value for an option that takes none. -/
  | unwantedValue
  deriving DecidableEq

inductive Command where
  | run (file entry : String) (journal : Bool)
  | check (file : String) (json : Bool)
  | routines
  | config
  deriving DecidableEq

/-- A command and the file of settings that is asked for. -/
structure Invocation where
  command : Command
  config : Option String := none
  deriving DecidableEq

/-! ### What can be given -/

/-- An option or a file, with its value. -/
structure Parameter where
  name : String
  short : Option Char := none
  takesValue : Bool := true
  /-- Whether the value may be the empty text. A path may not. -/
  mayBeEmpty : Bool := false

/-- The file of settings, on every level. -/
def configOption : Parameter := { name := "config" }

def fileArgument : Parameter := { name := "file" }

def entryOption : Parameter := { name := "entry", short := some 'e', mayBeEmpty := true }

def journalOption : Parameter := { name := "journal", takesValue := false }

def jsonOption : Parameter := { name := "json", takesValue := false }

inductive Verb where
  | run
  | check
  | routines
  | config
  deriving DecidableEq

namespace Verb

def all : List Verb := [.run, .check, .routines, .config]

def name : Verb → String
  | .run => "run"
  | .check => "check"
  | .routines => "routines"
  | .config => "config"

def ofName? (s : String) : Option Verb := all.find? fun v => v.name = s

def options : Verb → List Parameter
  | .run => [configOption, entryOption, journalOption]
  | .check => [configOption, jsonOption]
  | _ => [configOption]

def takesFile : Verb → Bool
  | .run => true
  | .check => true
  | _ => false

end Verb

/-- The word that asks for help about a command. -/
def helpWord : String := "help"

/-- Where arguments are read: before the command or behind it. -/
inductive Level where
  | outer
  | inner (v : Verb)

namespace Level

def options : Level → List Parameter
  | .outer => [configOption]
  | .inner v => v.options

def takesFile : Level → Bool
  | .outer => false
  | .inner v => v.takesFile

def isCommand : Level → String → Bool
  | .outer, s => s == helpWord || (Verb.ofName? s).isSome
  | .inner _, _ => false

end Level

/-! ### Reading a level -/

/-- What has been read on a level. An argument is pending until the next one is taken up; an option
may still wait for its value. -/
structure Reading where
  values : List (String × String) := []
  pending : Option (Parameter × Option String) := none
  /-- Whether the next argument is the value of the pending option. -/
  waits : Bool := false
  /-- Whether the file has been given. -/
  hasFile : Bool := false
  /-- Whether only files may follow. -/
  onlyFiles : Bool := false

namespace Reading

/-- Takes a value over, once. -/
def accept (r : Reading) (p : Parameter) (value : String) : Except UsageError Reading :=
  if (r.values.lookup p.name).isSome then .error .repeated
  else if p.takesValue ∧ value.isEmpty ∧ !p.mayBeEmpty then .error .invalidValue
  else .ok { r with values := r.values ++ [(p.name, value)] }

/-- Takes over what is pending. -/
def settle (r : Reading) : Except UsageError Reading :=
  match r.pending with
  | none => .ok r
  | some (_, none) => .error .invalidValue
  | some (p, some value) => accept { r with pending := none, waits := false } p value

/-- An option with the value that is attached to it, or without one. -/
def option (r : Reading) (p : Parameter) (attached : Option String) : Except UsageError Reading :=
  match p.takesValue, attached with
  | false, some _ => .error .unwantedValue
  | false, none => do ({ ← r.settle with waits := false }).accept p ""
  | true, some value => do ({ ← r.settle with waits := false }).accept p value
  | true, none => do return { ← r.settle with pending := some (p, none), waits := true }

/-- Help, unless what is pending is wrong. -/
def help (r : Reading) : Except UsageError Reading := do
  let _ ← r.settle
  .error .help

/-- An option by its long name. -/
def long (r : Reading) (level : Level) (cs : List Char) : Except UsageError Reading :=
  let name := String.ofList (cs.takeWhile (· ≠ '='))
  let attached := match cs.dropWhile (· ≠ '=') with
    | _ :: value => some (String.ofList value)
    | [] => none
  if name = helpWord then if attached.isSome then .error .unwantedValue else r.help
  else
    match level.options.find? fun p => p.name = name with
    | some p => r.option p attached
    | none => .error .unknownArgument

/-- Options by single letters. One that takes a value takes the letters behind it. -/
def short (r : Reading) (level : Level) : List Char → Except UsageError Reading
  | [] => .ok r
  | c :: cs =>
      if c = 'h' then r.help
      else
        match level.options.find? fun p => p.short = some c with
        | none => .error .unknownArgument
        | some p =>
            if p.takesValue then
              match cs with
              | [] => r.option p none
              | '=' :: value => r.option p (some (String.ofList value))
              | value => r.option p (some (String.ofList value))
            else do short (← r.option p none) level cs

/-- An argument that is no option: the file, once. -/
def plain (r : Reading) (level : Level) (argument : String) : Except UsageError Reading :=
  match level with
  | .outer =>
      if r.onlyFiles ∧ level.isCommand argument then .error .unknownArgument
      else .error .unknownCommand
  | .inner v =>
      if v.takesFile ∧ !r.hasFile then do
        return { ← r.settle with pending := some (fileArgument, some argument), hasFile := true }
      else .error .unknownArgument

/-- An argument that is no command. -/
def take (r : Reading) (level : Level) (argument : String) : Except UsageError Reading :=
  if r.onlyFiles then r.plain level argument
  else
    match argument.toList with
    | ['-', '-'] => .ok { r with onlyFiles := true }
    | '-' :: '-' :: cs => r.long level cs
    | '-' :: c :: cs => r.short level (c :: cs)
    | _ =>
        match r.pending, r.waits with
        | some (p, none), true =>
            .ok { r with pending := some (p, some argument), waits := false }
        | _, _ => r.plain level argument

/-- Reads the arguments of a level up to a command. What is pending at its end stays so. -/
def run (level : Level) : Reading → List String → Except UsageError (Reading × Option (String × List String))
  | r, [] => .ok (r, none)
  | r, a :: rest =>
      if !r.onlyFiles && !r.waits && level.isCommand a then .ok (r, some (a, rest))
      else
        match r.take level a with
        | .error e => .error e
        | .ok r => run level r rest

def value? (r : Reading) (p : Parameter) : Option String := r.values.lookup p.name

def has (r : Reading) (p : Parameter) : Bool := (r.value? p).isSome

end Reading

/-! ### Reading everything -/

/-- The procedure that is run if none is named. -/
def defaultEntry : String := "main"

/-- The command that the arguments behind a verb make. -/
def command (v : Verb) (r : Reading) : Except UsageError Command :=
  match v, r.value? fileArgument with
  | .routines, _ => .ok .routines
  | .config, _ => .ok .config
  | .run, some file =>
      .ok (.run file ((r.value? entryOption).getD defaultEntry) (r.has journalOption))
  | .check, some file => .ok (.check file (r.has jsonOption))
  | _, none => .error .missingArgument

def helpAbout : List String → UsageError
  | [] => .help
  | [a] => if Level.outer.isCommand a then .help else .unknownCommand
  | _ => .unknownCommand

/-- Reads the arguments behind a command. Its own file of settings goes before the outer one. -/
def invocation (v : Verb) (arguments : List String) : Except UsageError (Reading × Command) := do
  let (r, _) ← Reading.run (.inner v) {} arguments
  let r ← r.settle
  return (r, ← command v r)

def parse (arguments : List String) : Except UsageError Invocation := do
  match ← Reading.run .outer {} arguments with
  | (outer, some (name, rest)) =>
      match Verb.ofName? name with
      | none => .error (helpAbout rest)
      | some v =>
          let (inner, command) ← invocation v rest
          let outer ← outer.settle
          return { command, config := (inner.value? configOption).or (outer.value? configOption) }
  | (outer, none) =>
      let outer ← outer.settle
      .error (if outer.values.isEmpty then .helpForNothing else .missingCommand)

end Reentrant.CommandLine
