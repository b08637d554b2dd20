import Reentrant.CommandLine.Arguments
import Reentrant.Execution
import Reentrant.Json.Codec
import Reentrant.Settings.Load
import Reentrant.Settings.Toml.Writer

/-! What the commands do: what they print, and how they fail. -/

namespace Reentrant.CommandLine

inductive CommandError where
  | settings (e : Settings.LoadError)
  | file (path : String) (e : FileError)
  | execution (e : ExecutionError)
  | assembly (e : Assembly.AssemblyError)
  | faulted (entry : String) (steps : Nat) (f : Fault)
  | problems (count : Nat) (path : String)
  /-- A setting is too large to be written. -/
  | unwritable

/-- The message with every cause behind it. -/
def CommandError.message : CommandError → String
  | .settings e => e.message
  | .file path e => "Failed to read " ++ path ++ ": " ++ e.message
  | .execution e => e.message
  | .assembly e => e.fullMessage
  | .faulted entry steps f =>
      "`" ++ entry ++ "` faulted after " ++ Decimal.text steps ++ " steps: " ++ f.display
  | .problems count path => Decimal.text count ++ " problem(s) in " ++ path
  | .unwritable => "Failed to serialize configuration: out-of-range value for u64 type"

/-- What a command leaves: the text it printed, also before it failed. -/
structure Result where
  output : String := ""
  error : Option CommandError := none

namespace Result

def failed (e : CommandError) : Result := { error := some e }

end Result

def lines (ls : List String) : String := String.join (ls.map (· ++ "\n"))

/-! ### Running -/

/-- The lines behind a run: the journal, if it is kept, and the value that was returned. -/
def reportLines (settings : Settings) (r : Report) : List String :=
  (if settings.journal then r.events.map JsonData.text else []) ++
    match r.outcome with
    | .returned (some v) => [v.display]
    | _ => []

def runError? (entry : String) (r : Report) : Option CommandError :=
  match r.outcome with
  | .faulted f => some (.faulted entry r.steps f)
  | .returned _ => none

/-- Runs a procedure of a source, at most `fuel` steps of it. -/
def run (source entry : String) (settings : Settings) (fuel : Nat) : Result :=
  let (r, printed) := Execution.execute source entry settings fuel
  let printed := printed.map Value.display
  match r with
  | .error e => { output := lines printed, error := some (.execution e) }
  | .ok r => { output := lines (printed ++ reportLines settings r), error := runError? entry r }

/-! ### Checking -/

def finding (f : Assembly.Finding) : Json :=
  .ofMembers [("program", .string f.program), ("index", .int f.index), ("message", .string f.flaw.message)]

def findingLines (path : String) (json : Bool) (fs : List Assembly.Finding) : List String :=
  if json then [(Json.ofList (fs.map finding)).pretty]
  else if fs.isEmpty then ["✓ " ++ path]
  else fs.map Assembly.Finding.display

def check (path source : String) (json : Bool) : Result :=
  match Execution.check source with
  | .error e => .failed (.assembly e)
  | .ok fs =>
      { output := lines (findingLines path json fs)
        error := if fs.isEmpty then none else some (.problems fs.length path) }

/-! ### Listing -/

/-- A text with blanks behind it, up to a width. -/
def padded (width : Nat) (s : String) : String :=
  s ++ String.ofList (List.replicate (width - s.length) ' ')

def modeName : Mode → String
  | .sync => "Sync"
  | .suspending => "Suspending"

def routineLine (d : Descriptor) : String :=
  "  #" ++ padded 3 (Decimal.text d.id.toNat) ++ " " ++ padded 16 d.name ++ " (" ++
    ", ".intercalate d.params ++ ") " ++ modeName d.mode

/-- The built-in routines. -/
def routines : Result := { output := lines (Builtin.registry.descriptors.map routineLine) }

def config (settings : Settings) : Result :=
  match Settings.Toml.write? settings with
  | some text => { output := text }
  | none => .failed .unwritable

/-! ### Commands -/

/-- What a command asks of the settings. -/
def Invocation.request (i : Invocation) : Settings.Request :=
  { path := i.config
    journal := match i.command with
      | .run _ _ true => some true
      | _ => none }

/-- Does something with the source in a file. -/
def withSource {m : Type → Type} [Monad m] (files : Files m) (path : String)
    (f : String → Result) : m Result := do
  match ← files path with
  | .ok source => return f source
  | .error e => return .failed (.file path e)

/-- Performs a command. The settings are loaded first, whatever the command. -/
def perform {m : Type → Type} [Monad m] (files : Files m) (vs : Settings.Variables) (fuel : Nat)
    (i : Invocation) : m Result := do
  match ← Settings.load files vs i.request with
  | .error e => return .failed (.settings e)
  | .ok settings =>
      match i.command with
      | .run path entry _ => withSource files path fun source => run source entry settings fuel
      | .check path json => withSource files path fun source => check path source json
      | .routines => return routines
      | .config => return config settings

end Reentrant.CommandLine
