import Reentrant.Files
import Reentrant.Settings.Ini
import Reentrant.Settings.Json
import Reentrant.Settings.Json5
import Reentrant.Settings.Ron
import Reentrant.Settings.Toml.Document
import Reentrant.Settings.VariableFile
import Reentrant.Settings.Yaml.Node

/-!
Where settings come from. A file gives them first and variables after it; before either, the file
`.env` may add variables. A file that is asked for by name has to be there, the one in the working
directory need not be.
-/

namespace Reentrant.Settings

inductive LoadError where
  /-- The file is not there or is not in its format. -/
  | unreadable
  /-- A value does not fit its setting. -/
  | invalid
  | noFrames
  deriving DecidableEq

def LoadError.message : LoadError → String
  | .unreadable => "Failed to load configuration"
  | .invalid => "Invalid configuration"
  | .noFrames => "vm.max_frames must be at least 1"

/-- What the caller asks for: a file, and whether the journal is kept. -/
structure Request where
  path : Option String := none
  journal : Option Bool := none

/-! ### Files -/

/-- How a file is written. -/
inductive Format where
  | toml
  | json
  | yaml
  | ini
  | ron
  | json5
  deriving DecidableEq

namespace Format

def all : List Format := [.toml, .json, .yaml, .ini, .ron, .json5]

/-- What the names of such files end in, behind a period. -/
def extensions : Format → List String
  | .toml => ["toml"]
  | .json => ["json"]
  | .yaml => ["yaml", "yml"]
  | .ini => ["ini"]
  | .ron => ["ron"]
  | .json5 => ["json5"]

def ofExtension? (e : String) : Option Format := all.find? fun f => f.extensions.contains e

def read? : Format → String → Option (List (String × Tree))
  | .toml => Toml.read?
  | .json => JsonText.read?
  | .yaml => Yaml.read?
  | .ini => Ini.read?
  | .ron => Ron.read?
  | .json5 => Json5.read?

end Format

/-- The extension of a file's name: what is behind its last period, unless that is where the name
begins. -/
def extension? (path : String) : Option String :=
  let name := (path.toList.reverse.takeWhile (· ≠ '/'))
  let behind := name.takeWhile (· ≠ '.')
  if behind.length + 1 < name.length then some (String.ofList behind.reverse) else none

def findFirst? {m : Type → Type} [Monad m] (files : Files m) :
    List (String × Format) → m (Option (String × Format))
  | [] => return none
  | (path, format) :: rest => do
      match ← files.text? path with
      | some text => return some (text, format)
      | none => findFirst? files rest

/-- A path up to the name at its end, without the slashes and single periods behind it. A path that
leads upwards at its end has no name there. -/
def upToName? (path : String) : Option String :=
  match (path.splitOn "/").reverse.dropWhile fun part => part = "" ∨ part = "." with
  | [] => none
  | ".." :: _ => none
  | parts => some ("/".intercalate parts.reverse)

def candidates (path : String) (formats : List Format) : List (String × Format) :=
  match upToName? path with
  | none => []
  | some path => formats.flatMap fun f => f.extensions.map fun e => (path ++ "." ++ e, f)

/-- The text and the format of a file that is asked for. If it is not there, its name may lack the
extension. -/
def findFile? {m : Type → Type} [Monad m] (files : Files m) (path : String) :
    m (Option (String × Format)) := do
  match ← files.text? path with
  | some text =>
      return ((extension? path).bind Format.ofExtension?).map fun f => (text, f)
  | none => findFirst? files (candidates path Format.all)

/-- The file in the working directory. -/
def defaultFile : String := "rebound.toml"

/-- What files say, or nothing if there is none. -/
def fileEntries {m : Type → Type} [Monad m] (files : Files m) (path : Option String) :
    m (Option (List (String × Tree))) := do
  match path with
  | some path =>
      match ← findFile? files path with
      | some (text, format) => return format.read? text
      | none => return none
  | none =>
      match ← findFirst? files ((defaultFile, .toml) :: candidates defaultFile [.toml]) with
      | some (text, format) => return format.read? text
      | none => return some []

/-! ### Loading -/

def variableFile : String := ".env"

/-- The settings that files and variables come to. -/
def combine (request : Request) (vs : Variables) (fileEntries : List (String × Tree)) :
    Except LoadError Settings :=
  let es := Tree.addAll vs.entries (Tree.addAll fileEntries [])
  match Tree.settings? es with
  | none => .error .invalid
  | some s =>
      if s.limits.maxFrames = 0 then .error .noFrames
      else .ok { s with journal := request.journal.getD s.journal }

def load {m : Type → Type} [Monad m] (files : Files m) (vs : Variables) (request : Request) :
    m (Except LoadError Settings) := do
  let vs := match ← files.text? variableFile with
    | some text => VariableFile.extend text vs
    | none => vs
  match ← fileEntries files (request.path.or (vs.lookup Variables.fileVariable)) with
  | none => return .error .unreadable
  | some es => return combine request vs es

end Reentrant.Settings
