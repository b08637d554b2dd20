/-!
Reading files. Whoever reads is given a function from paths to texts, in a monad of its own: the file
system of a machine, or a directory that is held in memory.
-/

namespace Reentrant

inductive FileError where
  | missing
  | isDirectory
  | notDirectory
  /-- The path or a name in it is too long. -/
  | tooLong
  /-- The path holds the character zero. -/
  | zeroInPath
  | other (message : String)
  deriving DecidableEq

def FileError.message : FileError → String
  | .missing => "No such file or directory (os error 2)"
  | .isDirectory => "Is a directory (os error 21)"
  | .notDirectory => "Not a directory (os error 20)"
  | .tooLong => "File name too long (os error 36)"
  | .zeroInPath => "file name contained an unexpected NUL byte"
  | .other message => message

abbrev Files (m : Type → Type) := String → m (Except FileError String)

def Files.text? {m : Type → Type} [Monad m] (files : Files m) (path : String) : m (Option String) := do
  return (← files path).toOption

/-- The files of a directory by their paths, which are relative to it. -/
abbrev Directory := List (String × String)

namespace Directory

/-- The parts of a path; empty ones do not count. -/
def parts (path : String) : List String := (path.splitOn "/").filter (· ≠ "")

def isDirectory (d : Directory) (place : List String) : Bool :=
  place.isEmpty || d.any fun (path, _) =>
    place.isPrefixOf (parts path) && place.length < (parts path).length

def file? (d : Directory) (place : List String) : Option String :=
  (d.find? fun (path, _) => parts path == place).map (·.2)

def nameLimit : Nat := 255

def pathLimit : Nat := 4095

/-- Goes down a path outside the directory, where nothing has a name. -/
def walkOutside : List String → Except FileError String
  | [] => .error .isDirectory
  | "." :: rest => walkOutside rest
  | ".." :: rest => walkOutside rest
  | part :: _ => .error (if nameLimit < part.utf8ByteSize then .tooLong else .missing)

/-- Goes down a path. `here` is the directory reached so far, innermost part first. -/
def walk (d : Directory) (here : List String) : List String → Except FileError String
  | [] => .error .isDirectory
  | "." :: rest => d.walk here rest
  | ".." :: rest =>
      match here with
      | _ :: above => d.walk above rest
      | [] => walkOutside rest
  | part :: rest =>
      let place := (part :: here).reverse
      if nameLimit < part.utf8ByteSize then .error .tooLong
      else
        match d.file? place with
        | some text => if rest.isEmpty then .ok text else .error .notDirectory
        | none => if d.isDirectory place then d.walk (part :: here) rest else .error .missing

/-- The device that is always empty. -/
def nullDevice : List String := ["dev", "null"]

/-- Reads the file at the end of a path. -/
def find (d : Directory) (path : String) : Except FileError String :=
  if path.isEmpty then .error .missing
  else if path.startsWith "/" then
    if parts path = nullDevice then .ok "" else walkOutside (parts path)
  else d.walk [] (parts path)

def read (d : Directory) : Files Id := fun path =>
  if path.contains (Char.ofNat 0) then .error .zeroInPath
  else if pathLimit < path.utf8ByteSize then .error .tooLong
  else
    match d.find path with
    | .ok text => if path.endsWith "/" then .error .notDirectory else .ok text
    | .error e => .error e

end Directory

end Reentrant
