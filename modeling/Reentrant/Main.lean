import Reentrant.CommandLine.Commands

/-! The program: it reads files and arguments, has the library answer, and prints. -/

namespace Reentrant.Main

def readFile : Files IO := fun path => do
  try
    return .ok (← IO.FS.readFile path)
  catch e =>
    match e with
    | .noFileOrDirectory .. => return .error .missing
    | .inappropriateType .. => return .error .isDirectory
    | e => return .error (.other e.toString)

/-- The variables that the program looks at and that are set. Names are found in the two spellings
that are in use, capitals and small letters. -/
def settingVariables : IO Settings.Variables := do
  let names := ["CONFIG_PATH", "LOG__FILTER", "VM__MAX_FRAMES", "VM__MAX_STEPS", "BRIDGE__JOURNAL"]
  let names := names.map ("REBOUND_" ++ ·)
  let mut found := #[]
  for name in names ++ names.map String.toLower do
    match ← IO.getEnv name with
    | some text => found := found.push (name, text)
    | none => pure ()
  return found.toList

def usage : CommandLine.UsageError → String
  | .help => "usage: rebound [--config FILE] (run FILE | check FILE | routines | config)"
  | .helpForNothing => "error: there is nothing to do"
  | .missingCommand => "error: a command is missing"
  | .unknownCommand => "error: unknown command"
  | .unknownArgument => "error: unexpected argument"
  | .missingArgument => "error: an argument is missing"
  | .invalidValue => "error: a value is missing"
  | .repeated => "error: an option is given twice"
  | .unwantedValue => "error: an option takes no value"

/-- The exit status of arguments that are not used. Help that was asked for is a success. -/
def usageStatus : CommandLine.UsageError → UInt32
  | .help => 0
  | _ => 2

def report (r : CommandLine.Result) : IO UInt32 := do
  IO.print r.output
  match r.error with
  | none => return 0
  | some e =>
      IO.eprintln ("Error: " ++ e.message)
      return 1

end Reentrant.Main

open Reentrant

/-- Runs the program on its arguments. -/
def main (arguments : List String) : IO UInt32 := do
  match CommandLine.parse arguments with
  | .error e =>
      IO.eprintln (Main.usage e)
      return Main.usageStatus e
  | .ok i =>
      let result ← CommandLine.perform Main.readFile (← Main.settingVariables) Machine.stepsGiven i
      Main.report result
