import Offload.Cli.Help
import Offload.Cli.Run

/-!
# The program

Reads the arguments, the environment and the file with the settings, and prints what running the
command comes to after the time that it takes.
-/

namespace Offload.Cli

/-- Why the system cannot read a file. -/
def readFault : IO.Error → Option String
  | .noFileOrDirectory .. => some "No such file or directory (os error 2)"
  | .permissionDenied .. => some "Permission denied (os error 13)"
  | .inappropriateType .. => some "Is a directory (os error 21)"
  | _ => none

/-- The content of a file. -/
def readFile (path : String) : IO (Except (Option String) Wire.Bytes) := do
  try
    return .ok (← IO.FS.readBinFile path).toList
  catch e =>
    return .error (readFault e)

/-- The text of an environment variable. -/
def readVariable (name : String) : IO (Option String) :=
  IO.getEnv name

/-- The environment variables that override settings. -/
def readEnvironment : IO Settings.Environment := do
  let values ← [Settings.Variable.pollInterval, .gracePeriod, .killWait].mapM fun v => do
    return (v.name, ← readVariable v.name)
  return fun name => (values.lookup name).join

/-- Let some milliseconds pass. -/
def pass : Nat → IO Unit
  | 0 => return
  | n + 1 => do
    IO.sleep 1
    pass n

/-- Run a command, print its lines, and give its exit code. -/
def runCommand (config : Option String) (command : CommandName) (number : UInt64) :
    IO UInt32 := do
  let file ← config.mapM fun path => do return (path, ← readFile path)
  let result := command.execute number file (← readEnvironment)
  pass result.takes.millis
  IO.print (linesText Piece.shown result.lines)
  if let some fault := result.fault then
    IO.eprintln fault
  return UInt32.ofNat result.code

end Offload.Cli

open Offload Offload.Cli in
/-- The program. -/
def main (arguments : List String) : IO UInt32 := do
  let config ← readVariable configVariable
  match Request.ofArguments? arguments config with
  | none =>
    IO.eprint (Page.text config .program)
    return 2
  | some .version =>
    IO.print versionText
    return 0
  | some (.help page) =>
    IO.print (Page.text config page)
    return 0
  | some (.run config command number) => runCommand config command number
