import Bindery.CommandLine.Run

/-!
# The program

Runs the command line on the disk of the machine.
-/

namespace Bindery

/-- Whether an action ends without an error. -/
def succeeds (action : IO Unit) : IO Bool := do
  match ← action.toBaseIO with
  | .ok () => return true
  | .error _ => return false

instance : Disk IO where
  readFile path := do
    match ← (IO.FS.readFile path).toBaseIO with
    | .ok text => return some text
    | .error _ => return none
  writeFile path text := succeeds (IO.FS.writeFile path text)
  makeDirectory path := do
    match ← (IO.FS.createDir path).toBaseIO with
    | .ok () => return .made
    | .error (.noFileOrDirectory ..) => return .noParent
    | .error _ => return .refused
  isDirectory path := do
    match ← (IO.FS.realPath path).toBaseIO with
    | .ok resolved => resolved.isDir
    | .error _ => return false

end Bindery

open Bindery in
/-- Prints what a run leaves behind, the messages and the error apart from the output. -/
def main (arguments : List String) : IO UInt32 := do
  match ← (CommandLine.run arguments : IO (Option CommandLine.Report)) with
  | none =>
    IO.eprintln "error: the arguments do not make sense"
    return CommandLine.usageExitCode.toUInt32
  | some report =>
    for message in report.log do
      IO.eprintln ("[" ++ message.level.label ++ "] " ++ message.text)
    IO.print report.output
    if let some line := report.errorLine then IO.eprintln ("Error: " ++ line)
    return report.exitCode.toUInt32
