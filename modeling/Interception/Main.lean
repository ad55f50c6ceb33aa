/-
The command line as a program.
-/
import Interception.CommandLine.Run

open Interception.CommandLine

/-- Read the surroundings, carry out the command line, print and exit. -/
def main (args : List String) : IO UInt32 := do
  let names := ["NO_COLOR", "TERM", "INTERPOSE_LOG"]
  let values ← names.mapM fun name => return (name, ← IO.getEnv name)
  let env : Environment :=
    { platform := "linux (x86_64)"
      lookup := fun name => (values.lookup name).join }
  let result := run env args
  IO.print result.output
  IO.eprint result.complaint
  return result.code.toUInt32
