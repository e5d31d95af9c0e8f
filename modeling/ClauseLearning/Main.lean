import ClauseLearning.CommandLine.Run

/-!
# The program

The arguments ask for a formula to solve, or for partial orders to count. The environment variable `INCSAT_LOG` says
which messages are shown, and a configuration file is read if the arguments name one.
-/

namespace ClauseLearning.CommandLine

/-- The contents of the configuration file that the arguments name, if it can be read. -/
def readConfigFile (arguments : List String) : IO (Option String) := do
  match Invocation.ofArguments? arguments with
  | some (.request { configFile := some path, .. }) =>
    try
      return some (← IO.FS.readFile path)
    catch _ =>
      return none
  | _ => return none

end ClauseLearning.CommandLine

open ClauseLearning.CommandLine in
def main (arguments : List String) : IO UInt32 := do
  let filter := filterOf (← IO.getEnv "INCSAT_LOG")
  let contents ← readConfigFile arguments
  let result := outcome (fun _ => contents) arguments
  for line in result.lines filter do
    IO.println line
  return UInt32.ofNat result.exitCode
