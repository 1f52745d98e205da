import Lineage.Demo

/-!
# The program

Runs the demonstration with settings from the working directory and the
environment.
-/

namespace Lineage

/-- The configuration files in the working directory. -/
def readFiles : IO (List (String × String)) :=
  Settings.Format.all.filterMapM fun format => do
    let name := "breadcrumb." ++ format.extension
    try return some (format.extension, ← IO.FS.readFile name)
    catch _ => return none

/-- The name and the value of a variable, written with a sign of equality between
    them. -/
def splitVariable (entry : String) : String × String :=
  let cs := entry.toList
  (String.ofList (cs.takeWhile (· ≠ '=')), String.ofList ((cs.dropWhile (· ≠ '=')).drop 1))

/-- The variables of the environment, which the system lists with a null
    character after each. -/
def readVariables : IO (List (String × String)) := do
  try
    let text := (String.fromUTF8? (← IO.FS.readBinFile "/proc/self/environ")).getD ""
    return (text.splitOn "\x00").map splitVariable
  catch _ => return []

end Lineage

def main : IO UInt32 := do
  let outcome := Lineage.Demo.run (← Lineage.readFiles) (← Lineage.readVariables)
  IO.print outcome.output
  IO.eprint outcome.report
  return outcome.status
