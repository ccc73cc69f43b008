/-
# The program

Reads the command line, makes the suite and carries its actions out on the
file system.

Key definitions: `main`.
-/
import Columnar.CommandLine

namespace Columnar
namespace Program

def usage : String :=
  "usage: columnar ROWS [SEED [OUTPUT_DIR [SCRIPT_DATA_DIR]]] [-q N] [-e] [--experiment-dir DIR]"

/-- Makes one directory in another, unless something is there already; a file
there refuses the next action. -/
def makeOne (path : String) : IO Unit :=
  tryCatch (IO.FS.createDir path) fun
    | .alreadyExists .. => return
    | e => throw e

/-- Carries an action out on the file system. -/
def carry : Action → IO Unit
  | .makeDirectory path => if path = "" then pure () else (stages path).forM makeOne
  | .write path content => IO.FS.writeFile path content

/-- Carries actions out up to the first that fails. -/
def carryAll (actions : List Action) : IO Unit := actions.forM carry

/-- Makes the suite of a request on the file system. -/
def make (r : CommandLine.Request) : IO CommandLine.Report := do
  match r.config.validate with
  | .error f => return CommandLine.report r (.error (.fault f))
  | .ok () =>
    let plan := Suite.generate r.config
    try
      carryAll plan.actions
      return CommandLine.report r (plan.result.mapError .fault)
    catch e =>
      return CommandLine.failure r ["I/O error: " ++ toString e, toString e]

end Program
end Columnar

def main (args : List String) : IO UInt32 := do
  match Columnar.CommandLine.parse args with
  | none =>
    IO.eprintln Columnar.Program.usage
    return 2
  | some r =>
    let report ← Columnar.Program.make r
    IO.print report.output
    IO.eprint report.errors
    return UInt32.ofNat report.code
