/-
# Scenarios

A scenario is a numbered and titled script. It is written out for the engine
under test and evaluated in a session of its own, which gives the output to
expect and the tables as the script leaves them. A scenario made from sampled
windows keeps them.

Key definitions: `Heading`, `Scenario`, `Scenario.script`,
`Scenario.evaluate`.
-/
import Columnar.Command.Text
import Columnar.Fixture
import Columnar.Session
import Columnar.Window

namespace Columnar

/-- The number and the title of a scenario. -/
structure Heading where
  number : Nat
  title : String
deriving DecidableEq

/-- A script with its heading and the windows it was made from. -/
structure Scenario where
  heading : Heading
  commands : List Command
  windows : List Window
deriving DecidableEq

namespace Scenario

/-- The script as text. -/
def script (s : Scenario) : String := scriptText s.commands

/-- The output to expect on a catalog, and the catalog afterwards. -/
def evaluate (s : Scenario) (catalog : Catalog) : Except Fault (String × Catalog) :=
  match (Session.start catalog).run s.commands with
  | (.ok output, last) => .ok (output, last.catalog)
  | (.error fault, _) => .error fault

/-- A comment without text. -/
def line : Command := .comment ""

/-- The commands that create and load a fixture table. -/
def creation (short : String) (columns : List String) (file dataDirectory : String) :
    List Command :=
  .createTable short Fixture.database columns.length ::
    columns.map (fun c => .createColumn c (qualify Fixture.database short)) ++
    [.load (dataDirectory ++ "/" ++ file)]

end Scenario
end Columnar
