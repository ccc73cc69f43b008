/-
# The manifest of a suite

A record for every scenario in the order in which they were made: heading,
directory, windows, and the fault if there is no such scenario or it cannot
be evaluated. The manifest is the configuration with the records.

Key definitions: `Record`, `Manifest`, `Manifest.failures`, `Manifest.text`.
-/
import Columnar.Scenario
import Columnar.Suite.Config

namespace Columnar
namespace Suite

/-- What became of a scenario. -/
structure Record where
  heading : Heading
  directory : String
  windows : List Window
  fault : Option Fault
deriving DecidableEq

/-- What a suite consists of. -/
structure Manifest where
  config : Config
  records : List Record
deriving DecidableEq

def windowJson (w : Window) : Json :=
  .object [("low", .number w.low.toInt), ("high", .number w.high.toInt)]

def Record.json (r : Record) : Json :=
  .object
    ([("number", .number r.heading.number),
      ("title", .text r.heading.title),
      ("directory", .text r.directory),
      ("ranges", .array (r.windows.map windowJson))] ++
     match r.fault with
     | none => [("status", .text "ok")]
     | some fault => [("status", .text "failed"), ("error", .text fault.message)])

namespace Manifest

/-- The scenarios that are missing, each with the fault. -/
def failures (m : Manifest) : List (Heading × Fault) :=
  m.records.filterMap fun r => r.fault.map fun fault => (r.heading, fault)

def json (m : Manifest) : Json :=
  .object [("config", m.config.json), ("cases", .array (m.records.map Record.json))]

/-- The manifest file. -/
def text (m : Manifest) : String := m.json.pretty ++ "\n"

end Manifest
end Suite
end Columnar
