/-
# Making a suite

A suite is made from its configuration in a fixed order. The narrow table and
its data file come first, then the scenarios on it; then the wide table and
its data file, then the scenario that inserts into it. The other scenarios
query the table as that one leaves it; their windows are drawn from the
keystream that the table came from, all of them before the first of these
scenarios is evaluated. A sweep adds the first two scenarios for every size
above the high threshold, each in a directory of its own. The manifest
is written last.

A scenario that has no window or cannot be evaluated is recorded with its
fault and has no files; the others are made all the same. A refused action
ends the whole.

Key definitions: `Outcome`, `conduct`, `planned`, `generate`, `run`.
-/
import Columnar.Disk
import Columnar.Scenario.Narrow
import Columnar.Scenario.Wide
import Columnar.Suite.Manifest

namespace Columnar
namespace Suite

/-! ### Files -/

/-- The common part of the names of a scenario's two files. -/
def stem (number : Nat) : String := "test" ++ zeroPadded 2 number ++ "gen"

def scriptPath (directory : String) (number : Nat) : String :=
  joinPath directory (stem number ++ ".dsl")

def expectedPath (directory : String) (number : Nat) : String :=
  joinPath directory (stem number ++ ".exp")

def manifestPath (directory : String) : String := joinPath directory "manifest.json"

/-- Writes the script and the output to expect. -/
def pair (directory : String) (s : Scenario) (expected : String) : List Action :=
  [.write (scriptPath directory s.heading.number) s.script,
   .write (expectedPath directory s.heading.number) expected]

/-- Writes a data file. -/
def dataFile (directory file : String) (t : Table) : Action :=
  .write (joinPath directory file) t.csv

/-! ### Scenarios -/

/-- The record of a scenario, its files and the tables it leaves. -/
structure Outcome where
  record : Record
  actions : List Action
  after : Option Catalog

/-- Evaluates a scenario on a catalog. -/
def conduct (directory : String) (catalog : Catalog) (s : Scenario) : Outcome :=
  match s.evaluate catalog with
  | .ok (expected, after) =>
    ⟨⟨s.heading, directory, s.windows, none⟩, pair directory s expected, some after⟩
  | .error fault => ⟨⟨s.heading, directory, s.windows, some fault⟩, [], none⟩

/-- A scenario to come; it may lack a window. -/
structure Planned where
  heading : Heading
  scenario : Except Fault Scenario

/-- Evaluates a scenario on a catalog, if there is one. -/
def Planned.conduct (directory : String) (catalog : Catalog) (p : Planned) : Outcome :=
  match p.scenario with
  | .ok s => Suite.conduct directory catalog s
  | .error fault => ⟨⟨p.heading, directory, [], some fault⟩, [], none⟩

/-- The share of the table that the sum is taken over. -/
def summationShare : Binary64 := Binary64.ofRatio false (8 * Magnitude.one) 10

/-- The share of the table in which least and greatest values are sought. -/
def leastGreatestShare : Binary64 := Binary64.ofRatio false Magnitude.one 10

/-- The share that each of two windows keeps, the square root of one tenth. -/
def conjunctionShare : Binary64 :=
  Binary64.ofRatio false (31622776601683794 * Magnitude.one) 100000000000000000

/-- The width of the windows for elementwise arithmetic. -/
def arithmeticWidth : Int64 := 20

/-- A window of a width on the wide table. -/
def sampled (rows : Nat) (width : Int64) : Draw Window := Window.sample uniform rows width

/-- The scenarios on the wide table, their windows drawn in this order. -/
def plannedFrom (summation arithmetic leastGreatest conjunction : Draw Window) (k : Keystream) :
    List Planned :=
  let (w₅, k) := summation.run k
  let (w₆, k) := arithmetic.run k
  let (w₇, k) := arithmetic.run k
  let (w₈, k) := leastGreatest.run k
  let (first, k) := conjunction.run k
  let (second, _) := conjunction.run k
  [⟨Scenario.summationHeading, w₅.map Scenario.summation⟩,
   ⟨Scenario.additionHeading, w₆.map Scenario.addition⟩,
   ⟨Scenario.subtractionHeading, w₇.map Scenario.subtraction⟩,
   ⟨Scenario.leastGreatestHeading, w₈.map Scenario.leastGreatest⟩,
   ⟨Scenario.conjunctionHeading, do return Scenario.conjunction (← first) (← second)⟩]

/-- The scenarios on the wide table of the given size. -/
def planned (rows : Nat) (k : Keystream) : List Planned :=
  plannedFrom (sampled rows (widthFor rows summationShare)) (sampled rows arithmeticWidth)
    (sampled rows (widthFor rows leastGreatestShare))
    (sampled rows (widthFor rows conjunctionShare)) k

/-! ### The whole -/

def narrowScenarios (c : Config) : List Scenario :=
  [Scenario.loadNarrow c.dataDirectory, Scenario.selectFetch c.queries false,
   Scenario.averageWindow]

/-- The scenarios of the sweep for one size, in the size's directory. -/
def sweepScenarios (c : Config) (directory : String) : List Scenario :=
  [Scenario.loadNarrow directory, Scenario.selectFetch c.queries true]

/-- The actions of the outcomes; their result is the records. -/
def Outcome.carry (outcomes : List Outcome) : Plan (List Record) := do
  Plan.act (outcomes.flatMap Outcome.actions)
  return outcomes.map Outcome.record

/-- One size of the sweep; one that is not above the high threshold is left out. -/
def sweepSize (c : Config) (s : Sweep) (size : Nat) : Plan (List Record) :=
  if size ≤ Scenario.highThreshold.toInt.toNat then return []
  else do
    let directory := s.directory size
    Plan.act [.makeDirectory directory]
    let table ← Plan.given (Fixture.narrow size c.narrowSeed)
    Plan.act [dataFile directory Fixture.narrowFile table]
    let catalog := Catalog.empty.register table
    Outcome.carry ((sweepScenarios c directory).map (conduct directory catalog))

/-- The sizes of a sweep, one after another. -/
def sweepSizes (c : Config) (s : Sweep) : List Nat → Plan (List Record)
  | [] => return []
  | size :: sizes => do
    let records ← sweepSize c s size
    let others ← sweepSizes c s sizes
    return records ++ others

/-- The sweep, if one is wanted. -/
def sweepAll (c : Config) : Plan (List Record) :=
  match c.sweep with
  | some s => sweepSizes c s s.sizes
  | none => return []

/-- The scenarios in the directory of the suite itself. -/
def mainPart (c : Config) : Plan (List Record) := do
  let directory := c.outputDirectory
  Plan.act [.makeDirectory directory]
  let narrow ← Plan.given (Fixture.narrow c.narrowRows c.narrowSeed)
  Plan.act [dataFile directory Fixture.narrowFile narrow]
  let catalog := Catalog.empty.register narrow
  let first ← Outcome.carry ((narrowScenarios c).map (conduct directory catalog))
  let (drawn, k) := (Fixture.wide c.wideRows).run (Keystream.ofSeed c.seed)
  let wide ← Plan.given drawn
  Plan.act [dataFile directory Fixture.wideFile wide]
  let catalog := catalog.register wide
  let loading := conduct directory catalog (Scenario.loadWide c.dataDirectory)
  let fourth ← Outcome.carry [loading]
  let catalog := loading.after.getD catalog
  let others ← Outcome.carry ((planned c.wideRows k).map (Planned.conduct directory catalog))
  return first ++ fourth ++ others

/-- All that is to be done for a suite, and its manifest. -/
def generate (c : Config) : Plan Manifest := do
  let records ← mainPart c
  let swept ← sweepAll c
  let manifest : Manifest := ⟨c, records ++ swept⟩
  Plan.act [.write (manifestPath c.outputDirectory) manifest.text]
  return manifest

/-- Why there is no suite. A manifest that cannot be written out as text is not
among the reasons: this could happen only to a path that is no text, and all paths
of a configuration are. -/
inductive Halt where
  | fault (f : Fault)
  | refused

/-- Makes a suite on a disk: its manifest, or what stopped it, and the disk
at the end. -/
def run (c : Config) (d : Disk) : Except Halt Manifest × Disk :=
  match c.validate with
  | .error f => (.error (.fault f), d)
  | .ok () =>
    let plan := generate c
    match d.performAll plan.actions with
    | (true, d) => (plan.result.mapError .fault, d)
    | (false, d) => (.error .refused, d)

end Suite
end Columnar
