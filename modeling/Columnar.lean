import Columnar.Aggregate
import Columnar.Binary64
import Columnar.Binary64.Bits
import Columnar.Binary64.Text
import Columnar.Catalog
import Columnar.Command
import Columnar.Command.Text
import Columnar.CommandLine
import Columnar.Decimal
import Columnar.Disk
import Columnar.Disk.Path
import Columnar.Elementwise
import Columnar.Fault
import Columnar.Fixture
import Columnar.Json
import Columnar.Main
import Columnar.Operation
import Columnar.PositionSet
import Columnar.Print
import Columnar.Proofs.Answers
import Columnar.Proofs.AnyValues
import Columnar.Proofs.Atomicity
import Columnar.Proofs.Averages
import Columnar.Proofs.Bounds
import Columnar.Proofs.Building
import Columnar.Proofs.Chaining
import Columnar.Proofs.Commuting
import Columnar.Proofs.Continuation
import Columnar.Proofs.DataFile
import Columnar.Proofs.Dependence
import Columnar.Proofs.Draws
import Columnar.Proofs.Elementwise
import Columnar.Proofs.Endings
import Columnar.Proofs.Extremes
import Columnar.Proofs.Faults
import Columnar.Proofs.Fetch
import Columnar.Proofs.Figures
import Columnar.Proofs.Files
import Columnar.Proofs.Fixtures
import Columnar.Proofs.Frame
import Columnar.Proofs.Growth
import Columnar.Proofs.Halves
import Columnar.Proofs.Hazards
import Columnar.Proofs.History
import Columnar.Proofs.Intersection
import Columnar.Proofs.Loading
import Columnar.Proofs.Lookup
import Columnar.Proofs.Making
import Columnar.Proofs.Matrix
import Columnar.Proofs.Means
import Columnar.Proofs.NarrowRows
import Columnar.Proofs.Narrowing
import Columnar.Proofs.Order
import Columnar.Proofs.Overflow
import Columnar.Proofs.Printing
import Columnar.Proofs.Reading
import Columnar.Proofs.Records
import Columnar.Proofs.Reordering
import Columnar.Proofs.Resolution
import Columnar.Proofs.Rounding
import Columnar.Proofs.RowWise
import Columnar.Proofs.Rows
import Columnar.Proofs.Samplers
import Columnar.Proofs.Sampling
import Columnar.Proofs.Scenarios
import Columnar.Proofs.Shapes
import Columnar.Proofs.SingleAssignment
import Columnar.Proofs.Soundness
import Columnar.Proofs.Staleness
import Columnar.Proofs.Step
import Columnar.Proofs.Storage
import Columnar.Proofs.Sums
import Columnar.Proofs.Sweep
import Columnar.Proofs.Thresholds
import Columnar.Proofs.Tiling
import Columnar.Proofs.WideRows
import Columnar.Proofs.Words
import Columnar.QualifiedName
import Columnar.Random.Draw
import Columnar.Random.Keystream
import Columnar.Range
import Columnar.Rounding
import Columnar.Scenario
import Columnar.Scenario.Narrow
import Columnar.Scenario.Wide
import Columnar.Selection
import Columnar.Session
import Columnar.Suite
import Columnar.Suite.Config
import Columnar.Suite.Manifest
import Columnar.Table
import Columnar.Table.Csv
import Columnar.Value
import Columnar.Window
