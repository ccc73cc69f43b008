/-
# What can go wrong

Every failure of the library is one of these causes, with the facts of the
case. The wording is in one place, `Fault.message`. An empty selection, an
empty sum and an empty average are results and not faults.

Key definitions: `Fault`, `Fault.message`.
-/
import Columnar.Operation

namespace Columnar

/-- What a command needs a variable to hold. -/
inductive Expected where
  | positions | vector | printable
deriving DecidableEq

def Expected.describe : Expected → String
  | positions => "position set"
  | vector => "value vector"
  | printable => "printable result"

/-- The cause of a failure. -/
inductive Fault where
  /-- A position past the end of a column of `rows` rows. -/
  | positionOutOfRange (position rows : Nat)
  /-- Two vectors, or two printed columns, of different lengths. -/
  | lengthMismatch (left right : Nat)
  /-- A least or greatest value of nothing. -/
  | emptyAggregate (function : Aggregate)
  /-- A whole number outside 64 bits. -/
  | overflow
  | unknownTable (table : String)
  | unknownColumn (column : String)
  /-- Two columns of one table with the same name. -/
  | duplicateColumn (column : String)
  /-- A column whose length is not that of the table's first column. -/
  | raggedColumn (column : String) (found expected : Nat)
  /-- A row with more or fewer values than the table has columns. -/
  | rowWidth (table : String) (found expected : Nat)
  | unknownVariable (name : String)
  | wrongKind (name : String) (expected : Expected)
  /-- A table declared with another number of columns than it has. -/
  | columnCount (table : String) (declared found : Nat)
  /-- Positions of another table, or of a table that has grown since. -/
  | staleSelection (selection column : String)
  /-- No integer lies in `[low, high)`. -/
  | emptyInterval (low high : Int64)
  /-- A fixture table is asked for without rows. -/
  | emptyFixture
  /-- A suite is asked for without queries. -/
  | noQueries
deriving DecidableEq

/-- The wording of a fault. -/
def Fault.message : Fault → String
  | positionOutOfRange position rows =>
    "Position " ++ position.repr ++ " out of range for column of " ++ rows.repr ++ " rows"
  | lengthMismatch left right => "Length mismatch: " ++ left.repr ++ " vs " ++ right.repr
  | emptyAggregate function => function.title ++ " over an empty vector is undefined"
  | overflow => "Numeric overflow"
  | unknownTable table => "Table not found: " ++ table
  | unknownColumn column => "Column not found: " ++ column
  | duplicateColumn column => "Duplicate column: " ++ column
  | raggedColumn column found expected =>
    "Column " ++ column ++ " has " ++ found.repr ++ " rows, table has " ++ expected.repr
  | rowWidth table found expected =>
    "Row has " ++ found.repr ++ " values, table " ++ table ++ " has " ++ expected.repr ++
      " columns"
  | unknownVariable name => "Unknown variable: " ++ name
  | wrongKind name expected => "Variable " ++ name ++ " is not a " ++ expected.describe
  | columnCount table declared found =>
    "Schema mismatch: " ++ table ++ " declared with " ++ declared.repr ++
      " columns, fixture has " ++ found.repr
  | staleSelection selection column =>
    "Schema mismatch: " ++ selection ++ " was computed against a different table state than " ++
      column
  | emptyInterval low high =>
    "Invalid parameters: empty sampling interval [" ++ low.toInt.repr ++ ", " ++
      high.toInt.repr ++ ")"
  | emptyFixture => "Invalid parameters: table sizes must be positive"
  | noQueries => "Invalid parameters: queries per select test must be positive"

end Columnar
