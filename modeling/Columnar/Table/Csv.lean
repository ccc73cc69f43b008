/-
# Tables as comma separated lines

A data file has a line with the qualified name of every column and then a
line for each row. Each line ends with a newline, the last one too.

Key definitions: `Table.header`, `Table.rowText`, `Table.csv`.
Key theorems: `toList_unlines`.
-/
import Columnar.Table

namespace Columnar

/-- The lines one after another, each with its newline. -/
def unlines (lines : List String) : String := String.join (lines.map (· ++ "\n"))

theorem toList_unlines (lines : List String) :
    (unlines lines).toList = lines.flatMap (·.toList ++ ['\n']) := by
  simp [unlines, List.flatMap_map]

namespace Table

/-- The qualified names of the columns. -/
def header (t : Table) : String :=
  ",".intercalate (t.columns.map fun c => qualify t.name c.name)

/-- The text of the cell at a row of a column. -/
def cellText (row : Nat) (c : Column) : String :=
  match c.values[row]? with
  | some v => v.text
  | none => ""

def rowText (t : Table) (row : Nat) : String := ",".intercalate (t.columns.map (cellText row))

/-- The data file of a table. -/
def csv (t : Table) : String := unlines (t.header :: (List.range t.rowCount).map t.rowText)

end Table
end Columnar
