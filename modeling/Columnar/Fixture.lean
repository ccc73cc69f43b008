/-
# Fixture tables

The two tables that the scenarios query. The narrow one has a column that
counts the rows and a column with ten more, shuffled. The wide one is drawn
from a keystream: two columns around zero, of which the second has the first
added to it, a column of small numbers with many repetitions and a column of
large ones. Ten rows are kept to be inserted into it.

Key definitions: `Fixture.narrowWithin`, `Fixture.narrow`, `Fixture.wideWithin`,
`Fixture.wide`, `Fixture.insertedRows`.
-/
import Columnar.Random.Draw
import Columnar.Table

namespace Columnar
namespace Fixture

def database : String := "db1"

def narrowShort : String := "tbl1"

def wideShort : String := "tbl2"

/-- The name of the narrow table. -/
def narrowName : String := qualify database narrowShort

/-- The name of the wide table. -/
def wideName : String := qualify database wideShort

/-- The data file of the narrow table. -/
def narrowFile : String := "data1_generated.csv"

/-- The data file of the wide table. -/
def wideFile : String := "data2_generated.csv"

def narrowColumns : List String := ["col1", "col2"]

def wideColumns : List String := ["col1", "col2", "col3", "col4"]

/-- The rows that are inserted into the wide table. -/
def insertedRows : List (List Value) :=
  [[-1, -11, -111, -1111],
   [-2, -22, -222, -2222],
   [-3, -33, -333, -2222],
   [-4, -44, -444, -2222],
   [-5, -55, -555, -2222],
   [-6, -66, -666, -2222],
   [-7, -77, -777, -2222],
   [-8, -88, -888, -2222],
   [-9, -99, -999, -2222],
   [-10, -11, 0, -34]].map (·.map Value.int)

/-- A table whose columns have the given names and integers. -/
def ofInts (name : String) (columns : List String) (ints : List (List Int64)) :
    Except Fault Table :=
  Table.ofColumns name (List.zipWith Column.ofInts columns ints)

/-- `count` integers from `first` on. -/
def counting (first count : Nat) : List Int64 :=
  (List.range count).map fun i => Int64.ofNat (first + i)

/-- The narrow table: row numbers, and ten more in random order. No draw has
more than `limit` refusals. -/
def narrowWithin (limit rows : Nat) (seed : UInt64) : Except Fault Table :=
  let shuffled := (shuffleWithin limit (counting 10 rows).toArray (Keystream.ofSeed seed)).1
  ofInts narrowName narrowColumns [counting 0 rows, shuffled.toList]

/-- The narrow table. -/
def narrow (rows : Nat) (seed : UInt64) : Except Fault Table :=
  narrowWithin redrawLimit rows seed

/-- The first two of every four. -/
def leadingPairs : List Int64 → List (Int64 × Int64)
  | a :: b :: _ :: _ :: rest => (a, b) :: leadingPairs rest
  | _ => []

/-- The wide table. Four numbers are drawn for every row, of which the first
two are used; then come the third column and the fourth. No draw has more than
`limit` refusals. -/
def wideWithin (limit rows : Nat) : Draw Table := do
  let half : Int := (rows / 2 : Nat)
  let block ← uniformsWithin limit (Int64.ofInt (-half)) (Int64.ofInt (max half (1 - half)))
    (rows * 4)
  let pairs := leadingPairs block
  let small ← uniformsWithin limit 0 100 rows
  let large ← uniformsWithin limit 2147473648 2147483648 rows
  match ofInts wideName wideColumns
      [pairs.map (·.1), pairs.map (fun p => p.2 + p.1), small, large] with
  | .ok t => return t
  | .error fault => throw fault

/-- The wide table. -/
def wide (rows : Nat) : Draw Table := wideWithin redrawLimit rows

end Fixture
end Columnar
