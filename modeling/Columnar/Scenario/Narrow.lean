/-
# Scenarios on the narrow table

Number 1 creates and loads the table, number 2 selects by a threshold from
below and from above and fetches, number 3 averages over a fixed window.

With `aggregated` the second scenario also takes every aggregate of each
vector it fetches, and then its second half prints nothing. The two
thresholds are fixed, so a table needs enough rows for the upper one to be
reached.

Key definitions: `Scenario.loadNarrow`, `Scenario.selectFetch`,
`Scenario.averageWindow`.
-/
import Columnar.Scenario

namespace Columnar
namespace Scenario

/-- The first queries select what lies below this. -/
def lowThreshold : Int64 := 20

/-- The last queries select from this on. -/
def highThreshold : Int64 := 987

/-- The window of the average. -/
def averaged : Window := ⟨956, 972⟩

def narrowColumn (name : String) : String := qualify Fixture.narrowName name

/-- Number 1: create and load the narrow table. -/
def loadNarrow (dataDirectory : String) : Scenario where
  heading := ⟨1, "Load+create tbl1"⟩
  commands :=
    [.comment "Load+create Data and shut down of tbl1 which has 1 attribute only",
     .createDatabase Fixture.database] ++
    creation Fixture.narrowShort Fixture.narrowColumns Fixture.narrowFile dataDirectory ++
    [.shutdown]
  windows := []

/-- Every aggregate of the vector `source`, into variables numbered `i`. -/
def allAggregates (i : Nat) (source : String) : List Command :=
  [.aggregate ("a" ++ i.repr) .average (.assigned source),
   .aggregate ("sum" ++ i.repr) .sum (.assigned source),
   .aggregate ("min" ++ i.repr) .least (.assigned source),
   .aggregate ("max" ++ i.repr) .greatest (.assigned source),
   line]

/-- Query `i` of the first half: what lies below the low threshold. -/
def lowQuery (aggregated : Bool) (i : Nat) : List Command :=
  let s := "s" ++ i.repr
  let f := "f" ++ i.repr
  [.comment ("SELECT col1 FROM tbl1 WHERE col1 < " ++ lowThreshold.toInt.repr ++ ";"),
   .select s (narrowColumn "col1") ⟨.unbounded, .at (.int lowThreshold)⟩,
   .fetch f (narrowColumn "col1") s] ++
  (if aggregated then allAggregates i f else []) ++
  [.print [f]]

/-- Query `i` of the second half: what lies at or above the high threshold. -/
def highQuery (aggregated : Bool) (i : Nat) : List Command :=
  let s := "s" ++ i.repr
  let f := "f" ++ i.repr
  [.comment ("SELECT col2 FROM tbl1 WHERE col1 >= " ++ highThreshold.toInt.repr ++ ";"),
   .select s (narrowColumn "col1") ⟨.at (.int highThreshold), .unbounded⟩,
   .fetch f (narrowColumn "col2") s] ++
  (if aggregated then allAggregates i f else [.print [f]])

/-- Number 2: `queries` queries from below, then as many from above. -/
def selectFetch (queries : Nat) (aggregated : Bool) : Scenario where
  heading := ⟨2, "Select + Fetch"⟩
  commands :=
    [.comment "Test Select + Fetch", line] ++
    (List.range queries).flatMap (fun i => lowQuery aggregated (i + 1)) ++
    (List.range queries).flatMap (fun i => highQuery aggregated (queries + i + 1))
  windows := []

/-- Number 3: the average over a fixed window. -/
def averageWindow : Scenario where
  heading := ⟨3, "Multiple Selects + Average"⟩
  commands :=
    [.comment "Test Multiple Selects + Average",
     line,
     .comment ("SELECT avg(col2) FROM tbl1 WHERE col1 >= " ++ averaged.low.toInt.repr ++
       " and col1 < " ++ averaged.high.toInt.repr ++ ";"),
     .select "s1" (narrowColumn "col1") averaged.range,
     .fetch "f1" (narrowColumn "col2") "s1",
     .aggregate "a1" .average (.assigned "f1"),
     .print ["a1"]]
  windows := []

end Scenario
end Columnar
