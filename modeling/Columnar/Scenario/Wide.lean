/-
# Scenarios on the wide table

Number 4 creates and loads the table and inserts ten rows. The others query
it as it is after that, over sampled windows: a sum, elementwise sums and
differences, least and greatest values, and at last two windows on two
columns together, from which several results are taken.

Key definitions: `Scenario.loadWide`, `Scenario.summation`,
`Scenario.addition`, `Scenario.subtraction`, `Scenario.leastGreatest`,
`Scenario.conjunction`.
-/
import Columnar.Scenario

namespace Columnar
namespace Scenario

/-! ### Headings -/

def summationHeading : Heading := ⟨5, "Summation"⟩

def additionHeading : Heading := ⟨6, "Addition"⟩

def subtractionHeading : Heading := ⟨7, "Subtraction"⟩

def leastGreatestHeading : Heading := ⟨8, "Min,Max"⟩

def conjunctionHeading : Heading := ⟨9, "Big Bad Boss Test"⟩

/-! ### The scripts -/

def wideColumn (name : String) : String := qualify Fixture.wideName name

/-- Number 4: create and load the wide table and insert rows. -/
def loadWide (dataDirectory : String) : Scenario where
  heading := ⟨4, "Load+create+insert tbl2"⟩
  commands :=
    [.comment "Load Test Data 2",
     line,
     .comment "Load+create+insert Data and shut down of tbl2 which has 4 attributes"] ++
    creation Fixture.wideShort Fixture.wideColumns Fixture.wideFile dataDirectory ++
    Fixture.insertedRows.map (.insert Fixture.wideName) ++
    [.shutdown]
  windows := []

/-- A window on a column in words. -/
def within (column : String) (w : Window) : String :=
  column ++ " >= " ++ w.low.toInt.repr ++ " AND " ++ column ++ " < " ++ w.high.toInt.repr

/-- The query behind the commands that follow, in words. -/
def query (result : String) (w : Window) : Command :=
  .comment ("SELECT " ++ result ++ " FROM tbl2 WHERE " ++ within "col1" w ++ ";")

/-- Number 5: the sum over a window and over the whole table. -/
def summation (w : Window) : Scenario where
  heading := summationHeading
  commands :=
    [.comment "Summation",
     line,
     query "SUM(col3)" w,
     .select "s1" (wideColumn "col1") w.range,
     .fetch "f1" (wideColumn "col3") "s1",
     .aggregate "a1" .sum (.assigned "f1"),
     .print ["a1"],
     line,
     .comment "SELECT SUM(col1) FROM tbl2;",
     .aggregate "a2" .sum (.stored (wideColumn "col1")),
     .print ["a2"]]
  windows := [w]

/-- Number 6: `col2 + col3` over a window. -/
def addition (w : Window) : Scenario where
  heading := additionHeading
  commands :=
    [.comment "Addition",
     line,
     query "col2+col3" w,
     .select "s11" (wideColumn "col1") w.range,
     .fetch "f11" (wideColumn "col2") "s11",
     .fetch "f12" (wideColumn "col3") "s11",
     .arithmetic "a11" .add "f11" "f12",
     .print ["a11"]]
  windows := [w]

/-- Number 7: `col3 - col2` over a window. -/
def subtraction (w : Window) : Scenario where
  heading := subtractionHeading
  commands :=
    [.comment "Subtraction",
     line,
     query "col3-col2" w,
     .select "s21" (wideColumn "col1") w.range,
     .fetch "f21" (wideColumn "col2") "s21",
     .fetch "f22" (wideColumn "col3") "s21",
     .arithmetic "s21" .subtract "f22" "f21",
     .print ["s21"]]
  windows := [w]

/-- One extreme of the whole table, then of two columns over a window. -/
def extremes (function : Aggregate) (w : Window) (whole s f₁ m₁ f₂ m₂ : String) : List Command :=
  [.comment ("SELECT " ++ function.word ++ "(col1) FROM tbl2;"),
   .aggregate whole function (.stored (wideColumn "col1")),
   .print [whole],
   line,
   line,
   query (function.word ++ "(col1)") w,
   .select s (wideColumn "col1") w.range,
   .fetch f₁ (wideColumn "col1") s,
   .aggregate m₁ function (.assigned f₁),
   .print [m₁],
   line,
   query (function.word ++ "(col2)") w,
   .fetch f₂ (wideColumn "col2") s,
   .aggregate m₂ function (.assigned f₂),
   .print [m₂]]

/-- Number 8: least and greatest values. -/
def leastGreatest (w : Window) : Scenario where
  heading := leastGreatestHeading
  commands :=
    [.comment "Min,Max", line, .comment "Min"] ++
    extremes .least w "a1" "s1" "f1" "m1" "f2" "m2" ++
    [line, line, .comment "Max"] ++
    extremes .greatest w "a2" "s21" "f21" "m21" "f22" "m22"
  windows := [w]

/-- The rows in both windows, into the variable `s2`. -/
def bothWindows (first second : Window) : List Command :=
  [.select "s1" (wideColumn "col1") first.range,
   .fetch "sf1" (wideColumn "col2") "s1",
   .selectFrom "s2" "s1" "sf1" second.range]

/-- The query over both windows, in words. -/
def conjunctiveQuery (result : String) (first second : Window) : Command :=
  .comment ("SELECT " ++ result ++ " FROM tbl2 WHERE (" ++ within "col1" first ++ ") AND (" ++
    within "col2" second ++ ");")

/-- Number 9: several results over two windows together. -/
def conjunction (first second : Window) : Scenario where
  heading := conjunctionHeading
  commands :=
    [.comment "Big Bad Boss Test! Milestone 1",
     .comment "It's basically just the previous tests put together",
     .comment "But also, its.... Boss test!",
     .blank,
     conjunctiveQuery "min(col2), max(col3), sum(col3-col2)" first second] ++
    bothWindows first second ++
    [.fetch "f2" (wideColumn "col2") "s2",
     .fetch "f3" (wideColumn "col3") "s2",
     .aggregate "out11" .least (.assigned "f2"),
     .aggregate "out12" .greatest (.assigned "f3"),
     .arithmetic "sub32" .subtract "f3" "f2",
     .aggregate "out13" .sum (.assigned "sub32"),
     .print ["out11", "out12", "out13"],
     .blank,
     .blank,
     conjunctiveQuery "avg(col1+col2), min(col2), max(col3), avg(col3-col2), sum(col3-col2)"
       first second] ++
    bothWindows first second ++
    [.fetch "f1" (wideColumn "col1") "s2",
     .fetch "f2" (wideColumn "col2") "s2",
     .fetch "f3" (wideColumn "col3") "s2",
     .arithmetic "add12" .add "f1" "f2",
     .aggregate "out1" .average (.assigned "add12"),
     .aggregate "out2" .least (.assigned "f2"),
     .aggregate "out3" .greatest (.assigned "f3"),
     .arithmetic "sub32" .subtract "f3" "f2",
     .aggregate "out4" .average (.assigned "sub32"),
     .aggregate "out5" .sum (.assigned "sub32"),
     .print ["out1", "out2", "out3", "out4", "out5"]]
  windows := [first, second]

end Scenario
end Columnar
