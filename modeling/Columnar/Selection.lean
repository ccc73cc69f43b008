/-
# Selection and fetch

`Column.select` scans a column for the rows in a range. `Column.selectAmong`
tests only the rows of a position set, and `PositionSet.selectPaired` tests
values that were fetched at those positions before, without the column; the
positions are those of the table in every case and are not renumbered.
`Column.fetch` is the values at the positions of a set.

A position past the end of the column is a fault: it was computed against
another table.

Key definitions: `Column.select`, `Column.selectAmong`,
`PositionSet.selectPaired`, `Column.fetch`.
Key theorems: `Column.mem_select`, `Column.valueAt_eq_ok_iff`.
-/
import Columnar.PositionSet
import Columnar.Range
import Columnar.Table

namespace Columnar

namespace Column

/-- Whether the column has a row at `p` and its value lies in the range. -/
def inRange (c : Column) (r : Range) (p : Nat) : Bool :=
  match c.values[p]? with
  | some v => r.contains v
  | none => false

/-- The rows whose value lies in the range. -/
def select (c : Column) (r : Range) : PositionSet := (PositionSet.all c.size).filter (c.inRange r)

/-- The rows among `s` whose value lies in the range. -/
def selectAmong (c : Column) (r : Range) (s : PositionSet) : Except Fault PositionSet :=
  match s.last? with
  | some p =>
    if p < c.size then .ok (s.filter (c.inRange r))
    else .error (.positionOutOfRange p c.size)
  | none => .ok s

/-- The value at a row. -/
def valueAt (c : Column) (p : Nat) : Except Fault Value :=
  match c.values[p]? with
  | some v => .ok v
  | none => .error (.positionOutOfRange p c.size)

/-- The values at the positions, in row order. -/
def fetch (c : Column) (s : PositionSet) : Except Fault (List Value) := s.positions.mapM c.valueAt

/-- The values of all rows. -/
def scan (c : Column) : List Value := c.values.toList

theorem mem_select {c : Column} {r : Range} {p : Nat} :
    p ∈ c.select r ↔ ∃ v, c.values[p]? = some v ∧ r.contains v = true := by
  rw [select, PositionSet.mem_filter, PositionSet.mem_all, inRange]
  cases h : c.values[p]? with
  | some v =>
    obtain ⟨hp, _⟩ := Array.getElem?_eq_some_iff.mp h
    simp [size, hp]
  | none => simp

theorem valueAt_eq_ok_iff {c : Column} {p : Nat} {v : Value} :
    c.valueAt p = .ok v ↔ c.values[p]? = some v := by
  unfold valueAt
  cases c.values[p]? <;> simp

end Column

theorem map_fst_zip_sublist {α β : Type} : ∀ (as : List α) (bs : List β),
    ((as.zip bs).map (·.1)).Sublist as
  | [], _ => by simp
  | _ :: _, [] => by simp
  | a :: as, _ :: bs => (map_fst_zip_sublist as bs).cons_cons a

namespace PositionSet

/-- The positions whose own value among `values` lies in the range; there is
one value for each position. -/
def selectPaired (s : PositionSet) (values : List Value) (r : Range) : Except Fault PositionSet :=
  if s.size = values.length then
    .ok ⟨((s.positions.zip values).filter fun p => r.contains p.2).map (·.1),
      s.ascending.sublist ((List.filter_sublist.map _).trans (map_fst_zip_sublist _ _))⟩
  else .error (.lengthMismatch s.size values.length)

end PositionSet
end Columnar
