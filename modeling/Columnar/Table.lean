/-
# Tables

A table is a list of named columns of one length; a row has no existence of
its own beyond its position. That the names differ and the lengths agree is
part of the type. A table is a value: an insert gives a new one, in which
every column has grown by one, or a fault and none.

The row count is kept beside the columns, since a table without columns has
rows too.

Key definitions: `Column`, `Table`, `Table.ofColumns`, `Table.insert`,
`Table.column`.
Key theorems: `firstFault_eq_none_iff`, `Table.insert_isOk_iff`.
-/
import Columnar.QualifiedName
import Columnar.Value

namespace Columnar

/-- A named sequence of values, by row position. -/
structure Column where
  name : String
  values : Array Value
deriving DecidableEq

namespace Column

def size (c : Column) : Nat := c.values.size

/-- The column of the given integers. -/
def ofInts (name : String) (ints : List Int64) : Column :=
  ⟨name, (ints.map Value.int).toArray⟩

/-- The column with one more row. -/
def push (c : Column) (v : Value) : Column := ⟨c.name, c.values.push v⟩

/-- Whether two columns have one name and agree in every row. -/
def agrees (a b : Column) : Bool :=
  a.name == b.name && a.size == b.size &&
    (a.values.toList.zip b.values.toList).all fun p => p.1.agrees p.2

end Column

/-- The first reason, column by column, why `columns` are not those of a
table with `rows` rows: a name among `seen` or earlier columns, or another
length. -/
def firstFault (rows : Nat) (seen : List String) : List Column → Option Fault
  | [] => none
  | c :: cs =>
    if c.name ∈ seen then some (.duplicateColumn c.name)
    else if c.size ≠ rows then some (.raggedColumn c.name c.size rows)
    else firstFault rows (c.name :: seen) cs

theorem firstFault_eq_none_iff {rows : Nat} : ∀ {cs : List Column} {seen : List String},
    firstFault rows seen cs = none ↔
      (cs.map Column.name).Nodup ∧ (∀ c ∈ cs, c.name ∉ seen) ∧ ∀ c ∈ cs, c.size = rows
  | [], seen => by simp [firstFault]
  | c :: cs, seen => by
    rw [firstFault]
    by_cases hmem : c.name ∈ seen
    · simp [hmem]
    · by_cases hsize : c.size = rows
      · simp only [hmem, if_false, hsize, ne_eq, not_true_eq_false, firstFault_eq_none_iff,
          List.map_cons, List.nodup_cons, List.mem_cons, forall_eq_or_imp, not_false_eq_true,
          true_and, List.mem_map, not_exists, not_and, not_or]
        constructor
        · rintro ⟨h₁, h₂, h₃⟩
          exact ⟨⟨fun d hd => (h₂ d hd).1, h₁⟩, fun d hd => (h₂ d hd).2, h₃⟩
        · rintro ⟨⟨h₁, h₂⟩, h₃, h₄⟩
          exact ⟨h₂, fun d hd => ⟨h₁ d hd, h₃ d hd⟩, h₄⟩
      · simp [hmem, hsize]

/-- Named columns of one length, under a name. -/
structure Table where
  name : String
  columns : List Column
  rowCount : Nat
  distinct : (columns.map Column.name).Nodup
  even : ∀ c ∈ columns, c.size = rowCount
deriving DecidableEq

namespace Table

/-- The row count that a table of these columns has: that of the first. -/
def rowsOf : List Column → Nat
  | [] => 0
  | c :: _ => c.size

/-- The table of the given columns, if they have different names and one
length. -/
def ofColumns (name : String) (columns : List Column) : Except Fault Table :=
  match h : firstFault (rowsOf columns) [] columns with
  | some fault => .error fault
  | none =>
    .ok ⟨name, columns, rowsOf columns, (firstFault_eq_none_iff.mp h).1,
      (firstFault_eq_none_iff.mp h).2.2⟩

/-- The column with a name, if there is one. -/
def column? (t : Table) (name : String) : Option Column :=
  t.columns.find? (·.name = name)

/-- The column with a name. -/
def column (t : Table) (name : String) : Except Fault Column :=
  match t.column? name with
  | some c => .ok c
  | none => .error (.unknownColumn (qualify t.name name))

theorem map_name_push {cs : List Column} {row : List Value} (h : row.length = cs.length) :
    (List.zipWith Column.push cs row).map Column.name = cs.map Column.name := by
  induction cs generalizing row with
  | nil => simp
  | cons c cs ih =>
    cases row with
    | nil => simp at h
    | cons v row => simp [Column.push, ih (Nat.succ.inj h)]

theorem size_push {cs : List Column} {row : List Value} {n : Nat} (h : ∀ c ∈ cs, c.size = n) :
    ∀ c ∈ List.zipWith Column.push cs row, c.size = n + 1 := by
  induction cs generalizing row with
  | nil => simp
  | cons c cs ih =>
    cases row with
    | nil => simp
    | cons v row =>
      simp only [List.mem_cons, forall_eq_or_imp] at h
      simp only [List.zipWith_cons_cons, List.mem_cons, forall_eq_or_imp]
      refine ⟨?_, ih h.2⟩
      rw [← h.1]
      simp [Column.size, Column.push]

/-- The table with one more row, if the row has a value for every column. -/
def insert (t : Table) (row : List Value) : Except Fault Table :=
  if h : row.length = t.columns.length then
    .ok ⟨t.name, List.zipWith Column.push t.columns row, t.rowCount + 1,
      map_name_push h ▸ t.distinct, size_push t.even⟩
  else .error (.rowWidth t.name row.length t.columns.length)

/-- Whether two tables have the same names and agree in every cell. -/
def agrees (a b : Table) : Bool :=
  a.name == b.name && a.rowCount == b.rowCount && a.columns.length == b.columns.length &&
    (a.columns.zip b.columns).all fun p => p.1.agrees p.2

/-- An insert succeeds for the rows of the right width and for no others. -/
theorem insert_isOk_iff {t : Table} {row : List Value} :
    (∃ u, t.insert row = .ok u) ↔ row.length = t.columns.length := by
  unfold insert
  split
  · rename_i h
    simp [h]
  · rename_i h
    simp [h]

end Table
end Columnar
