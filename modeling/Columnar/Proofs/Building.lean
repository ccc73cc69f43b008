/-
# Tables made of columns and tables grown by rows

A table is made of columns if their names differ and their lengths do not, and this
is looked at once (`Table.exists_ofColumns_iff`). An insert does not look at it
again. It appends a value to every column, keeps the names and counts one row more,
so that a table that is reached by inserts has what it had when it was made: every
name has the place that it had then (`Table.Reaches.place?_eq`) and stands for the
column there (`Table.Reaches.column?_eq`), and a row fits if it has as many values as
there were columns.

There is one table with given columns, if there are any. So a table with columns
that has grown is the one that is made of the grown columns
(`Table.ofColumns_of_insert`). Without columns nothing but the count tells that rows
were inserted, and a table made of no columns has none.

Key definitions: `Table.place?`, `Table.Reaches`.
Key theorems: `Table.exists_ofColumns_iff`, `Table.ofColumns_columns`,
`Table.ofColumns_of_insert`, `Table.Reaches.place?_eq`, `Table.Reaches.column?_eq`,
`Table.agrees_self_iff`, `Table.grown_as_made`.
-/
import Columnar.Proofs.Growth
import Columnar.Proofs.Order
import Mathlib.Data.List.Nodup

namespace Columnar

/-! ### Agreement with oneself -/

theorem zip_self {α : Type} (as : List α) : as.zip as = as.map fun a => (a, a) := by
  simpa using List.zip_map' (f := id) (g := id) (l := as)

/-- A NaN alone does not agree with itself. -/
theorem Value.agrees_self_iff {v : Value} : v.agrees v = true ↔ v.IsNumber := by
  cases v with
  | int n => simp [agrees, IsNumber]
  | float x => cases x <;> simp [agrees, IsNumber, Binary64.compare?, Binary64.rank]

theorem Column.agrees_self_iff {c : Column} :
    c.agrees c = true ↔ ∀ v ∈ c.values, v.IsNumber := by
  simp only [agrees, zip_self, BEq.rfl, Bool.and_self, Bool.true_and, List.all_map, List.all_eq_true,
    Function.comp_apply, Array.mem_toList_iff, Value.agrees_self_iff]

namespace Table

theorem agrees_self_iff {t : Table} :
    t.agrees t = true ↔ ∀ c ∈ t.columns, ∀ v ∈ c.values, v.IsNumber := by
  simp [agrees, zip_self, Column.agrees_self_iff]

/-! ### From scratch -/

section

variable {name : String} {columns : List Column}

theorem exists_ofColumns (name : String) (hnames : (columns.map Column.name).Nodup)
    (hsize : ∀ c ∈ columns, c.size = rowsOf columns) :
    ∃ t, ofColumns name columns = .ok t ∧ t.name = name ∧ t.columns = columns ∧
      t.rowCount = rowsOf columns := by
  have hnone : firstFault (rowsOf columns) [] columns = none :=
    firstFault_eq_none_iff.mpr ⟨hnames, fun _ _ => List.not_mem_nil, hsize⟩
  unfold ofColumns
  split
  · rename_i fault hfault
    rw [hnone] at hfault
    cases hfault
  · exact ⟨_, rfl, rfl, rfl, rfl⟩

theorem eq_of_ofColumns {t : Table} (h : ofColumns name columns = .ok t) :
    t.name = name ∧ t.columns = columns := by
  unfold ofColumns at h
  split at h
  · cases h
  · cases h
    exact ⟨rfl, rfl⟩

/-- **Columns make a table** if no two have one name or different lengths. -/
theorem exists_ofColumns_iff :
    (∃ t, ofColumns name columns = .ok t) ↔
      (columns.map Column.name).Nodup ∧ ∀ c ∈ columns, ∀ d ∈ columns, c.size = d.size := by
  constructor
  · rintro ⟨t, h⟩
    obtain ⟨-, rfl⟩ := eq_of_ofColumns h
    exact ⟨t.distinct, fun c hc d hd => (t.even c hc).trans (t.even d hd).symm⟩
  · rintro ⟨hnames, hsize⟩
    have hrows : ∀ c ∈ columns, c.size = rowsOf columns := by
      cases columns with
      | nil => simp
      | cons first rest => exact fun c hc => hsize c hc first List.mem_cons_self
    obtain ⟨t, ht, -⟩ := exists_ofColumns name hnames hrows
    exact ⟨t, ht⟩

end

theorem rowsOf_columns {t : Table} (h : t.columns ≠ []) : rowsOf t.columns = t.rowCount := by
  have heven := t.even
  obtain ⟨c, cs, hcolumns⟩ := List.exists_cons_of_ne_nil h
  rw [hcolumns] at heven ⊢
  exact heven c List.mem_cons_self

/-- **A table with columns is the one that they make.** -/
theorem ofColumns_columns {t : Table} (h : t.columns ≠ []) : ofColumns t.name t.columns = .ok t := by
  have hsize : ∀ c ∈ t.columns, c.size = rowsOf t.columns := by
    rw [rowsOf_columns h]
    exact t.even
  obtain ⟨u, hu, hname, hcolumns, hcount⟩ := exists_ofColumns t.name t.distinct hsize
  rw [rowsOf_columns h] at hcount
  rw [hu]
  cases t
  cases u
  cases hname
  cases hcolumns
  cases hcount
  rfl

/-! ### Look-up by name -/

/-- The place of a name among columns. -/
def place? (columns : List Column) (field : String) : Option Nat :=
  columns.findIdx? (·.name = field)

theorem column?_eq_some_iff {t : Table} {field : String} {c : Column} :
    t.column? field = some c ↔ c ∈ t.columns ∧ c.name = field := by
  constructor
  · intro h
    exact ⟨List.mem_of_find?_eq_some h, by simpa using List.find?_some h⟩
  · rintro ⟨hc, hname⟩
    obtain ⟨d, hd⟩ := column?_isSome_iff.mpr (List.mem_map.mpr ⟨c, hc, hname⟩)
    have hdname : d.name = field := by simpa using List.find?_some hd
    rw [hd, List.inj_on_of_nodup_map t.distinct (List.mem_of_find?_eq_some hd) hc
      (hdname.trans hname.symm)]

theorem column?_eq_none_iff {t : Table} {field : String} :
    t.column? field = none ↔ field ∉ t.columns.map Column.name := by
  rw [← column?_isSome_iff, ← Option.isSome_iff_exists, Option.not_isSome_iff_eq_none]

theorem column?_eq_place (t : Table) (field : String) :
    t.column? field = (place? t.columns field).bind (t.columns[·]?) :=
  List.find?_eq_bind_findIdx?_getElem?

theorem place?_eq_of_names {cs ds : List Column} (h : cs.map Column.name = ds.map Column.name)
    (field : String) : place? cs field = place? ds field := by
  have hnames : ∀ cs : List Column, place? cs field =
      (cs.map Column.name).findIdx? (fun name => decide (name = field)) := by
    intro cs
    rw [List.findIdx?_map]
    rfl
  rw [hnames, hnames, h]

/-! ### Inserts -/

theorem insert_eq_error_iff {t : Table} {row : List Value} {fault : Fault} :
    t.insert row = .error fault ↔
      row.length ≠ t.columns.length ∧ fault = .rowWidth t.name row.length t.columns.length := by
  unfold insert
  split
  · rename_i h
    simp [h]
  · rename_i h
    simp [h, eq_comm]

theorem columns_ne_nil_of_insert {t u : Table} {row : List Value} (h : t.insert row = .ok u)
    (hne : t.columns ≠ []) : u.columns ≠ [] := by
  obtain ⟨-, hcolumns, -, hlength⟩ := insert_eq_ok h
  rw [hcolumns, ne_eq, List.zipWith_eq_nil_iff, not_or]
  exact ⟨hne, fun hrow => hne (by simpa [hrow] using hlength.symm)⟩

/-- **A grown table is the one that the grown columns make.** -/
theorem ofColumns_of_insert {t u : Table} {row : List Value} (h : t.insert row = .ok u)
    (hne : t.columns ≠ []) :
    ofColumns t.name (List.zipWith Column.push t.columns row) = .ok u := by
  obtain ⟨hname, hcolumns, -, -⟩ := insert_eq_ok h
  rw [← hname, ← hcolumns]
  exact ofColumns_columns (columns_ne_nil_of_insert h hne)

/-- The tables that inserts make of a table, one row after another. A row that is
refused makes none. -/
inductive Reaches (t : Table) : Table → Prop
  | refl : Reaches t t
  | insert {u v : Table} {row : List Value} (before : Reaches t u) (h : u.insert row = .ok v) :
      Reaches t v

namespace Reaches

variable {t u : Table} (h : t.Reaches u)

include h

theorem name : u.name = t.name := by
  induction h with
  | refl => rfl
  | insert _ h ih => exact (name_insert h).trans ih

theorem names : u.columns.map Column.name = t.columns.map Column.name := by
  induction h with
  | refl => rfl
  | insert _ h ih =>
    obtain ⟨-, hcolumns, -, hlength⟩ := insert_eq_ok h
    rw [hcolumns, map_name_push hlength, ih]

/-- **A name keeps its place** however many rows are inserted. -/
theorem place?_eq (field : String) : place? u.columns field = place? t.columns field :=
  place?_eq_of_names h.names field

theorem column?_eq (field : String) :
    u.column? field = (place? t.columns field).bind (u.columns[·]?) := by
  rw [column?_eq_place, h.place?_eq]

end Reaches

/-- **A table that has grown is as if it were made so.** Columns make a table if and
only if their names differ and their lengths do not. Whatever rows are then inserted,
every name of theirs stands for the column of that name, at the place it had among
them, and no other name stands for any; so a map of the places that is handed on from
table to table is always the one that would be made of the columns anew. All columns
have as many values as the table has rows; and a row is refused if and only if it has
not a value for each column. If there are columns, the table with one more row is the
table made of them with one more value each, and the places are the same. It is the
same table; that it agrees with itself, too, needs that no value is a NaN, which
agrees with nothing. -/
theorem grown_as_made (name : String) (columns : List Column) :
    ((∃ t, ofColumns name columns = .ok t) ↔
      (columns.map Column.name).Nodup ∧ ∀ c ∈ columns, ∀ d ∈ columns, c.size = d.size) ∧
    ∀ t u, ofColumns name columns = .ok t → t.Reaches u →
      (∀ field ∈ columns.map Column.name,
        ∃ c ∈ u.columns, c.name = field ∧ u.column? field = some c) ∧
      (∀ field, field ∉ columns.map Column.name → u.column? field = none) ∧
      (∀ field, place? u.columns field = place? columns field) ∧
      (∀ field, u.column? field = (place? columns field).bind (u.columns[·]?)) ∧
      (∀ c ∈ u.columns, c.size = u.rowCount) ∧
      (∀ row fault, u.insert row = .error fault ↔
        row.length ≠ u.columns.length ∧ fault = .rowWidth name row.length u.columns.length) ∧
      ∀ row v, u.columns ≠ [] → u.insert row = .ok v →
        ofColumns name (List.zipWith Column.push u.columns row) = .ok v ∧
        (v.agrees v = true ↔ ∀ c ∈ v.columns, ∀ x ∈ c.values, x.IsNumber) := by
  refine ⟨exists_ofColumns_iff, fun t u ht hu => ?_⟩
  obtain ⟨rfl, rfl⟩ := eq_of_ofColumns ht
  rw [← hu.name, ← hu.names]
  refine ⟨fun field hfield => ?_, fun field => column?_eq_none_iff.mpr, hu.place?_eq,
    hu.column?_eq, u.even, fun row fault => insert_eq_error_iff, fun row v hne hv =>
      ⟨ofColumns_of_insert hv hne, agrees_self_iff⟩⟩
  obtain ⟨c, hc⟩ := column?_isSome_iff.mpr hfield
  obtain ⟨hmem, hname⟩ := column?_eq_some_iff.mp hc
  exact ⟨c, hmem, hname, hc⟩

/-- A table of no columns has a row after the insert of an empty one, and was not made
with any. -/
example : ((ofColumns "t" []).bind (·.insert [])).map rowCount = .ok 1 ∧
    (ofColumns "t" []).map rowCount = .ok 0 := by
  decide

end Table
end Columnar
