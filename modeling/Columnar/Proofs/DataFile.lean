/-
# A data file determines its table

A data file is rows of fields: first the qualified names of the columns, then
for every row of the table the texts of its values. The fields are found again
by the newlines and the commas, if the names have none (`fieldsOf_rowsText`).
A qualified name comes apart at its last dot, which is the one that was put in
if the column's own name has none, and the text of an integer is that of no
other. So nothing is lost: two tables with one data file are one table
(`Table.csv_determines`).

A table has a value in every column at each of its rows, so the file has a line
for each and no line lacks a field.

Key definitions: `fieldsOf`, `Table.fileFields`, `Table.Plain`.
Key theorems: `fieldsOf_rowsText`, `Table.Plain.fieldsOf_csv`,
`Table.csv_determines`.
-/
import Columnar.Proofs.Printing

namespace Columnar

open Script (IsField isField_value readValue readValue_text)

/-- The fields of a text, line by line, where each line has its newline. -/
def fieldsOf (text : String) : List (List String) :=
  (pieces '\n' text).dropLast.map (pieces ',')

/-- Rows of fields are found again in their text. -/
theorem fieldsOf_rowsText {rows : List (List String)}
    (h : ∀ row ∈ rows, row ≠ [] ∧ ∀ field ∈ row, IsField field) :
    fieldsOf (rowsText rows) = rows := by
  have hfields : ∀ row ∈ rows, pieces ',' (",".intercalate row) = row :=
    fun row hrow => pieces_intercalate (h row hrow).1 fun f hf => ((h row hrow).2 f hf).1
  rw [fieldsOf, pieces_rowsText fun row hrow f hf => ((h row hrow).2 f hf).2,
    List.dropLast_concat, List.map_map]
  exact (List.map_congr_left hfields).trans (List.map_id rows)

theorem isField_qualify {table column : String} (ht : IsField table) (hc : IsField column) :
    IsField (qualify table column) := by
  obtain ⟨htcomma, htnewline⟩ := ht
  obtain ⟨hccomma, hcnewline⟩ := hc
  constructor <;> simp [qualify, htcomma, htnewline, hccomma, hcnewline]

theorem qualify_ne_empty (table column : String) : qualify table column ≠ "" := by
  intro hempty
  have hdot : '.' ∈ (qualify table column).toList := by simp [qualify]
  rw [hempty] at hdot
  cases hdot

/-! ### Texts of integers -/

namespace Value

theorem text_ne_empty {v : Value} (h : v.isFloat = false) : v.text ≠ "" := by
  cases v with
  | float x => cases h
  | int n =>
    rw [text, Int.repr_eq_if]
    intro hempty
    have hnil := congrArg String.toList hempty
    split at hnil
    · rw [Nat.toList_repr] at hnil
      exact Nat.toDigits_ne_nil hnil
    · rw [String.toList_append] at hnil
      exact List.append_ne_nil_of_left_ne_nil (List.cons_ne_nil _ _) _ hnil

theorem eq_of_text_eq {v w : Value} (hv : v.isFloat = false) (hw : w.isFloat = false)
    (h : v.text = w.text) : v = w := by
  rw [← readValue_text hv, ← readValue_text hw, h]

end Value

namespace Table

/-- A table that a data file can be read for: it has columns, its values are
integers, no name has a comma or a newline in it and no column's name a dot. -/
structure Plain (t : Table) : Prop where
  nonempty : t.columns ≠ []
  name : IsField t.name
  field : ∀ c ∈ t.columns, IsField c.name
  noDot : ∀ c ∈ t.columns, '.' ∉ c.name.toList
  whole : ∀ c ∈ t.columns, ∀ v ∈ c.values, v.isFloat = false

/-- The fields of the data file, line by line. -/
def fileFields (t : Table) : List (List String) :=
  t.columns.map (fun c => qualify t.name c.name) ::
    (List.range t.rowCount).map fun row => t.columns.map (cellText row)

theorem csv_eq (t : Table) : t.csv = rowsText t.fileFields := by
  rw [rowsText, fileFields, List.map_cons, List.map_map]
  rfl

/-! ### Every row has its fields -/

theorem length_of_mem_fileFields {t : Table} {row : List String} (h : row ∈ t.fileFields) :
    row.length = t.columns.length := by
  rcases List.mem_cons.mp h with rfl | h
  · exact List.length_map _
  · obtain ⟨i, -, rfl⟩ := List.mem_map.mp h
    exact List.length_map _

theorem cellText_eq {t : Table} {c : Column} (hc : c ∈ t.columns) {row : Nat}
    (hrow : row < t.rowCount) : cellText row c = (c.cell row).text := by
  have hsize : row < c.size := t.even c hc ▸ hrow
  rw [cellText, Column.getElem?_eq_cell hsize]

namespace Plain

variable {t : Table} (ht : t.Plain)

include ht

theorem cell_isFloat {c : Column} (hc : c ∈ t.columns) {row : Nat} (hrow : row < t.rowCount) :
    (c.cell row).isFloat = false := by
  have hsize : row < c.size := t.even c hc ▸ hrow
  exact ht.whole c hc _ (Array.mem_of_getElem? (Column.getElem?_eq_cell hsize))

theorem field_of_mem_fileFields {row : List String} (h : row ∈ t.fileFields) :
    ∀ field ∈ row, IsField field ∧ field ≠ "" := by
  intro field hfield
  rcases List.mem_cons.mp h with rfl | h
  · obtain ⟨c, hc, rfl⟩ := List.mem_map.mp hfield
    exact ⟨isField_qualify ht.name (ht.field c hc), qualify_ne_empty _ _⟩
  · obtain ⟨i, hi, rfl⟩ := List.mem_map.mp h
    obtain ⟨c, hc, rfl⟩ := List.mem_map.mp hfield
    have hrow := List.mem_range.mp hi
    rw [cellText_eq hc hrow]
    have hwhole := ht.cell_isFloat hc hrow
    exact ⟨isField_value hwhole, Value.text_ne_empty hwhole⟩

theorem ne_nil_of_mem_fileFields {row : List String} (h : row ∈ t.fileFields) : row ≠ [] := by
  intro hnil
  have hlength := length_of_mem_fileFields h
  rw [hnil] at hlength
  exact ht.nonempty (List.length_eq_zero_iff.mp hlength.symm)

theorem fieldsOf_csv : fieldsOf t.csv = t.fileFields := by
  rw [csv_eq]
  exact fieldsOf_rowsText fun row hrow =>
    ⟨ht.ne_nil_of_mem_fileFields hrow, fun f hf => (ht.field_of_mem_fileFields hrow f hf).1⟩

/-- A line for the names and one for every row, each with a field for every
column. -/
theorem exists_lines : ∃ lines, t.csv = unlines lines ∧ lines.length = t.rowCount + 1 ∧
    ∀ line ∈ lines, '\n' ∉ line.toList ∧ (pieces ',' line).length = t.columns.length ∧
      ∀ field ∈ pieces ',' line, field ≠ "" := by
  refine ⟨_, csv_eq t, by simp [fileFields], fun line hline => ?_⟩
  obtain ⟨row, hrow, rfl⟩ := List.mem_map.mp hline
  have hfields := ht.field_of_mem_fileFields hrow
  rw [pieces_intercalate (ht.ne_nil_of_mem_fileFields hrow) fun f hf => (hfields f hf).1.1]
  exact ⟨notMem_intercalate_fields fun f hf => (hfields f hf).1.2, length_of_mem_fileFields hrow,
    fun f hf => (hfields f hf).2⟩

/-- What the header says: the table's name, once for every column, and the
column's. -/
theorem map_splitQualified_header :
    (t.columns.map fun c => qualify t.name c.name).map splitQualified =
      (t.columns.map fun c => (t.name, c.name)).map .ok := by
  rw [List.map_map, List.map_map]
  exact List.map_congr_left fun c hc => splitQualified_qualify (ht.noDot c hc)

end Plain

/-! ### Nothing is lost -/

section

variable {t u : Table} (ht : t.Plain) (hu : u.Plain)

include ht hu

theorem names_eq_of_header (h : t.columns.map (fun c => qualify t.name c.name) =
    u.columns.map fun c => qualify u.name c.name) :
    t.name = u.name ∧ t.columns.map Column.name = u.columns.map Column.name := by
  have hpairs : (t.columns.map fun c => (t.name, c.name)).map (.ok : _ → Except Fault _) =
      (u.columns.map fun c => (u.name, c.name)).map .ok := by
    rw [← ht.map_splitQualified_header, ← hu.map_splitQualified_header, h]
  have hnames := (List.map_inj_right fun _ _ => Except.ok.inj).mp hpairs
  have hcolumns := congrArg (List.map Prod.snd) hnames
  rw [List.map_map, List.map_map] at hcolumns
  refine ⟨?_, hcolumns⟩
  -- there is a column to read the table's name from
  obtain ⟨c, cs, hc⟩ := List.exists_cons_of_ne_nil ht.nonempty
  obtain ⟨d, ds, hd⟩ := List.exists_cons_of_ne_nil hu.nonempty
  rw [hc, hd, List.map_cons, List.map_cons] at hnames
  exact congrArg Prod.fst (List.cons.inj hnames).1

theorem columns_eq_of_cells (hnames : t.columns.map Column.name = u.columns.map Column.name)
    (hcount : t.rowCount = u.rowCount)
    (hcells : ∀ row < t.rowCount, t.columns.map (cellText row) = u.columns.map (cellText row)) :
    t.columns = u.columns := by
  have hlength : t.columns.length = u.columns.length := by
    simpa using congrArg List.length hnames
  refine List.ext_getElem hlength fun i hi hi' => ?_
  have hc := List.getElem_mem hi
  have hd := List.getElem_mem hi'
  have hname : (t.columns[i]).name = (u.columns[i]).name := by
    simpa [hi, hi'] using congrArg (·[i]?) hnames
  have hvalues : (t.columns[i]).values = (u.columns[i]).values := by
    have hsize : (t.columns[i]).values.size = t.rowCount := t.even _ hc
    have hsize' : (u.columns[i]).values.size = u.rowCount := u.even _ hd
    refine Array.ext (by omega) fun row hrow hrow' => ?_
    have hlt : row < t.rowCount := by omega
    have hlt' : row < u.rowCount := by omega
    have htext : cellText row t.columns[i] = cellText row u.columns[i] := by
      simpa [hi, hi'] using congrArg (·[i]?) (hcells row hlt)
    rw [cellText_eq hc hlt, cellText_eq hd hlt'] at htext
    have hcell := Value.eq_of_text_eq (ht.cell_isFloat hc hlt) (hu.cell_isFloat hd hlt') htext
    simpa [Column.cell, Array.getD, hrow, hrow'] using hcell
  generalize t.columns[i] = c at hname hvalues
  cases c
  exact congr (congrArg Column.mk hname) hvalues

theorem eq_of_fileFields_eq (h : t.fileFields = u.fileFields) : t = u := by
  obtain ⟨hheader, hrows⟩ := List.cons.inj h
  obtain ⟨hname, hnames⟩ := names_eq_of_header ht hu hheader
  have hcount : t.rowCount = u.rowCount := by simpa using congrArg List.length hrows
  have hcells : ∀ row < t.rowCount,
      t.columns.map (cellText row) = u.columns.map (cellText row) := by
    rw [← hcount] at hrows
    exact fun row hrow => List.map_inj_left.mp hrows row (List.mem_range.mpr hrow)
  have hcolumns := columns_eq_of_cells ht hu hnames hcount hcells
  cases t
  cases u
  cases hname
  cases hcolumns
  cases hcount
  rfl

end

/-- **A data file loses nothing.** The file of a table with columns, whose
values are integers and whose names are free of separators, has a line for the
names and one for every row, each with a field for every column and none of
them empty. And no other such table has the same file. -/
theorem csv_determines {t : Table} (ht : t.Plain) :
    (∃ lines, t.csv = unlines lines ∧ lines.length = t.rowCount + 1 ∧
      ∀ line ∈ lines, '\n' ∉ line.toList ∧ (pieces ',' line).length = t.columns.length ∧
        ∀ field ∈ pieces ',' line, field ≠ "") ∧
    ∀ u : Table, u.Plain → t.csv = u.csv → t = u := by
  refine ⟨ht.exists_lines, fun u hu h => eq_of_fileFields_eq ht hu ?_⟩
  rw [← ht.fieldsOf_csv, ← hu.fieldsOf_csv, h]

/-- Two columns and two rows. -/
def twoRows : Table :=
  ⟨"db.t", [Column.ofInts "a" [1, -20], Column.ofInts "b" [-3, 0]], 2, by decide, by decide⟩

/-- What is written of the two rows, and of them alone. -/
theorem csv_determines_twoRows :
    twoRows.Plain ∧
      ∀ u : Table, u.Plain → "db.t.a,db.t.b\n1,-3\n-20,0\n" = u.csv → twoRows = u := by
  have hplain : twoRows.Plain := ⟨by decide, by decide, by decide, by decide, by decide⟩
  have hcsv : twoRows.csv = "db.t.a,db.t.b\n1,-3\n-20,0\n" := by decide +kernel
  exact ⟨hplain, fun u hu h => (csv_determines hplain).2 u hu (hcsv.trans h)⟩

end Table
end Columnar
