/-
# Scripts put together

A script in parts runs part by part (`Session.run_append`), and a script on
one table can be followed command by command as long as it is known what the
variables hold: rows of the table as it is now (`Session.HoldsRows`), or a
vector. For a select, a fetch and a selection from fetched values it is said
here what they give then; none of them fails.

Key definitions: `Column.cell`, `Session.HoldsRows`.
Key theorems: `Session.run_append`, `Session.effect_select_of_table`,
`Session.effect_fetch_of_rows`, `Session.effect_selectFrom_of_rows`.
-/
import Columnar.Proofs.Fetch
import Columnar.Proofs.Step

namespace Columnar

/-! ### Names with their table -/

/-- The column's name comes back if there is no dot in it, however many there
are in the table's. -/
theorem splitQualified_qualify {table column : String} (h : '.' ∉ column.toList) :
    splitQualified (qualify table column) = .ok (table, column) := by
  have hlist : (qualify table column).toList = table.toList ++ '.' :: column.toList := by
    simp [qualify]
  have hsplit := splitAtLast_eq_some_iff.mpr ⟨hlist, h⟩
  simp only [splitQualified, hsplit, String.ofList_toList]

theorem Catalog.resolve_qualify {c : Catalog} {table field : String} {t : Table} {col : Column}
    (ht : c.find? table = some t) (hdot : '.' ∉ field.toList)
    (hcol : t.column? field = some col) : c.resolve (qualify table field) = .ok col :=
  resolve_eq_ok_iff.mpr ⟨table, field, t, splitQualified_qualify hdot, ht, hcol⟩

/-! ### Cells -/

namespace Column

/-- The value at a row; past the end a zero. -/
def cell (c : Column) (row : Nat) : Value := c.values.getD row (.int 0)

theorem getElem?_eq_cell {c : Column} {row : Nat} (h : row < c.size) :
    c.values[row]? = some (c.cell row) := by
  have hlt : row < c.values.size := h
  simp [cell, Array.getD_eq_getD_getElem?, hlt]

theorem fetch_eq_map_cell {c : Column} {s : PositionSet} (h : ∀ p ∈ s, p < c.size) :
    c.fetch s = .ok (s.positions.map c.cell) := by
  rw [fetch_eq_ok_iff, List.map_map]
  exact List.map_congr_left fun p hp => getElem?_eq_cell (h p hp)

end Column

/-! ### Parts of a script -/

namespace Session

theorem run_nil (s : Session) : s.run [] = (.ok "", s) := rfl

theorem run_cons_ok {s : Session} {c : Command} {e : Effect} (h : s.effect c = .ok e)
    (cs : List Command) :
    s.run (c :: cs) = (((s.after e).run cs).1.map (e.text ++ ·), ((s.after e).run cs).2) := by
  rw [run, runFrom, h]
  simp only [String.empty_append]
  exact runFrom_eq e.text (s.after e) cs

theorem run_cons_error {s : Session} {c : Command} {fault : Fault} (h : s.effect c = .error fault)
    (cs : List Command) : s.run (c :: cs) = (.error fault, s) := by
  rw [run, runFrom, h]

/-- The second part runs in the session that the first leaves. -/
theorem run_append {s t : Session} {cs : List Command} {text : String}
    (h : s.run cs = (.ok text, t)) (ds : List Command) :
    s.run (cs ++ ds) = ((t.run ds).1.map (text ++ ·), (t.run ds).2) := by
  rw [run] at h
  rw [run, runFrom_append, h]
  exact runFrom_eq text t ds

/-! ### Rows of a table in a variable -/

/-- A variable holds rows of a registered table, as the table is now. -/
structure HoldsRows (s : Session) (t : Table) (name : String) (rows : PositionSet) : Prop where
  registered : s.catalog.find? t.name = some t
  binding : s.bindings name = some (.selection ⟨rows, t.name, s.generation t.name⟩)
  inBounds : ∀ p ∈ rows, p < t.rowCount

/-- Nothing but an assignment of the variable itself changes what it holds. -/
theorem HoldsRows.after_assign {s : Session} {t : Table} {name : String} {rows : PositionSet}
    (h : s.HoldsRows t name rows) {target : String} (b : Binding) (hne : name ≠ target) :
    (s.after (.assign target b)).HoldsRows t name rows where
  registered := h.registered
  binding := by simp only [after, hne, if_false, h.binding]
  inBounds := h.inBounds

theorem holdsRows_assigned {s : Session} {t : Table} (ht : s.catalog.find? t.name = some t)
    (target : String) {rows : PositionSet} (hrows : ∀ p ∈ rows, p < t.rowCount) :
    (s.after (.assign target (.selection ⟨rows, t.name, s.generation t.name⟩))).HoldsRows t
      target rows where
  registered := ht
  binding := by simp [after]
  inBounds := hrows

theorem bindings_after_assign (s : Session) (target : String) (b : Binding) :
    (s.after (.assign target b)).bindings target = some b := by
  simp [after]

theorem bindings_after_assign_of_ne (s : Session) {name target : String} (b : Binding)
    (h : name ≠ target) : (s.after (.assign target b)).bindings name = s.bindings name := by
  simp [after, h]

section OnTable

variable {s : Session} {t : Table} {field : String} {col : Column}

theorem effect_select_of_table (ht : s.catalog.find? t.name = some t) (hdot : '.' ∉ field.toList)
    (hcol : t.column? field = some col) (target : String) (range : Range) :
    s.effect (.select target (qualify t.name field) range) =
      .ok (.assign target (.selection ⟨col.select range, t.name, s.generation t.name⟩)) :=
  effect_of_performs
    (.select (splitQualified_qualify hdot) (Catalog.resolve_qualify ht hdot hcol))

theorem effect_fetch_of_rows {positions : String} {rows : PositionSet}
    (h : s.HoldsRows t positions rows) (hdot : '.' ∉ field.toList)
    (hcol : t.column? field = some col) (target : String) :
    s.effect (.fetch target (qualify t.name field) positions) =
      .ok (.assign target
        (.vector (rows.positions.map col.cell) (some ⟨qualify t.name field, rows⟩))) := by
  have hrows : ∀ p ∈ rows, p < col.size := by
    rw [Table.size_column? hcol]
    exact h.inBounds
  exact effect_of_performs
    (.fetch h.binding (splitQualified_qualify hdot) rfl
      (Catalog.resolve_qualify h.registered hdot hcol) (Column.fetch_eq_map_cell hrows))

/-- The values were fetched at just these rows, so the column is searched
again. -/
theorem effect_selectFrom_of_rows {positions vector : String} {rows : PositionSet}
    (h : s.HoldsRows t positions rows) (hdot : '.' ∉ field.toList)
    (hcol : t.column? field = some col)
    (hvector : s.bindings vector =
      some (.vector (rows.positions.map col.cell) (some ⟨qualify t.name field, rows⟩)))
    (target : String) (range : Range) :
    s.effect (.selectFrom target positions vector range) =
      .ok (.assign target
        (.selection ⟨rows.filter (col.inRange range), t.name, s.generation t.name⟩)) := by
  have hrows : ∀ p ∈ rows, p < col.size := by
    rw [Table.size_column? hcol]
    exact h.inBounds
  have hnarrowed : s.narrowed ⟨rows, t.name, s.generation t.name⟩ (rows.positions.map col.cell)
      (some ⟨qualify t.name field, rows⟩) range = .ok (rows.filter (col.inRange range)) := by
    simp only [narrowed, if_true, Catalog.resolve_qualify h.registered hdot hcol, ok_bind]
    exact Column.selectAmong_of_fetch (Column.fetch_eq_map_cell hrows) range
  exact effect_of_performs (.selectFrom h.binding hvector hnarrowed)

end OnTable

theorem printable_of_vector {s : Session} {name : String} {values : List Value}
    {source : Option Provenance} (h : s.bindings name = some (.vector values source)) :
    s.printable name = .ok (.vector values) := by
  rw [printable, lookup_eq_ok_iff.mpr h, ok_bind]

theorem printable_of_scalar {s : Session} {name : String} {x : Scalar}
    (h : s.bindings name = some (.scalar x)) : s.printable name = .ok (.scalar x) := by
  rw [printable, lookup_eq_ok_iff.mpr h, ok_bind]

theorem effect_print_vector {s : Session} {name : String} {values : List Value}
    {source : Option Provenance} (h : s.bindings name = some (.vector values source)) :
    s.effect (.print [name]) = .ok (.output (vectorText values)) := by
  have hargs : [name].mapM s.printable = .ok [.vector values] := by
    rw [mapM_eq_ok_iff, List.map_singleton, printable_of_vector h]
    rfl
  exact effect_of_performs (.print hargs (printed_vector values))

end Session
end Columnar
