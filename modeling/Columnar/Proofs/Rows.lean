/-
# The rows of a table

A table keeps columns, and a row is what stands at one position of all of
them. Here a table is read row by row, first to last (`Table.cells`). An
insert adds its row after the last and touches no other, so rows inserted one
after another come after the old ones in the order in which they are inserted
(`Table.GrownBy`).

Key definitions: `Table.rowAt`, `Table.cells`, `Table.GrownBy`.
Key theorems: `Table.grownBy_insert`, `Table.GrownBy.trans`.
-/
import Columnar.Proofs.Script

namespace Columnar
namespace Table

/-- The values of all columns at a row. -/
def rowAt (t : Table) (row : Nat) : List Value := t.columns.map (·.cell row)

/-- The rows of a table, first to last. -/
def cells (t : Table) : List (List Value) := (List.range t.rowCount).map t.rowAt

/-- The one table is the other with rows after its last. -/
structure GrownBy (t : Table) (rows : List (List Value)) (u : Table) : Prop where
  name : u.name = t.name
  header : u.columns.map Column.name = t.columns.map Column.name
  rowCount : u.rowCount = t.rowCount + rows.length
  cells : u.cells = t.cells ++ rows

theorem cell_push_of_lt {c : Column} {row : Nat} (h : row < c.size) (v : Value) :
    (c.push v).cell row = c.cell row := by
  have hne : row ≠ c.values.size := Nat.ne_of_lt h
  simp [Column.cell, Column.push, Array.getD_eq_getD_getElem?, Array.getElem?_push, hne]

theorem cell_push_size (c : Column) (v : Value) : (c.push v).cell c.size = v := by
  simp [Column.cell, Column.push, Column.size, Array.getD_eq_getD_getElem?]

theorem map_cell_push_of_lt {n row : Nat} (hrow : row < n) :
    ∀ {cs : List Column} {values : List Value}, values.length = cs.length →
      (∀ c ∈ cs, c.size = n) →
      (List.zipWith Column.push cs values).map (·.cell row) = cs.map (·.cell row)
  | [], [], _, _ => rfl
  | [], _ :: _, hlen, _ => by simp at hlen
  | _ :: _, [], hlen, _ => by simp at hlen
  | c :: cs, v :: vs, hlen, hsize => by
    obtain ⟨hc, hcs⟩ := List.forall_mem_cons.mp hsize
    rw [List.zipWith_cons_cons, List.map_cons, List.map_cons, cell_push_of_lt (hc ▸ hrow),
      map_cell_push_of_lt hrow (Nat.succ.inj hlen) hcs]

theorem map_cell_push_size {n : Nat} :
    ∀ {cs : List Column} {values : List Value}, values.length = cs.length →
      (∀ c ∈ cs, c.size = n) → (List.zipWith Column.push cs values).map (·.cell n) = values
  | [], [], _, _ => rfl
  | [], _ :: _, hlen, _ => by simp at hlen
  | _ :: _, [], hlen, _ => by simp at hlen
  | c :: cs, v :: vs, hlen, hsize => by
    obtain ⟨hc, hcs⟩ := List.forall_mem_cons.mp hsize
    rw [List.zipWith_cons_cons, List.map_cons, ← hc, cell_push_size, hc,
      map_cell_push_size (Nat.succ.inj hlen) hcs]

/-- An insert adds its row after the last. -/
theorem grownBy_insert {t u : Table} {row : List Value} (h : t.insert row = .ok u) :
    t.GrownBy [row] u := by
  obtain ⟨hname, hcols, hcount, hlen⟩ := insert_eq_ok h
  refine ⟨hname, ?_, hcount, ?_⟩
  · rw [hcols]
    exact map_name_push hlen
  · rw [cells, hcount, List.range_succ, List.map_append, List.map_singleton, rowAt, hcols,
      map_cell_push_size hlen t.even]
    congr 1
    refine List.map_congr_left fun i hi => ?_
    rw [rowAt, rowAt, hcols]
    exact map_cell_push_of_lt (List.mem_range.mp hi) hlen t.even

theorem grownBy_refl (t : Table) : t.GrownBy [] t :=
  ⟨rfl, rfl, rfl, (List.append_nil _).symm⟩

theorem GrownBy.trans {t u v : Table} {first second : List (List Value)}
    (h : t.GrownBy first u) (h' : u.GrownBy second v) : t.GrownBy (first ++ second) v where
  name := h'.name.trans h.name
  header := h'.header.trans h.header
  rowCount := by rw [h'.rowCount, h.rowCount, List.length_append, Nat.add_assoc]
  cells := by rw [h'.cells, h.cells, List.append_assoc]

end Table
end Columnar
