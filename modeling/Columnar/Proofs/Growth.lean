/-
# What an insert leaves in place

An insert puts a larger table in the place of the old one. The table keeps
its name and its columns, and a column keeps its values: new ones come after
the last. So an insert extends the catalog (`Catalog.Extends`), and what was
read from a column of it before is read from the same column after.

Key definitions: `Column.Extends`, `Table.Extends`, `Catalog.Extends`.
Key theorems: `Table.column?_insert`, `Catalog.extends_register_insert`,
`Catalog.Extends.resolve`.
-/
import Columnar.Proofs.Lookup

namespace Columnar

/-! ### The grown table -/

namespace Table

theorem insert_eq_ok {t u : Table} {row : List Value} (h : t.insert row = .ok u) :
    u.name = t.name ∧ u.columns = List.zipWith Column.push t.columns row ∧
      u.rowCount = t.rowCount + 1 ∧ row.length = t.columns.length := by
  unfold insert at h
  split at h
  · cases h
    exact ⟨rfl, rfl, rfl, ‹_›⟩
  · cases h

theorem name_insert {t u : Table} {row : List Value} (h : t.insert row = .ok u) :
    u.name = t.name :=
  (insert_eq_ok h).1

theorem rowCount_insert {t u : Table} {row : List Value} (h : t.insert row = .ok u) :
    u.rowCount = t.rowCount + 1 :=
  (insert_eq_ok h).2.2.1

/-- The first column of a name is still the first of that name. -/
theorem find?_zipWith_push {name : String} : ∀ {cs : List Column} {row : List Value} {col : Column},
    row.length = cs.length → cs.find? (·.name = name) = some col →
    ∃ v ∈ row, (List.zipWith Column.push cs row).find? (·.name = name) = some (col.push v)
  | [], _, _, _, h => by simp at h
  | _ :: _, [], _, hlen, _ => by simp at hlen
  | d :: cs, v :: row, col, hlen, h => by
    rw [List.find?_cons] at h
    by_cases hd : d.name = name
    · simp only [hd, decide_true, Option.some.injEq] at h
      subst h
      exact ⟨v, List.mem_cons_self, by simp [Column.push, hd]⟩
    · simp only [hd, decide_false] at h
      obtain ⟨w, hmem, hw⟩ := find?_zipWith_push (Nat.succ.inj hlen) h
      exact ⟨w, List.mem_cons_of_mem v hmem, by simpa [Column.push, hd] using hw⟩

/-- Each column of the grown table is the old one with one more value, which
is one of the row. -/
theorem column?_insert {t u : Table} {row : List Value} (h : t.insert row = .ok u) {name : String}
    {col : Column} (hcol : t.column? name = some col) :
    ∃ v ∈ row, u.column? name = some (col.push v) := by
  obtain ⟨-, hcols, -, hlen⟩ := insert_eq_ok h
  unfold column?
  rw [hcols]
  exact find?_zipWith_push hlen hcol

end Table

/-! ### Extension -/

/-- Every value of the one column stands at the same row of the other. -/
def Column.Extends (c d : Column) : Prop :=
  ∀ (p : Nat) (v : Value), c.values[p]? = some v → d.values[p]? = some v

/-- The one table has the columns and the rows of the other. -/
structure Table.Extends (t u : Table) : Prop where
  rowCount : t.rowCount ≤ u.rowCount
  column : ∀ (name : String) (c : Column), t.column? name = some c →
    ∃ d, u.column? name = some d ∧ c.Extends d

/-- Every table of the one catalog has a table of its name in the other that
extends it. -/
def Catalog.Extends (c d : Catalog) : Prop :=
  ∀ (name : String) (t : Table), c.find? name = some t →
    ∃ u, d.find? name = some u ∧ t.Extends u

theorem Column.extends_push (c : Column) (v : Value) : c.Extends (c.push v) := by
  intro p w h
  have hp : p < c.values.size := (Array.getElem?_eq_some_iff.mp h).1
  rw [push, Array.getElem?_push_lt hp, ← h, Array.getElem?_eq_getElem hp]

theorem Table.extends_refl (t : Table) : t.Extends t :=
  ⟨Nat.le_refl _, fun _ c h => ⟨c, h, fun _ _ hv => hv⟩⟩

theorem Table.extends_insert {t u : Table} {row : List Value} (h : t.insert row = .ok u) :
    t.Extends u where
  rowCount := by rw [rowCount_insert h]; exact Nat.le_succ _
  column name c hcol := by
    obtain ⟨v, -, hv⟩ := column?_insert h hcol
    exact ⟨_, hv, Column.extends_push _ v⟩

namespace Catalog

theorem extends_refl (c : Catalog) : c.Extends c := fun _ t h => ⟨t, h, t.extends_refl⟩

theorem name_inserted {c : Catalog} {table : String} {t u : Table} {row : List Value}
    (ht : c.find? table = some t) (hu : t.insert row = .ok u) : u.name = table :=
  (Table.name_insert hu).trans (name_of_find? ht)

/-- The grown table takes the place of the old one, and no other is
touched. -/
theorem extends_register_insert {c : Catalog} {table : String} {t u : Table} {row : List Value}
    (ht : c.find? table = some t) (hu : t.insert row = .ok u) : c.Extends (c.register u) := by
  intro name t' ht'
  rw [find?_register]
  have hname := name_inserted ht hu
  by_cases heq : table = name
  · subst heq
    rw [ht, Option.some.injEq] at ht'
    subst ht'
    exact ⟨u, if_pos hname, Table.extends_insert hu⟩
  · rw [if_neg (fun h => heq (hname.symm.trans h))]
    exact ⟨t', ht', Table.extends_refl t'⟩

/-- A qualified name goes on standing for the same column. -/
theorem Extends.resolve {c d : Catalog} (h : c.Extends d) {name : String} {col : Column}
    (hcol : c.resolve name = .ok col) : ∃ col', d.resolve name = .ok col' ∧ col.Extends col' := by
  obtain ⟨table, field, t, hsplit, ht, hfield⟩ := resolve_eq_ok_iff.mp hcol
  obtain ⟨u, hu, hext⟩ := h table t ht
  obtain ⟨col', hcol', hvalues⟩ := hext.column field col hfield
  exact ⟨col', resolve_eq_ok_iff.mpr ⟨table, field, u, hsplit, hu, hcol'⟩, hvalues⟩

end Catalog
end Columnar
