/-
# Catalogs

The tables that a script can name, each under its own name and no two under
one. To register a table replaces the one of the same name, if there is one,
and adds it otherwise.

Key definitions: `Catalog`, `Catalog.register`, `Catalog.table`,
`Catalog.resolve`.
Key theorems: `Catalog.find?_register`.
-/
import Columnar.Table

namespace Columnar

/-- Tables of different names, in the order in which they were first added. -/
@[ext]
structure Catalog where
  tables : List Table
  distinct : (tables.map Table.name).Nodup
deriving DecidableEq

/-- Puts a table in the place of the one of its name, or at the end. -/
def putTable (t : Table) : List Table → List Table
  | [] => [t]
  | u :: us => if u.name = t.name then t :: us else u :: putTable t us

theorem map_name_putTable (t : Table) : ∀ us : List Table,
    (putTable t us).map Table.name =
      if t.name ∈ us.map Table.name then us.map Table.name else us.map Table.name ++ [t.name]
  | [] => by simp [putTable]
  | u :: us => by
    rw [putTable]
    by_cases h : u.name = t.name
    · simp [h]
    · have hne : ¬ t.name = u.name := fun e => h e.symm
      simp only [if_neg h, List.map_cons, map_name_putTable t us, List.mem_cons, hne, false_or,
        List.cons_append]
      split <;> rfl

theorem find?_putTable (t : Table) (name : String) : ∀ us : List Table,
    (putTable t us).find? (·.name = name) =
      if t.name = name then some t else us.find? (·.name = name)
  | [] => by
    by_cases h : t.name = name <;> simp [putTable, h]
  | u :: us => by
    rw [putTable]
    by_cases h : u.name = t.name
    · by_cases hn : t.name = name
      · simp [h, hn]
      · simp [h, hn]
    · rw [if_neg h]
      by_cases hn : t.name = name
      · have hu : ¬ u.name = name := fun e => h (e.trans hn.symm)
        simp only [List.find?_cons, hu, decide_false, find?_putTable t name us, hn, if_true]
      · simp only [List.find?_cons, find?_putTable t name us, hn, if_false]

namespace Catalog

def empty : Catalog := ⟨[], .nil⟩

/-- The catalog in which a table stands under its name. -/
def register (c : Catalog) (t : Table) : Catalog where
  tables := putTable t c.tables
  distinct := by
    rw [map_name_putTable]
    split
    · exact c.distinct
    · rename_i h
      rw [List.nodup_append]
      refine ⟨c.distinct, by simp, ?_⟩
      intro a ha b hb
      rw [List.mem_singleton] at hb
      rintro rfl
      exact h (hb ▸ ha)

/-- The table of a name, if there is one. -/
def find? (c : Catalog) (name : String) : Option Table := c.tables.find? (·.name = name)

/-- Whether there is a table of a name. -/
def contains (c : Catalog) (name : String) : Bool := (c.find? name).isSome

/-- The table of a name. -/
def table (c : Catalog) (name : String) : Except Fault Table :=
  match c.find? name with
  | some t => .ok t
  | none => .error (.unknownTable name)

/-- The column of a qualified name. -/
def resolve (c : Catalog) (name : String) : Except Fault Column := do
  let (table, column) ← splitQualified name
  (← c.table table).column column

/-- After a table is registered its name stands for it, and every other name
for what it stood for before. -/
theorem find?_register (c : Catalog) (t : Table) (name : String) :
    (c.register t).find? name = if t.name = name then some t else c.find? name :=
  find?_putTable t name c.tables

end Catalog
end Columnar
