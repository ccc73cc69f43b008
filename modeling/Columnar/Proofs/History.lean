/-
# The tables of a session and the rows inserted in it

No command but an insert changes a table, and an insert that fails changes
none. So the tables of a session can be read off the list of the commands that
succeeded in it: the registered tables are those of the start, in the same
order and with the same columns, and each has its old rows and after them the
rows of the inserts into it, in the order in which they were made
(`Session.tables_of_visit`). The generation of a table is how many these are.

Key definitions: `Command.rowFor?`, `rowsFor`, `Catalog.GrownBy`.
Key theorems: `Session.recounts_after`, `Session.tables_of_visit`.
-/
import Columnar.Proofs.Rows

namespace Columnar

/-! ### The rows that commands insert -/

/-- The row that a command adds to a table. -/
def Command.rowFor? (table : String) : Command → Option (List Value)
  | .insert name row => if name = table then some row else none
  | _ => none

/-- The rows that commands add to a table, in order. -/
def rowsFor (table : String) (cs : List Command) : List (List Value) :=
  cs.filterMap (Command.rowFor? table)

theorem rowsFor_concat (table : String) (cs : List Command) (c : Command) :
    rowsFor table (cs ++ [c]) = rowsFor table cs ++ (c.rowFor? table).toList := by
  unfold rowsFor
  rw [List.filterMap_append]
  cases h : c.rowFor? table <;> simp [h]

/-- Every insert adds one row to its own table and none to another. -/
theorem length_rowFor? (table : String) (c : Command) :
    (c.rowFor? table).toList.length = if c.insertsInto table then 1 else 0 := by
  cases c with
  | insert name row =>
    by_cases h : name = table
    · simp [Command.rowFor?, Command.insertsInto, h]
    · simp [Command.rowFor?, Command.insertsInto, h]
  | _ => rfl

/-! ### Catalogs that have grown -/

/-- The one catalog is the other after commands that inserted rows: the same
tables in the same order, each grown by the rows for it. -/
structure Catalog.GrownBy (c : Catalog) (log : List Command) (d : Catalog) : Prop where
  names : d.tables.map Table.name = c.tables.map Table.name
  grown : ∀ (name : String) (t : Table), c.find? name = some t →
    ∃ u, d.find? name = some u ∧ t.GrownBy (rowsFor name log) u

namespace Catalog

theorem grownBy_refl (c : Catalog) : c.GrownBy [] c where
  names := rfl
  grown _ t ht := ⟨t, ht, t.grownBy_refl⟩

theorem GrownBy.concat {c d : Catalog} {log : List Command} (h : c.GrownBy log d) {command : Command}
    (hnone : ∀ table, command.rowFor? table = none) : c.GrownBy (log ++ [command]) d where
  names := h.names
  grown name t ht := by
    have hrows : rowsFor name (log ++ [command]) = rowsFor name log := by
      rw [rowsFor_concat, hnone, Option.toList_none, List.append_nil]
    rw [hrows]
    exact h.grown name t ht

theorem name_mem_of_find? {c : Catalog} {name : String} {t : Table} (h : c.find? name = some t) :
    name ∈ c.tables.map Table.name := by
  have hmem : t ∈ c.tables := List.mem_of_find?_eq_some h
  exact List.mem_map.mpr ⟨t, hmem, name_of_find? h⟩

/-- An insert puts the grown table where the old one stood. -/
theorem GrownBy.concat_insert {c d : Catalog} {log : List Command} (h : c.GrownBy log d)
    {table : String} {row : List Value} {t u : Table} (ht : d.find? table = some t)
    (hu : t.insert row = .ok u) : c.GrownBy (log ++ [.insert table row]) (d.register u) := by
  have hname := name_inserted ht hu
  constructor
  · show (putTable u d.tables).map Table.name = c.tables.map Table.name
    have hold : u.name ∈ d.tables.map Table.name := by
      rw [hname]
      exact name_mem_of_find? ht
    rw [map_name_putTable, if_pos hold]
    exact h.names
  · intro name first hfirst
    obtain ⟨before, hbefore, hgrown⟩ := h.grown name first hfirst
    rw [find?_register, rowsFor_concat, hname]
    by_cases heq : table = name
    · -- the table itself, which has one row more than before the insert
      subst heq
      have hsame : before = t := Option.some.inj (hbefore.symm.trans ht)
      subst hsame
      refine ⟨u, if_pos rfl, ?_⟩
      have hlast : before.GrownBy [row] u := Table.grownBy_insert hu
      simpa [Command.rowFor?] using hgrown.trans hlast
    · refine ⟨before, ?_, ?_⟩
      · rw [if_neg heq]
        exact hbefore
      · simpa [Command.rowFor?, heq] using hgrown

end Catalog

namespace Session

/-! ### Every run -/

/-- What the log of the commands that succeeded says of the session they
leave. -/
structure Recounts (c : Catalog) (log : List Command) (s : Session) : Prop where
  catalog : c.GrownBy log s.catalog
  generation : ∀ table, s.generation table = (rowsFor table log).length

theorem recounts_start (c : Catalog) : Recounts c [] (start c) where
  catalog := c.grownBy_refl
  generation _ := rfl

/-- One command more that succeeds. -/
theorem recounts_after {c : Catalog} {log : List Command} {s : Session} {command : Command}
    {e : Effect} (h : Recounts c log s) (hp : Performs s command e) :
    Recounts c (log ++ [command]) (s.after e) := by
  constructor
  · have hcatalog := h.catalog
    cases hp with
    | insert ht hu => exact hcatalog.concat_insert ht hu
    | _ => exact hcatalog.concat fun _ => rfl
  · intro table
    rw [generation_after hp, h.generation, rowsFor_concat, List.length_append, length_rowFor?]

/-- **The tables of a session are those of its start with the inserted rows
after the old ones.** In every session, after any commands of which some may
have failed, the same tables are registered in the same order. Each keeps its
name and its columns, and its rows are the rows of the start, in their places,
followed by the rows of the inserts into it that succeeded, in that order.
There are as many of these as its generation says. -/
theorem tables_of_visit (c : Catalog) (cs : List Command) :
    c.GrownBy ((start c).successes cs) ((start c).visit cs).2.catalog ∧
      ∀ table, ((start c).visit cs).2.generation table =
        (rowsFor table ((start c).successes cs)).length := by
  have hstep : ∀ {log : List Command} {s : Session} {command : Command} {e : Effect},
      Recounts c log.reverse s → Performs s command e →
      Recounts c (command :: log).reverse (s.after e) := by
    intro log s command e h hp
    rw [List.reverse_cons]
    exact recounts_after h hp
  have hstart : Recounts c ([] : List Command).reverse (start c) := recounts_start c
  have hrun := visit_induction (P := fun log s => Recounts c log.reverse s) hstep cs hstart
  rw [List.append_nil, List.reverse_reverse] at hrun
  exact ⟨hrun.catalog, hrun.generation⟩

end Session
end Columnar
