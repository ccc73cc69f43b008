/-
# What a qualified name resolves to

A catalog is what is left of registering tables one after another
(`Catalog.ofTables`): under every name it has the table that was registered last
(`Catalog.find?_ofTables_iff`), and every catalog comes about so
(`Catalog.ofTables_tables`). A qualified name is split at its last dot wherever it
is split, so the table that a selection remembers is the one whose column it was made
on, however many dots the table's name has.

A look-up ends in one of four ways (`Catalog.Resolves`), and a fault says what was not
found. A missing table is named by what stands before the last dot. A missing column is
named together with its table, which is the whole name again, so the fault is the same
as for a name without a dot (`Catalog.unknownColumn_of_dotted`).

Key definitions: `SplitsInto`, `Catalog.ofTables`, `Catalog.Latest`, `Catalog.Resolves`.
Key theorems: `splitQualified_eq_ok_iff`, `Catalog.resolve_eq_iff`,
`Catalog.find?_ofTables_iff`, `Catalog.ofTables_tables`, `Catalog.resolve_registered`.
-/
import Columnar.Proofs.Building
import Columnar.Proofs.Script
import Columnar.Table.Csv
import Mathlib.Data.List.Induction

namespace Columnar

/-! ### The last dot -/

/-- A name is a table's and a field's with a dot between, its last one. -/
def SplitsInto (name table field : String) : Prop :=
  name = qualify table field ∧ '.' ∉ field.toList

theorem splitQualified_eq_ok_iff {name table field : String} :
    splitQualified name = .ok (table, field) ↔ SplitsInto name table field := by
  constructor
  · intro h
    unfold splitQualified at h
    split at h
    · rename_i before after hsplit
      obtain ⟨hlist, hdot⟩ := splitAtLast_eq_some_iff.mp hsplit
      obtain ⟨rfl, rfl⟩ := Prod.mk.inj (Except.ok.inj h)
      refine ⟨String.toList_injective ?_, by rwa [String.toList_ofList]⟩
      simp [qualify, hlist]
    · cases h
  · rintro ⟨rfl, hdot⟩
    exact splitQualified_qualify hdot

theorem splitQualified_eq_error_iff {name : String} {fault : Fault} :
    splitQualified name = .error fault ↔ '.' ∉ name.toList ∧ fault = .unknownColumn name := by
  rw [← splitAtLast_eq_none_iff, splitQualified]
  cases splitAtLast '.' name.toList <;> simp [eq_comm]

namespace Catalog

/-! ### The four ends of a look-up -/

/-- What the look-up of a name ends with. -/
inductive Resolves (c : Catalog) (name : String) : Except Fault Column → Prop where
  | found {t : Table} {col : Column} (ht : c.find? t.name = some t) (hcol : col ∈ t.columns)
    (hsplit : SplitsInto name t.name col.name) : Resolves c name (.ok col)
  | noColumn {t : Table} {field : String} (ht : c.find? t.name = some t)
    (hfield : field ∉ t.columns.map Column.name) (hsplit : SplitsInto name t.name field) :
    Resolves c name (.error (.unknownColumn name))
  | noTable {table field : String} (htable : c.find? table = none)
    (hsplit : SplitsInto name table field) : Resolves c name (.error (.unknownTable table))
  | noDot (hdot : '.' ∉ name.toList) : Resolves c name (.error (.unknownColumn name))

theorem resolves_resolve (c : Catalog) (name : String) : c.Resolves name (c.resolve name) := by
  unfold resolve
  cases hparts : splitQualified name with
  | error fault =>
    obtain ⟨hdot, rfl⟩ := splitQualified_eq_error_iff.mp hparts
    exact .noDot hdot
  | ok parts =>
    obtain ⟨table, field⟩ := parts
    have hsplit : SplitsInto name table field := splitQualified_eq_ok_iff.mp hparts
    change c.Resolves name (c.table table >>= fun t => t.column field)
    unfold Catalog.table
    cases ht : c.find? table with
    | none => exact .noTable ht hsplit
    | some t =>
      obtain rfl := name_of_find? ht
      change c.Resolves name (t.column field)
      unfold Table.column
      cases hcol : t.column? field with
      | none =>
        rw [← hsplit.1]
        exact .noColumn ht (Table.column?_eq_none_iff.mp hcol) hsplit
      | some col =>
        obtain ⟨hmem, rfl⟩ := Table.column?_eq_some_iff.mp hcol
        exact .found ht hmem hsplit

theorem resolve_of_resolves {c : Catalog} {name : String} {r : Except Fault Column}
    (h : c.Resolves name r) : c.resolve name = r := by
  cases h with
  | found ht hcol hsplit =>
    exact resolve_eq_ok_iff.mpr ⟨_, _, _, splitQualified_eq_ok_iff.mpr hsplit, ht,
      Table.column?_eq_some_iff.mpr ⟨hcol, rfl⟩⟩
  | noColumn ht hfield hsplit =>
    rw [resolve, splitQualified_eq_ok_iff.mpr hsplit, ok_bind]
    simp only [table_eq_ok_iff.mpr ht, ok_bind, Table.column,
      Table.column?_eq_none_iff.mpr hfield, ← hsplit.1]
  | noTable htable hsplit =>
    rw [resolve, splitQualified_eq_ok_iff.mpr hsplit, ok_bind]
    simp only [table, htable]
    rfl
  | noDot hdot =>
    rw [resolve, splitQualified_eq_error_iff.mpr ⟨hdot, rfl⟩]
    rfl

theorem resolve_eq_iff {c : Catalog} {name : String} {r : Except Fault Column} :
    c.resolve name = r ↔ c.Resolves name r :=
  ⟨fun h => h ▸ resolves_resolve c name, resolve_of_resolves⟩

/-! ### Registered tables -/

/-- The catalog in which the tables were registered, first to last. -/
def ofTables (ts : List Table) : Catalog := ts.foldl register empty

/-- The table is the last one of its name. -/
def Latest (ts : List Table) (t : Table) : Prop :=
  ∃ before after, ts = before ++ t :: after ∧ ∀ u ∈ after, u.name ≠ t.name

theorem ofTables_concat (ts : List Table) (t : Table) :
    ofTables (ts ++ [t]) = (ofTables ts).register t := by
  rw [ofTables, List.foldl_append, List.foldl_cons, List.foldl_nil, ofTables]

theorem find?_ofTables (ts : List Table) (name : String) :
    (ofTables ts).find? name = ts.reverse.find? (·.name = name) := by
  induction ts using List.reverseRecOn with
  | nil => rfl
  | append_singleton ts t ih =>
    rw [ofTables_concat, find?_register, ih, List.reverse_append, List.reverse_singleton,
      List.singleton_append, List.find?_cons]
    by_cases h : t.name = name <;> simp [h]

theorem putTable_of_notMem {t : Table} : ∀ {us : List Table},
    t.name ∉ us.map Table.name → putTable t us = us ++ [t]
  | [], _ => rfl
  | u :: us, h => by
    rw [List.map_cons, List.mem_cons, not_or] at h
    rw [putTable, if_neg (Ne.symm h.1), putTable_of_notMem h.2, List.cons_append]

theorem tables_ofTables {ts : List Table} (h : (ts.map Table.name).Nodup) :
    (ofTables ts).tables = ts := by
  induction ts using List.reverseRecOn with
  | nil => rfl
  | append_singleton ts t ih =>
    rw [List.map_append, List.map_singleton, List.nodup_append] at h
    have hnew : t.name ∉ ts.map Table.name :=
      fun hmem => h.2.2 _ hmem _ List.mem_cons_self rfl
    rw [ofTables_concat]
    change putTable t (ofTables ts).tables = ts ++ [t]
    rw [ih h.1, putTable_of_notMem hnew]

/-- **Every catalog is what is left of registrations**, of its own tables for one. -/
theorem ofTables_tables (c : Catalog) : ofTables c.tables = c :=
  Catalog.ext (tables_ofTables c.distinct)

variable {ts : List Table} {name : String}

/-- A name stands for the last table that was registered under it. -/
theorem find?_ofTables_iff {t : Table} :
    (ofTables ts).find? name = some t ↔ t.name = name ∧ Latest ts t := by
  rw [find?_ofTables, List.find?_eq_some_iff_append, decide_eq_true_eq]
  refine and_congr_right ?_
  rintro rfl
  constructor
  · rintro ⟨after, before, hsplit, hafter⟩
    refine ⟨before.reverse, after.reverse, ?_, fun u hu => ?_⟩
    · rw [← List.reverse_reverse ts, hsplit]
      simp
    · simpa using hafter u (List.mem_reverse.mp hu)
  · rintro ⟨before, after, rfl, hafter⟩
    exact ⟨after.reverse, before.reverse, by simp,
      fun u hu => by simpa using hafter u (List.mem_reverse.mp hu)⟩

theorem find?_ofTables_self_iff {t : Table} :
    (ofTables ts).find? t.name = some t ↔ Latest ts t := by
  simp [find?_ofTables_iff]

theorem find?_ofTables_eq_none_iff :
    (ofTables ts).find? name = none ↔ name ∉ ts.map Table.name := by
  rw [find?_ofTables, List.find?_eq_none]
  simp

theorem resolve_ofTables_eq_ok_iff {col : Column} :
    (ofTables ts).resolve name = .ok col ↔
      ∃ t, Latest ts t ∧ col ∈ t.columns ∧ SplitsInto name t.name col.name := by
  rw [resolve_eq_iff]
  constructor
  · intro h
    cases h with
    | found ht hcol hsplit => exact ⟨_, find?_ofTables_self_iff.mp ht, hcol, hsplit⟩
  · rintro ⟨t, ht, hcol, hsplit⟩
    exact .found (find?_ofTables_self_iff.mpr ht) hcol hsplit

theorem resolve_ofTables_eq_unknownColumn_iff :
    (ofTables ts).resolve name = .error (.unknownColumn name) ↔
      '.' ∉ name.toList ∨ ∃ t field, Latest ts t ∧ field ∉ t.columns.map Column.name ∧
        SplitsInto name t.name field := by
  rw [resolve_eq_iff]
  constructor
  · intro h
    cases h with
    | noColumn ht hfield hsplit =>
      exact .inr ⟨_, _, find?_ofTables_self_iff.mp ht, hfield, hsplit⟩
    | noDot hdot => exact .inl hdot
  · rintro (hdot | ⟨t, field, ht, hfield, hsplit⟩)
    · exact .noDot hdot
    · exact .noColumn (find?_ofTables_self_iff.mpr ht) hfield hsplit

theorem resolve_ofTables_eq_unknownTable_iff {table : String} :
    (ofTables ts).resolve name = .error (.unknownTable table) ↔
      (∃ field, SplitsInto name table field) ∧ table ∉ ts.map Table.name := by
  rw [resolve_eq_iff, ← find?_ofTables_eq_none_iff]
  constructor
  · intro h
    cases h with
    | noTable htable hsplit => exact ⟨⟨_, hsplit⟩, htable⟩
  · rintro ⟨⟨field, hsplit⟩, htable⟩
    exact .noTable htable hsplit

/-- A look-up that fails says that a column or a table is unknown. -/
theorem fault_of_resolve {c : Catalog} {fault : Fault} (h : c.resolve name = .error fault) :
    fault = .unknownColumn name ∨ ∃ table, fault = .unknownTable table := by
  cases resolve_eq_iff.mp h with
  | noColumn | noDot => exact .inl rfl
  | noTable => exact .inr ⟨_, rfl⟩

/-! ### Names with a table in them -/

theorem exists_header_names {t : Table} (ht : Latest ts t)
    (hdot : ∀ c ∈ t.columns, '.' ∉ c.name.toList) :
    ∃ names, t.header = ",".intercalate names ∧
      names.map (ofTables ts).resolve = t.columns.map .ok := by
  refine ⟨_, rfl, ?_⟩
  rw [List.map_map]
  exact List.map_congr_left fun c hc =>
    resolve_ofTables_eq_ok_iff.mpr ⟨t, ht, hc, rfl, hdot c hc⟩

/-- The table before the last dot is the one that has the column. -/
theorem exists_latest_of_resolve {table field : String} {col : Column}
    (hsplit : splitQualified name = .ok (table, field))
    (hcol : (ofTables ts).resolve name = .ok col) :
    ∃ t, Latest ts t ∧ col ∈ t.columns ∧ t.name = table ∧ col.name = field := by
  obtain ⟨t, ht, hfind⟩ := find?_of_resolve hsplit hcol
  obtain ⟨hname, hlatest⟩ := find?_ofTables_iff.mp ht
  obtain ⟨hmem, hfield⟩ := Table.column?_eq_some_iff.mp hfind
  exact ⟨t, hlatest, hmem, hname, hfield⟩

section

variable {s : Session} (hs : s.catalog = ofTables ts) {target column : String} {e : Effect}

include hs

/-- A selection remembers the table of the column that it was made on. -/
theorem exists_latest_of_select {range : Range}
    (h : s.effect (.select target column range) = .ok e) :
    ∃ t col, Latest ts t ∧ col ∈ t.columns ∧ SplitsInto column t.name col.name ∧
      (ofTables ts).resolve column = .ok col ∧
      e = .assign target (.selection ⟨col.select range, t.name, s.generation t.name⟩) := by
  cases Session.performs_of_effect h with
  | select hsplit hcol =>
    rw [hs] at hcol
    obtain ⟨t, ht, hmem, rfl, rfl⟩ := exists_latest_of_resolve hsplit hcol
    exact ⟨t, _, ht, hmem, splitQualified_eq_ok_iff.mp hsplit, hcol, rfl⟩

/-- A fetch takes its values from the table that its selection remembers. -/
theorem exists_latest_of_fetch {positions : String}
    (h : s.effect (.fetch target column positions) = .ok e) :
    ∃ t col sel values, Latest ts t ∧ col ∈ t.columns ∧ SplitsInto column t.name col.name ∧
      (ofTables ts).resolve column = .ok col ∧ s.selection positions = .ok sel ∧
      sel.table = t.name ∧ sel.generation = s.generation t.name ∧
      col.fetch sel.positions = .ok values ∧
      e = .assign target (.vector values (some ⟨column, sel.positions⟩)) := by
  cases Session.performs_of_effect h with
  | fetch hsel hsplit hgeneration hcol hvalues =>
    rw [hs] at hcol
    obtain ⟨t, ht, hmem, hname, rfl⟩ := exists_latest_of_resolve hsplit hcol
    rw [← hname] at hsplit hgeneration
    exact ⟨t, _, _, _, ht, hmem, splitQualified_eq_ok_iff.mp hsplit, hcol,
      Session.selection_eq_ok_iff.mpr hsel, hname.symm, hgeneration, hvalues, rfl⟩

end

/-- **A qualified name stands for a column of the table before its last dot**, as that
table was registered last. If there is none, the fault is that the name is unknown, or,
when nothing was registered under the part before the dot, that this table is; a name
without a dot is unknown as a whole, and so is one whose table is there without the
column. No other fault occurs.

So the names in the header of a registered table stand for its columns, one by one, if
the columns' own names are without dots. And the table that a selection remembers, as
well as the one that is compared with it when values are fetched, is the one that the
column was found in. -/
theorem resolve_registered (ts : List Table) :
    (∀ name col, (ofTables ts).resolve name = .ok col ↔
      ∃ t, Latest ts t ∧ col ∈ t.columns ∧ SplitsInto name t.name col.name) ∧
    (∀ name, (ofTables ts).resolve name = .error (.unknownColumn name) ↔
      '.' ∉ name.toList ∨ ∃ t field, Latest ts t ∧ field ∉ t.columns.map Column.name ∧
        SplitsInto name t.name field) ∧
    (∀ name table, (ofTables ts).resolve name = .error (.unknownTable table) ↔
      (∃ field, SplitsInto name table field) ∧ table ∉ ts.map Table.name) ∧
    (∀ name fault, (ofTables ts).resolve name = .error fault →
      fault = .unknownColumn name ∨ ∃ table, fault = .unknownTable table) ∧
    (∀ t, Latest ts t → (∀ c ∈ t.columns, '.' ∉ c.name.toList) →
      ∃ names, t.header = ",".intercalate names ∧
        names.map (ofTables ts).resolve = t.columns.map .ok) ∧
    ∀ s : Session, s.catalog = ofTables ts →
      (∀ target column range e, s.effect (.select target column range) = .ok e →
        ∃ t col, Latest ts t ∧ col ∈ t.columns ∧ SplitsInto column t.name col.name ∧
          (ofTables ts).resolve column = .ok col ∧
          e = .assign target (.selection ⟨col.select range, t.name, s.generation t.name⟩)) ∧
      ∀ target column positions e, s.effect (.fetch target column positions) = .ok e →
        ∃ t col sel values, Latest ts t ∧ col ∈ t.columns ∧
          SplitsInto column t.name col.name ∧ (ofTables ts).resolve column = .ok col ∧
          s.selection positions = .ok sel ∧ sel.table = t.name ∧
          sel.generation = s.generation t.name ∧ col.fetch sel.positions = .ok values ∧
          e = .assign target (.vector values (some ⟨column, sel.positions⟩)) :=
  ⟨fun _ _ => resolve_ofTables_eq_ok_iff, fun _ => resolve_ofTables_eq_unknownColumn_iff,
    fun _ _ => resolve_ofTables_eq_unknownTable_iff, fun _ _ => fault_of_resolve,
    fun _ => exists_header_names, fun _ hs => ⟨fun _ _ _ _ => exists_latest_of_select hs,
      fun _ _ _ _ => exists_latest_of_fetch hs⟩⟩

/-- A table with one column. -/
def loneColumn : Table := ⟨"t", [Column.ofInts "a" [1]], 1, by decide, by decide⟩

/-- A name with a dot may be unknown as a whole. -/
theorem unknownColumn_of_dotted :
    ¬ ((ofTables [loneColumn]).resolve "t.x" = .error (.unknownColumn "t.x") ↔
      '.' ∉ "t.x".toList) :=
  fun h => h.mp rfl (by decide)

end Catalog
end Columnar
