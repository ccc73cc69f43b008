/-
# What a name stands for

A script names tables, columns and variables. Each look-up gives the thing
or a fault; here it is said, look-up by look-up, when it gives the thing.

Key theorems: `bind_eq_ok_iff`, `Catalog.resolve_eq_ok_iff`,
`Session.selection_eq_ok_iff`, `Session.vector_eq_ok_iff`.
-/
import Columnar.Session

namespace Columnar

theorem ok_bind {α β : Type} {a : α} {f : α → Except Fault β} : Except.ok a >>= f = f a := rfl

/-- A computation in two parts succeeds if the first does and the second
does with its result. -/
theorem bind_eq_ok_iff {α β : Type} {x : Except Fault α} {f : α → Except Fault β} {b : β} :
    x >>= f = .ok b ↔ ∃ a, x = .ok a ∧ f a = .ok b := by
  cases x <;> simp [bind, Except.bind]

theorem mapM_eq_ok_iff {α β : Type} {f : α → Except Fault β} : ∀ {as : List α} {bs : List β},
    as.mapM f = .ok bs ↔ as.map f = bs.map .ok
  | [], bs => by simp [pure, Except.pure, eq_comm]
  | a :: as, bs => by
    simp only [List.mapM_cons, bind_eq_ok_iff, mapM_eq_ok_iff, List.map_cons]
    cases bs with
    | nil => simp [pure, Except.pure]
    | cons b bs =>
      simp only [pure, Except.pure, Except.ok.injEq, List.cons.injEq, List.map_cons]
      constructor
      · rintro ⟨b', hb, bs', hbs, rfl, rfl⟩
        exact ⟨hb, hbs⟩
      · rintro ⟨hb, hbs⟩
        exact ⟨b, hb, bs, hbs, rfl, rfl⟩

/-- All of a list fails as the first of its members that fails. -/
theorem mapM_eq_error_iff {α β : Type} {f : α → Except Fault β} {fault : Fault} :
    ∀ {as : List α}, as.mapM f = .error fault ↔
      ∃ front a rest, as = front ++ a :: rest ∧ (∀ b ∈ front, ∃ v, f b = .ok v) ∧
        f a = .error fault
  | [] => by simp [pure, Except.pure]
  | a :: as => by
    have hcons : (a :: as).mapM f = .error fault ↔
        f a = .error fault ∨ (∃ v, f a = .ok v) ∧ as.mapM f = .error fault := by
      rw [List.mapM_cons]
      cases f a <;> cases as.mapM f <;> simp [bind, Except.bind, pure, Except.pure]
    rw [hcons, mapM_eq_error_iff]
    constructor
    · rintro (ha | ⟨ha, front, b, rest, rfl, hfront, hb⟩)
      · exact ⟨[], a, as, rfl, by simp, ha⟩
      · exact ⟨a :: front, b, rest, rfl, List.forall_mem_cons.mpr ⟨ha, hfront⟩, hb⟩
    · rintro ⟨front, b, rest, hsplit, hfront, hb⟩
      rcases List.cons_eq_append_iff.mp hsplit with ⟨rfl, heq⟩ | ⟨front', rfl, rfl⟩
      · obtain ⟨rfl, -⟩ := List.cons.inj heq
        exact .inl hb
      · obtain ⟨ha, hfront'⟩ := List.forall_mem_cons.mp hfront
        exact .inr ⟨ha, front', b, rest, rfl, hfront', hb⟩

/-! ### Tables and columns -/

namespace Table

theorem column_eq_ok_iff {t : Table} {name : String} {col : Column} :
    t.column name = .ok col ↔ t.column? name = some col := by
  unfold column
  cases t.column? name <;> simp

theorem column?_isSome_iff {t : Table} {name : String} :
    (∃ col, t.column? name = some col) ↔ name ∈ t.columns.map Column.name := by
  simp only [← Option.isSome_iff_exists, column?, List.find?_isSome, decide_eq_true_eq,
    List.mem_map]

theorem size_column? {t : Table} {name : String} {col : Column} (h : t.column? name = some col) :
    col.size = t.rowCount :=
  t.even col (List.mem_of_find?_eq_some h)

end Table

namespace Catalog

theorem table_eq_ok_iff {c : Catalog} {name : String} {t : Table} :
    c.table name = .ok t ↔ c.find? name = some t := by
  unfold table
  cases c.find? name <;> simp

theorem name_of_find? {c : Catalog} {name : String} {t : Table} (h : c.find? name = some t) :
    t.name = name := by
  simpa using List.find?_some h

/-- A column is found by its table, which the name before the last dot
names. -/
theorem resolve_eq_ok_iff {c : Catalog} {name : String} {col : Column} :
    c.resolve name = .ok col ↔ ∃ table field t, splitQualified name = .ok (table, field) ∧
      c.find? table = some t ∧ t.column? field = some col := by
  simp only [resolve, bind_eq_ok_iff, table_eq_ok_iff, Table.column_eq_ok_iff]
  constructor
  · rintro ⟨⟨table, field⟩, hsplit, t, ht, hcol⟩
    exact ⟨table, field, t, hsplit, ht, hcol⟩
  · rintro ⟨table, field, t, hsplit, ht, hcol⟩
    exact ⟨(table, field), hsplit, t, ht, hcol⟩

/-- A column that is found is one of the table before the dot. -/
theorem find?_of_resolve {c : Catalog} {name table field : String} {col : Column}
    (hsplit : splitQualified name = .ok (table, field)) (h : c.resolve name = .ok col) :
    ∃ t, c.find? table = some t ∧ t.column? field = some col := by
  obtain ⟨table', field', t, hsplit', ht, hcol⟩ := resolve_eq_ok_iff.mp h
  obtain ⟨rfl, rfl⟩ := Prod.mk.inj (Except.ok.inj (hsplit.symm.trans hsplit'))
  exact ⟨t, ht, hcol⟩

end Catalog

/-! ### Variables -/

namespace Session

theorem lookup_eq_ok_iff {s : Session} {name : String} {b : Binding} :
    s.lookup name = .ok b ↔ s.bindings name = some b := by
  unfold lookup
  cases s.bindings name <;> simp

theorem selection_eq_ok_iff {s : Session} {name : String} {sel : Selection} :
    s.selection name = .ok sel ↔ s.bindings name = some (.selection sel) := by
  simp only [selection, bind_eq_ok_iff, lookup_eq_ok_iff]
  constructor
  · rintro ⟨b, hb, h⟩
    cases b <;> simp_all
  · exact fun h => ⟨_, h, rfl⟩

theorem vector_eq_ok_iff {s : Session} {name : String} {values : List Value}
    {source : Option Provenance} :
    s.vector name = .ok (values, source) ↔ s.bindings name = some (.vector values source) := by
  simp only [vector, bind_eq_ok_iff, lookup_eq_ok_iff]
  constructor
  · rintro ⟨b, hb, h⟩
    cases b <;> simp_all
  · exact fun h => ⟨_, h, rfl⟩

end Session
end Columnar
