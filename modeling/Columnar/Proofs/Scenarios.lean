/-
# How the scenarios end

The scenarios that load a table change nothing but for their inserts
(`Scenario.evaluate_loadNarrow`, `Scenario.evaluate_loadWide`). All others are
typed scripts on one of the fixture tables, so nothing can go wrong with them
but the least and greatest values they ask for. That leaves the last two on
the wide table: they fail exactly if no row lies in the windows, and at the
least value then (`Scenario.evaluate_leastGreatest`,
`Scenario.evaluate_conjunction`).

Key theorems: `Scenario.evaluate_of_typedScript`, `Scenario.evaluate_loadWide`,
`Scenario.evaluate_leastGreatest`, `Scenario.evaluate_conjunction`.
-/
import Columnar.Proofs.Fixtures
import Columnar.Proofs.Frame
import Columnar.Scenario.Narrow
import Columnar.Scenario.Wide

namespace Columnar

/-! ### Loading -/

theorem putTable_putTable {t u : Table} (h : u.name = t.name) : ∀ us : List Table,
    putTable u (putTable t us) = putTable u us
  | [] => by simp [putTable, h]
  | v :: us => by
    by_cases hv : v.name = t.name
    · simp [putTable, hv, h]
    · simp [putTable, hv, h, putTable_putTable h us]

theorem Catalog.register_register (c : Catalog) {t u : Table} (h : u.name = t.name) :
    (c.register t).register u = c.register u :=
  Catalog.ext (putTable_putTable h c.tables)

theorem putTable_of_find? {t : Table} : ∀ {us : List Table},
    us.find? (·.name = t.name) = some t → putTable t us = us
  | [], h => by simp at h
  | u :: us, h => by
    rw [List.find?_cons] at h
    by_cases hu : u.name = t.name
    · simp only [hu, decide_true, Option.some.injEq] at h
      rw [putTable, if_pos hu, h]
    · simp only [hu, decide_false] at h
      rw [putTable, if_neg hu, putTable_of_find? h]

theorem Catalog.register_of_find? {c : Catalog} {t : Table} (h : c.find? t.name = some t) :
    c.register t = c :=
  Catalog.ext (putTable_of_find? h)

namespace Session

theorem run_of_nothing {s : Session} : ∀ {cs : List Command},
    (∀ c ∈ cs, s.effect c = .ok .nothing) → s.run cs = (.ok "", s)
  | [], _ => rfl
  | c :: cs, h => by
    obtain ⟨hc, hcs⟩ := List.forall_mem_cons.mp h
    have hrest : (s.after .nothing).run cs = (.ok "", s) := run_of_nothing hcs
    rw [run_cons_ok hc, hrest]
    rfl

/-- Rows are inserted into the table that stands under the name. -/
theorem run_inserts {c : Catalog} {name : String} : ∀ {rows : List (List Value)} {t u : Table}
    {s : Session}, s.catalog = c.register t → t.name = name →
    rows.foldlM Table.insert t = .ok u →
    ∃ last, s.run (rows.map (.insert name)) = (.ok "", last) ∧ last.catalog = c.register u
  | [], t, u, s, hs, _, hu => by
    obtain rfl : t = u := Except.ok.inj hu
    exact ⟨s, rfl, hs⟩
  | row :: rows, t, u, s, hs, hname, hu => by
    rw [List.foldlM_cons, bind_eq_ok_iff] at hu
    obtain ⟨v, hv, hu⟩ := hu
    have hfind : s.catalog.find? name = some t := by
      rw [hs, Catalog.find?_register, if_pos hname]
    have heffect := effect_of_performs (.insert hfind hv)
    have hvname := Table.name_insert hv
    have hcatalog : (s.after (.grow v)).catalog = c.register v := by
      rw [after, hs]
      exact c.register_register hvname
    obtain ⟨last, hrun, hlast⟩ := run_inserts hcatalog (hvname.trans hname) hu
    refine ⟨last, ?_, hlast⟩
    rw [List.map_cons, run_cons_ok heffect, hrun]
    rfl

end Session

namespace Scenario

open Session

/-- To create and load a table that is there with these columns, in whatever
order, does nothing. -/
theorem effect_creation {s : Session} {short : String} {t : Table} {columns : List String}
    (ht : s.catalog.find? (qualify Fixture.database short) = some t)
    (hcols : (t.columns.map Column.name).Perm columns) (file directory : String) :
    ∀ c ∈ creation short columns file directory, s.effect c = .ok .nothing := by
  have hlength : columns.length = t.columns.length := by rw [← hcols.length_eq, List.length_map]
  intro c hc
  simp only [creation, List.cons_append, List.mem_cons, List.mem_append, List.mem_map,
    List.not_mem_nil, or_false] at hc
  rcases hc with rfl | ⟨name, hname, rfl⟩ | rfl
  · rw [hlength]
    exact effect_of_performs (.createTable ht)
  · obtain ⟨col, hcol⟩ := Table.column?_isSome_iff.mpr (hcols.mem_iff.mpr hname)
    exact effect_of_performs (.createColumn ht hcol)
  · rfl

/-- The first scenario on the narrow table prints nothing and changes
nothing. -/
theorem evaluate_loadNarrow {catalog : Catalog} {t : Table}
    (ht : catalog.find? Fixture.narrowName = some t)
    (hcols : (t.columns.map Column.name).Perm Fixture.narrowColumns) (directory : String) :
    (loadNarrow directory).evaluate catalog = .ok ("", catalog) := by
  have hcreation := effect_creation (s := start catalog) ht hcols Fixture.narrowFile directory
  refine evaluate_of_run (run_of_nothing fun c hc => ?_)
  simp only [loadNarrow, List.mem_append, List.mem_cons, List.not_mem_nil, or_false] at hc
  rcases hc with ((rfl | rfl) | hc) | rfl
  · rfl
  · rfl
  · exact hcreation c hc
  · rfl

/-- The first scenario on the wide table prints nothing and inserts its
rows. -/
theorem evaluate_loadWide {c : Catalog} {t u : Table} (hname : t.name = Fixture.wideName)
    (hcols : (t.columns.map Column.name).Perm Fixture.wideColumns)
    (hu : Fixture.insertedRows.foldlM Table.insert t = .ok u) (directory : String) :
    (loadWide directory).evaluate (c.register t) = .ok ("", c.register u) := by
  have hfind : (c.register t).find? Fixture.wideName = some t := by
    rw [Catalog.find?_register, if_pos hname]
  have hcreation := effect_creation (s := start (c.register t)) hfind hcols Fixture.wideFile
    directory
  have hprefix : ∀ d ∈ [.comment "Load Test Data 2", line, .comment
      "Load+create+insert Data and shut down of tbl2 which has 4 attributes"] ++
      creation Fixture.wideShort Fixture.wideColumns Fixture.wideFile directory,
      (start (c.register t)).effect d = .ok .nothing := by
    intro d hd
    simp only [List.mem_append, List.mem_cons, List.not_mem_nil, or_false] at hd
    rcases hd with (rfl | rfl | rfl) | hd
    · rfl
    · rfl
    · rfl
    · exact hcreation d hd
  -- three parts: nothing happens, the rows are inserted, nothing happens
  have hloaded := run_of_nothing hprefix
  obtain ⟨last, hinserts, hlast⟩ := run_inserts (s := start (c.register t)) rfl hname hu
  have hshutdown : last.run [.shutdown] = (.ok "", last) :=
    run_of_nothing fun d hd => by
      rw [List.mem_singleton.mp hd]
      rfl
  have hrun : (start (c.register t)).run (loadWide directory).commands = (.ok "", last) := by
    rw [loadWide, List.append_assoc, run_append hloaded, run_append hinserts, hshutdown]
    rfl
  rw [evaluate_of_run hrun, hlast]

/-! ### Typed scripts -/

theorem evaluate_of_typedScript {σ : Schema} {t : Table} (ht : t.Conforms σ) {catalog : Catalog}
    (hfind : catalog.find? σ.table = some t) {sc : Scenario} {Γ : Shapes} {demands : List Demand}
    (h : TypedScript σ [] sc.commands Γ demands) :
    match demands.find? t.lacks with
    | none => ∃ result, sc.evaluate catalog = .ok result
    | some d => sc.evaluate catalog = .error (.emptyAggregate d.function) := by
  have hshapes : (start catalog).HasShapes t [] :=
    ⟨ht.name ▸ hfind, fun name shape hlookup => by simp at hlookup⟩
  have hends := run_of_typedScript ht h hshapes
  split
  · rename_i hnone
    rw [hnone] at hends
    obtain ⟨text, last, hrun, -⟩ := hends
    exact ⟨_, evaluate_of_run hrun⟩
  · rename_i d hsome
    rw [hsome] at hends
    exact evaluate_of_run_error hends

theorem typed_flatMap {α : Type} {σ : Schema} {f : α → List Command} {g : α → List Demand}
    (h : ∀ a Γ, ∃ Δ, TypedScript σ Γ (f a) Δ (g a)) :
    ∀ (as : List α) (Γ : Shapes), ∃ Δ, TypedScript σ Γ (as.flatMap f) Δ (as.flatMap g)
  | [], Γ => ⟨Γ, .nil⟩
  | a :: as, Γ => by
    obtain ⟨Δ, hfirst⟩ := h a Γ
    obtain ⟨Θ, hrest⟩ := typed_flatMap h as Δ
    exact ⟨Θ, hfirst.append hrest⟩

/-! ### The narrow table -/

theorem numbered_ne {p q : String} (h : p ≠ q) (i : Nat) : p ++ i.repr ≠ q ++ i.repr :=
  fun heq => h ((String.append_left_inj i.repr).mp heq)

theorem typed_lowQuery (rows i : Nat) (Γ : Shapes) :
    ∃ Δ, TypedScript (Fixture.narrowSchema rows) Γ (lowQuery false i) Δ [] :=
  ⟨_, .cons .comment <| .cons (.select rfl) <| .cons (.fetch List.lookup_cons_self rfl) <|
    .cons (.printVector List.lookup_cons_self) .nil⟩

theorem typed_highQuery (rows i : Nat) (Γ : Shapes) :
    ∃ Δ, TypedScript (Fixture.narrowSchema rows) Γ (highQuery false i) Δ [] :=
  ⟨_, .cons .comment <| .cons (.select rfl) <| .cons (.fetch List.lookup_cons_self rfl) <|
    .cons (.printVector List.lookup_cons_self) .nil⟩

/-- What is asked for in the queries one by one is asked for in all of them. -/
theorem typed_queries {σ : Schema} {aggregated : Bool} {low high : Nat → List Demand}
    (hlow : ∀ i Γ, ∃ Δ, TypedScript σ Γ (lowQuery aggregated i) Δ (low i))
    (hhigh : ∀ i Γ, ∃ Δ, TypedScript σ Γ (highQuery aggregated i) Δ (high i)) (queries : Nat) :
    ∃ Γ, TypedScript σ [] (selectFetch queries aggregated).commands Γ
      ((List.range queries).flatMap (fun i => low (i + 1)) ++
        (List.range queries).flatMap (fun i => high (queries + i + 1))) := by
  have hhead : TypedScript σ [] [.comment "Test Select + Fetch", line] [] [] :=
    .cons .comment (.cons .comment .nil)
  obtain ⟨Γ, hlows⟩ := typed_flatMap (fun i Γ => hlow (i + 1) Γ) (List.range queries) []
  obtain ⟨Δ, hhighs⟩ := typed_flatMap (fun i Γ => hhigh (queries + i + 1) Γ)
    (List.range queries) Γ
  exact ⟨Δ, (hhead.append hlows).append hhighs⟩

theorem typed_selectFetch (rows queries : Nat) :
    ∃ Γ, TypedScript (Fixture.narrowSchema rows) [] (selectFetch queries false).commands Γ [] := by
  have hqueries := typed_queries (typed_lowQuery rows) (typed_highQuery rows) queries
  have hnone : (List.range queries).flatMap (fun _ => ([] : List Demand)) = [] :=
    List.flatMap_eq_nil_iff.mpr fun _ _ => rfl
  rwa [hnone] at hqueries

theorem typed_averageWindow (rows : Nat) :
    ∃ Γ, TypedScript (Fixture.narrowSchema rows) [] averageWindow.commands Γ [] :=
  ⟨_, .cons .comment <| .cons .comment <| .cons .comment <| .cons (.select rfl) <|
    .cons (.fetch rfl rfl) <| .cons (.average (.assigned rfl)) <|
    .cons (.printScalars rfl) .nil⟩

section

variable {rows : Nat} {t : Table} {catalog : Catalog}
  (ht : t.Conforms (Fixture.narrowSchema rows)) (hfind : catalog.find? Fixture.narrowName = some t)

include ht hfind

theorem evaluate_selectFetch (queries : Nat) :
    ∃ result, (selectFetch queries false).evaluate catalog = .ok result := by
  obtain ⟨Γ, htyped⟩ := typed_selectFetch rows queries
  exact evaluate_of_typedScript ht hfind htyped

theorem evaluate_averageWindow : ∃ result, averageWindow.evaluate catalog = .ok result := by
  obtain ⟨Γ, htyped⟩ := typed_averageWindow rows
  exact evaluate_of_typedScript ht hfind htyped

end

/-! ### The wide table -/

/-- The rows in a window of the first column. -/
def inside (w : Window) : List Condition := [⟨"col1", w.range⟩]

/-- The rows in two windows, one of the first column and one of the second. -/
def insideBoth (first second : Window) : List Condition :=
  ⟨"col2", second.range⟩ :: inside first

open Fixture (wideSchema)

theorem typed_summation (w : Window) :
    ∃ Γ, TypedScript wideSchema [] (summation w).commands Γ [] :=
  ⟨_, .cons .comment <| .cons .comment <| .cons .comment <| .cons (.select rfl) <|
    .cons (.fetch rfl rfl) <| .cons (.sum (.assigned rfl) (by decide)) <|
    .cons (.printScalars rfl) <| .cons .comment <| .cons .comment <|
    .cons (.sum (.stored rfl) (by decide)) <| .cons (.printScalars rfl) .nil⟩

theorem typed_addition (w : Window) :
    ∃ Γ, TypedScript wideSchema [] (addition w).commands Γ [] :=
  ⟨_, .cons .comment <| .cons .comment <| .cons .comment <| .cons (.select rfl) <|
    .cons (.fetch rfl rfl) <| .cons (.fetch rfl rfl) <|
    .cons (.arithmetic rfl rfl (by decide)) <| .cons (.printVector rfl) .nil⟩

theorem typed_subtraction (w : Window) :
    ∃ Γ, TypedScript wideSchema [] (subtraction w).commands Γ [] :=
  ⟨_, .cons .comment <| .cons .comment <| .cons .comment <| .cons (.select rfl) <|
    .cons (.fetch rfl rfl) <| .cons (.fetch rfl rfl) <|
    .cons (.arithmetic rfl rfl (by decide)) <| .cons (.printVector rfl) .nil⟩

/-- One extreme is asked for three times: of the whole table and of two
columns in the window. -/
theorem typed_extremes (Γ : Shapes) {function : Aggregate}
    (hfunction : function = .least ∨ function = .greatest) (w : Window)
    (whole s f₁ m₁ f₂ m₂ : String) (hf : (s == f₁) = false) (hm : (s == m₁) = false) :
    ∃ Δ, TypedScript wideSchema Γ (extremes function w whole s f₁ m₁ f₂ m₂) Δ
      [⟨function, []⟩, ⟨function, inside w⟩, ⟨function, inside w⟩] := by
  refine ⟨_, .cons .comment <| .extreme (.stored rfl) hfunction <|
    .cons (.printScalars (by simp)) <| .cons .comment <| .cons .comment <| .cons .comment <|
    .cons (.select rfl) <| .cons (.fetch List.lookup_cons_self rfl) <|
    .extreme (.assigned List.lookup_cons_self) hfunction <| .cons (.printScalars (by simp)) <|
    .cons .comment <| .cons .comment <| .cons (.fetch ?_ rfl) <|
    .extreme (.assigned List.lookup_cons_self) hfunction <| .cons (.printScalars (by simp)) .nil⟩
  rw [List.lookup_cons, hm, List.lookup_cons, hf, List.lookup_cons_self]
  rfl

theorem typed_leastGreatest (w : Window) :
    ∃ Γ, TypedScript wideSchema [] (leastGreatest w).commands Γ
      [⟨.least, []⟩, ⟨.least, inside w⟩, ⟨.least, inside w⟩,
       ⟨.greatest, []⟩, ⟨.greatest, inside w⟩, ⟨.greatest, inside w⟩] := by
  have hhead : TypedScript wideSchema [] [.comment "Min,Max", line, .comment "Min"] [] [] :=
    .cons .comment (.cons .comment (.cons .comment .nil))
  obtain ⟨Γ, hleast⟩ := typed_extremes [] (.inl rfl) w "a1" "s1" "f1" "m1" "f2" "m2" rfl rfl
  have hmiddle : TypedScript wideSchema Γ [line, line, .comment "Max"] Γ [] :=
    .cons .comment (.cons .comment (.cons .comment .nil))
  obtain ⟨Δ, hgreatest⟩ :=
    typed_extremes Γ (.inr rfl) w "a2" "s21" "f21" "m21" "f22" "m22" rfl rfl
  exact ⟨Δ, ((hhead.append hleast).append hmiddle).append hgreatest⟩

/-- Extremes are asked for in both halves, always of the rows in both windows. -/
theorem typed_conjunction (first second : Window) :
    ∃ Γ, TypedScript wideSchema [] (conjunction first second).commands Γ
      [⟨.least, insideBoth first second⟩, ⟨.greatest, insideBoth first second⟩,
       ⟨.least, insideBoth first second⟩, ⟨.greatest, insideBoth first second⟩] :=
  ⟨_, .cons .comment <| .cons .comment <| .cons .comment <| .cons .blank <| .cons .comment <|
    .cons (.select rfl) <| .cons (.fetch rfl rfl) <| .cons (.selectFrom rfl rfl) <|
    .cons (.fetch rfl rfl) <| .cons (.fetch rfl rfl) <|
    .extreme (.assigned rfl) (.inl rfl) <| .extreme (.assigned rfl) (.inr rfl) <|
    .cons (.arithmetic rfl rfl (by decide)) <| .cons (.sum (.assigned rfl) (by decide)) <|
    .cons (.printScalars rfl) <| .cons .blank <| .cons .blank <| .cons .comment <|
    .cons (.select rfl) <| .cons (.fetch rfl rfl) <| .cons (.selectFrom rfl rfl) <|
    .cons (.fetch rfl rfl) <| .cons (.fetch rfl rfl) <| .cons (.fetch rfl rfl) <|
    .cons (.arithmetic rfl rfl (by decide)) <| .cons (.average (.assigned rfl)) <|
    .extreme (.assigned rfl) (.inl rfl) <| .extreme (.assigned rfl) (.inr rfl) <|
    .cons (.arithmetic rfl rfl (by decide)) <| .cons (.average (.assigned rfl)) <|
    .cons (.sum (.assigned rfl) (by decide)) <| .cons (.printScalars rfl) .nil⟩

/-! ### How they end -/

section

variable {t : Table} {catalog : Catalog} (ht : t.Conforms wideSchema)
  (hfind : catalog.find? Fixture.wideName = some t)

include ht hfind

theorem evaluate_summation (w : Window) :
    ∃ result, (summation w).evaluate catalog = .ok result := by
  obtain ⟨Γ, htyped⟩ := typed_summation w
  exact evaluate_of_typedScript ht hfind htyped

theorem evaluate_addition (w : Window) : ∃ result, (addition w).evaluate catalog = .ok result := by
  obtain ⟨Γ, htyped⟩ := typed_addition w
  exact evaluate_of_typedScript ht hfind htyped

theorem evaluate_subtraction (w : Window) :
    ∃ result, (subtraction w).evaluate catalog = .ok result := by
  obtain ⟨Γ, htyped⟩ := typed_subtraction w
  exact evaluate_of_typedScript ht hfind htyped

/-- The whole table has rows, so the window decides. -/
theorem evaluate_leastGreatest (hpos : 0 < t.rowCount) (w : Window) :
    if ∃ row < t.rowCount, t.meets (inside w) row = true then
      ∃ result, (leastGreatest w).evaluate catalog = .ok result
    else (leastGreatest w).evaluate catalog = .error (.emptyAggregate .least) := by
  obtain ⟨Γ, htyped⟩ := typed_leastGreatest w
  have hends := evaluate_of_typedScript ht hfind htyped
  have hwhole : ∀ function, t.lacks ⟨function, []⟩ = false :=
    fun _ => Table.lacks_eq_false_iff.mpr ⟨0, hpos, rfl⟩
  split
  · rename_i hrow
    have hmet : ∀ function, t.lacks ⟨function, inside w⟩ = false :=
      fun _ => Table.lacks_eq_false_iff.mpr hrow
    simp only [List.find?_cons, hwhole, hmet, List.find?_nil] at hends
    exact hends
  · rename_i hrow
    have hlacks : t.lacks ⟨.least, inside w⟩ = true := by
      rwa [← Bool.not_eq_false, Table.lacks_eq_false_iff]
    simp only [List.find?_cons, hwhole, hlacks] at hends
    exact hends

theorem evaluate_conjunction (first second : Window) :
    if ∃ row < t.rowCount, t.meets (insideBoth first second) row = true then
      ∃ result, (conjunction first second).evaluate catalog = .ok result
    else (conjunction first second).evaluate catalog = .error (.emptyAggregate .least) := by
  obtain ⟨Γ, htyped⟩ := typed_conjunction first second
  have hends := evaluate_of_typedScript ht hfind htyped
  split
  · rename_i hrow
    have hmet : ∀ function, t.lacks ⟨function, insideBoth first second⟩ = false :=
      fun _ => Table.lacks_eq_false_iff.mpr hrow
    simp only [List.find?_cons, hmet, List.find?_nil] at hends
    exact hends
  · rename_i hrow
    have hlacks : t.lacks ⟨.least, insideBoth first second⟩ = true := by
      rwa [← Bool.not_eq_false, Table.lacks_eq_false_iff]
    simp only [List.find?_cons, hlacks] at hends
    exact hends

end

end Scenario
end Columnar
