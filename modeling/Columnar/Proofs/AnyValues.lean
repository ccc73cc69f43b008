/-
# The scenarios on tables of any values

The scenarios are made for the fixture tables, but what these hold matters
little to them. Take any catalog with two tables of these names and columns
(`Fixture.Registered`): in any order, of any number of rows, with any integers
and floats in them. Whatever the parameters of a scenario, it fails at most by
a number that there is not, and those that compute no such number do not fail
at all (`Scenario.evaluate_anyValues`). So no name in a scenario is wrong, no
two lengths disagree and no selection is out of date.

That every scenario is typed is known but for the one that takes all
aggregates of each vector. Its sums are bounded on a table without rows only,
which is as good a schema as any other where the bounds do not matter.

Key definitions: `Fixture.Registered`.
Key theorems: `Scenario.typed_aggregatedSelectFetch`,
`Scenario.evaluate_anyValues`.
-/
import Columnar.Proofs.Hazards
import Columnar.Proofs.Scenarios

namespace Columnar

/-- The two tables of the scenarios are there, with the columns that they have
as fixtures. -/
structure Fixture.Registered (c : Catalog) : Prop where
  narrow : ∃ t, c.find? narrowName = some t ∧ (t.columns.map Column.name).Perm narrowColumns
  wide : ∃ t, c.find? wideName = some t ∧ (t.columns.map Column.name).Perm wideColumns

theorem Table.hasFields_of_perm {c : Catalog} {t : Table} {σ : Schema} {columns : List String}
    (hfind : c.find? σ.table = some t) (hcols : (t.columns.map Column.name).Perm columns)
    (hfields : ∀ f ∈ σ.fields, '.' ∉ f.1.toList ∧ f.1 ∈ columns) : t.HasFields σ where
  name := Catalog.name_of_find? hfind
  fields f hf := ⟨(hfields f hf).1, hcols.mem_iff.mpr (hfields f hf).2⟩

namespace Scenario

open Fixture (narrowSchema wideSchema)

/-! ### All aggregates of a vector -/

theorem lookup_numbered {p q : String} (h : p ≠ q) (i : Nat) (shape : Shape) (Γ : Shapes) :
    ((q ++ i.repr, shape) :: Γ).lookup (p ++ i.repr) = Γ.lookup (p ++ i.repr) := by
  rw [List.lookup_cons, beq_false_of_ne (numbered_ne h i)]

/-- The vector is still there after each of the aggregates. -/
theorem typed_allAggregates (i : Nat) {Γ : Shapes} {conditions : List Condition}
    {field : Option String} {b : Nat}
    (h : Γ.lookup ("f" ++ i.repr) = some (.vector conditions field b)) :
    ∃ Δ, TypedScript (narrowSchema 0) Γ (allAggregates i ("f" ++ i.repr)) Δ
        [⟨.least, conditions⟩, ⟨.greatest, conditions⟩] ∧
      Δ.lookup ("f" ++ i.repr) = some (.vector conditions field b) := by
  have hkeep : ∀ {Θ : Shapes}, Θ.lookup ("f" ++ i.repr) = some (.vector conditions field b) →
      ∀ q, "f" ≠ q → ((q ++ i.repr, Shape.scalar) :: Θ).lookup ("f" ++ i.repr) =
        some (.vector conditions field b) :=
    fun hΘ q hq => (lookup_numbered hq i _ _).trans hΘ
  have haverage := hkeep h "a" (by decide)
  have hsum := hkeep haverage "sum" (by decide)
  have hleast := hkeep hsum "min" (by decide)
  have hgreatest := hkeep hleast "max" (by decide)
  have hfits : (narrowSchema 0).rows * b < 2 ^ 63 := by
    show 0 * b < 2 ^ 63
    omega
  exact ⟨_, .cons (.average (.assigned h)) <| .cons (.sum (.assigned haverage) hfits) <|
    .extreme (.assigned hsum) (.inl rfl) <| .extreme (.assigned hleast) (.inr rfl) <|
    .cons .comment .nil, hgreatest⟩

/-- The extremes that one query asks for. -/
def extremesIn (range : Range) : List Demand :=
  [⟨.least, [⟨"col1", range⟩]⟩, ⟨.greatest, [⟨"col1", range⟩]⟩]

/-- What both halves have in common: rows in a range, the values of a column
there and all aggregates of them. -/
theorem typed_aggregatedQuery (i : Nat) (Γ : Shapes) (text : String) (range : Range)
    {field : String} {b : Nat} (hfield : (narrowSchema 0).fields.lookup field = some b) :
    ∃ Δ, TypedScript (narrowSchema 0) Γ
        ([.comment text, .select ("s" ++ i.repr) (narrowColumn "col1") range,
          .fetch ("f" ++ i.repr) (narrowColumn field) ("s" ++ i.repr)] ++
          allAggregates i ("f" ++ i.repr)) Δ (extremesIn range) ∧
      Δ.lookup ("f" ++ i.repr) = some (.vector [⟨"col1", range⟩] (some field) b) := by
  have hfetched : List.lookup ("f" ++ i.repr)
      (("f" ++ i.repr, .vector [⟨"col1", range⟩] (some field) b) ::
        ("s" ++ i.repr, .rows [⟨"col1", range⟩]) :: Γ) =
      some (.vector [⟨"col1", range⟩] (some field) b) := List.lookup_cons_self
  obtain ⟨Δ, haggregates, hvector⟩ := typed_allAggregates i hfetched
  exact ⟨Δ, .cons .comment <| .cons (.select rfl) <| .cons (.fetch List.lookup_cons_self hfield)
    haggregates, hvector⟩

theorem typed_aggregatedLowQuery (i : Nat) (Γ : Shapes) :
    ∃ Δ, TypedScript (narrowSchema 0) Γ (lowQuery true i) Δ
      (extremesIn ⟨.unbounded, .at (.int lowThreshold)⟩) := by
  have hfirst : (narrowSchema 0).fields.lookup "col1" = some (2 ^ 63) := rfl
  obtain ⟨Δ, hquery, hvector⟩ := typed_aggregatedQuery i Γ
    ("SELECT col1 FROM tbl1 WHERE col1 < " ++ lowThreshold.toInt.repr ++ ";")
    ⟨.unbounded, .at (.int lowThreshold)⟩ hfirst
  exact ⟨Δ, hquery.append (.cons (.printVector hvector) .nil)⟩

theorem typed_aggregatedHighQuery (i : Nat) (Γ : Shapes) :
    ∃ Δ, TypedScript (narrowSchema 0) Γ (highQuery true i) Δ
      (extremesIn ⟨.at (.int highThreshold), .unbounded⟩) := by
  have hsecond : (narrowSchema 0).fields.lookup "col2" = some (2 ^ 63) := rfl
  obtain ⟨Δ, hquery, -⟩ := typed_aggregatedQuery i Γ
    ("SELECT col2 FROM tbl1 WHERE col1 >= " ++ highThreshold.toInt.repr ++ ";")
    ⟨.at (.int highThreshold), .unbounded⟩ hsecond
  exact ⟨Δ, hquery⟩

theorem typed_aggregatedSelectFetch (queries : Nat) :
    ∃ Γ demands, TypedScript (narrowSchema 0) [] (selectFetch queries true).commands Γ demands := by
  obtain ⟨Γ, htyped⟩ := typed_queries typed_aggregatedLowQuery typed_aggregatedHighQuery queries
  exact ⟨Γ, _, htyped⟩

/-! ### What a scenario can fail in -/

theorem scriptHazards_selectFetch (queries : Nat) :
    scriptHazards (selectFetch queries false).commands = [] := by
  have hlow : ∀ i, scriptHazards (lowQuery false i) = [] := fun _ => rfl
  have hhigh : ∀ i, scriptHazards (highQuery false i) = [] := fun _ => rfl
  have hhead : scriptHazards [.comment "Test Select + Fetch", line] = [] := rfl
  simp only [selectFetch, scriptHazards_append, scriptHazards_flatMap, hlow, hhigh, hhead,
    List.flatMap_eq_nil_iff.mpr fun _ _ => rfl, List.append_nil]

theorem scriptHazards_leastGreatest (w : Window) :
    scriptHazards (leastGreatest w).commands =
      List.replicate 3 (.emptyAggregate .least) ++ List.replicate 3 (.emptyAggregate .greatest) :=
  rfl

section

variable {c : Catalog} (hc : Fixture.Registered c)

include hc

theorem failsOnly_of_narrow {sc : Scenario} {Γ : Shapes} {demands : List Demand}
    (h : TypedScript (narrowSchema 0) [] sc.commands Γ demands) :
    FailsOnly (· ∈ scriptHazards sc.commands) (sc.evaluate c) := by
  obtain ⟨t, hfind, hcols⟩ := hc.narrow
  have ht : t.HasFields (narrowSchema 0) :=
    Table.hasFields_of_perm hfind hcols (by decide)
  exact failsOnly_of_typedScript ht hfind h

theorem failsOnly_of_wide {sc : Scenario} {Γ : Shapes} {demands : List Demand}
    (h : TypedScript wideSchema [] sc.commands Γ demands) :
    FailsOnly (· ∈ scriptHazards sc.commands) (sc.evaluate c) := by
  obtain ⟨t, hfind, hcols⟩ := hc.wide
  have ht : t.HasFields wideSchema := Table.hasFields_of_perm hfind hcols (by decide)
  exact failsOnly_of_typedScript ht hfind h

theorem exists_evaluate_loadNarrow (directory : String) :
    ∃ result, (loadNarrow directory).evaluate c = .ok result := by
  obtain ⟨t, hfind, hcols⟩ := hc.narrow
  exact ⟨_, evaluate_loadNarrow hfind hcols directory⟩

theorem exists_evaluate_loadWide (directory : String) :
    ∃ result, (loadWide directory).evaluate c = .ok result := by
  obtain ⟨t, hfind, hcols⟩ := hc.wide
  have hname : t.name = Fixture.wideName := Catalog.name_of_find? hfind
  have hwidth : t.columns.length = 4 := by
    rw [← List.length_map Column.name, hcols.length_eq]
    rfl
  have hrows : ∀ row ∈ Fixture.insertedRows, row.length = t.columns.length := fun row hrow =>
    (Fixture.length_of_mem_insertedRows row hrow).trans hwidth.symm
  obtain ⟨u, hu, -⟩ := Table.exists_grown hrows
  have hload := evaluate_loadWide (c := c) hname hcols hu directory
  rw [Catalog.register_of_find? (hname ▸ hfind)] at hload
  exact ⟨_, hload⟩

theorem exists_evaluate_selectFetch (queries : Nat) :
    ∃ result, (selectFetch queries false).evaluate c = .ok result := by
  obtain ⟨Γ, htyped⟩ := typed_selectFetch 0 queries
  have hfails := failsOnly_of_narrow hc htyped
  rw [scriptHazards_selectFetch] at hfails
  exact hfails.exists_ok fun _ => List.not_mem_nil

theorem exists_evaluate_averageWindow : ∃ result, averageWindow.evaluate c = .ok result := by
  obtain ⟨Γ, htyped⟩ := typed_averageWindow 0
  have hnone : scriptHazards averageWindow.commands = [] := rfl
  have hfails := failsOnly_of_narrow hc htyped
  rw [hnone] at hfails
  exact hfails.exists_ok fun _ => List.not_mem_nil

/-- A script on the wide table whose only hazards are overflows. -/
theorem failsOnly_overflow {sc : Scenario} {Γ : Shapes} {demands : List Demand} {n : Nat}
    (h : TypedScript wideSchema [] sc.commands Γ demands)
    (hhazards : scriptHazards sc.commands = List.replicate n .overflow) :
    FailsOnly (· = .overflow) (sc.evaluate c) := by
  have hfails := failsOnly_of_wide hc h
  rw [hhazards] at hfails
  exact hfails.mono fun _ => List.eq_of_mem_replicate

theorem failsOnly_summation (w : Window) :
    FailsOnly (· = .overflow) ((summation w).evaluate c) := by
  obtain ⟨Γ, htyped⟩ := typed_summation w
  have hhazards : scriptHazards (summation w).commands = List.replicate 2 .overflow := rfl
  exact failsOnly_overflow hc htyped hhazards

theorem failsOnly_addition (w : Window) :
    FailsOnly (· = .overflow) ((addition w).evaluate c) := by
  obtain ⟨Γ, htyped⟩ := typed_addition w
  have hhazards : scriptHazards (addition w).commands = List.replicate 1 .overflow := rfl
  exact failsOnly_overflow hc htyped hhazards

theorem failsOnly_subtraction (w : Window) :
    FailsOnly (· = .overflow) ((subtraction w).evaluate c) := by
  obtain ⟨Γ, htyped⟩ := typed_subtraction w
  have hhazards : scriptHazards (subtraction w).commands = List.replicate 1 .overflow := rfl
  exact failsOnly_overflow hc htyped hhazards

theorem failsOnly_leastGreatest (w : Window) :
    FailsOnly Fault.OfExtreme ((leastGreatest w).evaluate c) := by
  obtain ⟨Γ, htyped⟩ := typed_leastGreatest w
  refine (failsOnly_of_wide hc htyped).mono fun fault hfault => ?_
  rw [scriptHazards_leastGreatest, List.mem_append] at hfault
  rcases hfault with hleast | hgreatest
  · rw [List.eq_of_mem_replicate hleast]
    exact trivial
  · rw [List.eq_of_mem_replicate hgreatest]
    exact trivial

/-- **The scenarios on tables of any values.** The tables are loaded, rows are
selected and fetched and an average is taken without a fault. A sum and an
elementwise sum or difference can fail only by an overflow, the scenario of
least and greatest values only at an extreme of nothing, and the scenarios
that compute both only in one of these ways. -/
theorem evaluate_anyValues :
    (∀ directory, ∃ result, (loadNarrow directory).evaluate c = .ok result) ∧
    (∀ queries, ∃ result, (selectFetch queries false).evaluate c = .ok result) ∧
    (∃ result, averageWindow.evaluate c = .ok result) ∧
    (∀ directory, ∃ result, (loadWide directory).evaluate c = .ok result) ∧
    (∀ w, FailsOnly (· = .overflow) ((summation w).evaluate c)) ∧
    (∀ w, FailsOnly (· = .overflow) ((addition w).evaluate c)) ∧
    (∀ w, FailsOnly (· = .overflow) ((subtraction w).evaluate c)) ∧
    (∀ w, FailsOnly Fault.OfExtreme ((leastGreatest w).evaluate c)) ∧
    (∀ first second, FailsOnly Fault.OfNumber ((conjunction first second).evaluate c)) ∧
    ∀ queries, FailsOnly Fault.OfNumber ((selectFetch queries true).evaluate c) := by
  refine ⟨exists_evaluate_loadNarrow hc, exists_evaluate_selectFetch hc,
    exists_evaluate_averageWindow hc, exists_evaluate_loadWide hc, failsOnly_summation hc,
    failsOnly_addition hc, failsOnly_subtraction hc, failsOnly_leastGreatest hc,
    fun first second => ?_, fun queries => ?_⟩
  · obtain ⟨Γ, htyped⟩ := typed_conjunction first second
    exact (failsOnly_of_wide hc htyped).mono fun _ => ofNumber_of_mem_scriptHazards
  · obtain ⟨Γ, demands, htyped⟩ := typed_aggregatedSelectFetch queries
    exact (failsOnly_of_narrow hc htyped).mono fun _ => ofNumber_of_mem_scriptHazards

end

/-- A narrow table without rows, and a wide one with the columns in another
order, the largest integer twice and a NaN. -/
def unlikelyTables : Catalog :=
  (Catalog.empty.register ⟨Fixture.narrowName, [⟨"col2", #[]⟩, ⟨"col1", #[]⟩], 0, by decide,
    by decide⟩).register
  ⟨Fixture.wideName, [⟨"col4", #[.float .nan, .int 0]⟩,
    Column.ofInts "col1" [9223372036854775807, 9223372036854775807],
    Column.ofInts "col2" [1, -1], Column.ofInts "col3" [0, 0]], 2, by decide, by decide⟩

/-- Nothing is there to be selected from the narrow table, and the sum of a
whole column of the wide one overflows. -/
theorem evaluate_anyValues_unlikelyTables :
    Fixture.Registered unlikelyTables ∧
      (∃ result, (selectFetch 2 false).evaluate unlikelyTables = .ok result) ∧
      (summation ⟨5, 0⟩).evaluate unlikelyTables = .error .overflow := by
  have hregistered : Fixture.Registered unlikelyTables :=
    ⟨⟨_, rfl, by decide⟩, ⟨_, rfl, by decide⟩⟩
  obtain ⟨-, hselects, -⟩ := evaluate_anyValues hregistered
  exact ⟨hregistered, hselects 2, rfl⟩

end Scenario
end Columnar
