/-
# The queries on the wide table, row by row

Five scenarios query the wide table. Their scripts select, fetch and aggregate
in steps, use a variable again for something else, and can fail at several of
these steps. What they give in the end is said here by the rows alone, in row
order: the rows in the windows, the results for each of them, and sums, extremes
and means of these.

Each scenario is followed command by command (`Scenario.answer`), and needs to
know of integers in the columns that it reads only. The two theorems at the end
tell the rows apart by their positions.

Key definitions: `Scenario.bothHold`.
Key theorems: `Scenario.summation_of_ints`, `Scenario.leastGreatest_of_ints`,
`Scenario.conjunction_of_ints`, `Scenario.arithmetic_by_rows`,
`Scenario.extremes_by_rows`.
-/
import Columnar.Proofs.Answers
import Columnar.Scenario.Wide

namespace Columnar
namespace Scenario

open Session

/-- The results of two fetched vectors, printed last, are one line for each row. -/
theorem answer_elementwise {catalog : Catalog} {printed : String} {Γ : Bindings} {ρ : Type}
    {rows : List ρ} {f g : ρ → Int64} {target left right : String} {op : Arithmetic}
    {s s' : Option Provenance}
    (hleft : Γ.lookup left = some (.vector (ints (integersOf f rows)) s))
    (hright : Γ.lookup right = some (.vector (ints (integersOf g rows)) s')) :
    answer catalog printed Γ [.arithmetic target op left right, .print [target]] =
      if ∀ x ∈ op.results f g rows, InInt64 x then
        .ok (printed ++ unlines ((op.results f g rows).map Int.repr), catalog)
      else .error .overflow := by
  refine .trans (answer_arithmetic hleft hright) ?_
  refine ite_congr rfl (fun hfit => ?_) fun _ => rfl
  exact answer_print_ints List.lookup_cons_self hfit

section

variable {catalog : Catalog} {t : Table} (ht : catalog.find? Fixture.wideName = some t)
  {ρ : Type} {rows kept : List ρ} {f₁ f₂ f₃ : ρ → Int64} (h₁ : t.HasInts rows "col1" f₁)

include ht h₁

/-! ### Sums and differences -/

theorem summation_of_ints (h₃ : t.HasInts rows "col3" f₃) {w : Window}
    (hkept : w.rowsIn f₁ rows = kept) :
    (summation w).evaluate catalog =
      if PrefixesFit (integersOf f₃ kept) ∧ PrefixesFit (integersOf f₁ rows) then
        .ok (unlines [(integersOf f₃ kept).sum.repr, (integersOf f₁ rows).sum.repr], catalog)
      else .error .overflow := by
  rw [evaluate_eq_answer]
  simp only [summation, line, query, answer_comment]
  refine .trans (answer_select ht (by decide) h₁) ?_
  refine .trans (answer_fetch ht (by decide) h₃ hkept rfl) ?_
  refine .trans (answer_sum (operand_assigned rfl) (inInt64_integersOf _ _)) ?_
  by_cases hpart : PrefixesFit (integersOf f₃ kept)
  · rw [if_pos hpart]
    refine .trans (answer_print_value hpart.inInt64_sum rfl) ?_
    simp only [answer_comment]
    refine .trans (answer_sum (operand_stored ht (by decide) h₁) (inInt64_integersOf _ _)) ?_
    by_cases hwhole : PrefixesFit (integersOf f₁ rows)
    · rw [if_pos hwhole, if_pos ⟨hpart, hwhole⟩]
      exact answer_print_value hwhole.inInt64_sum rfl
    · rw [if_neg hwhole, if_neg fun h => hwhole h.2]
  · rw [if_neg hpart, if_neg fun h => hpart h.1]

theorem addition_of_ints (h₂ : t.HasInts rows "col2" f₂) (h₃ : t.HasInts rows "col3" f₃)
    {w : Window} (hkept : w.rowsIn f₁ rows = kept) :
    (addition w).evaluate catalog =
      if ∀ x ∈ Arithmetic.add.results f₂ f₃ kept, InInt64 x then
        .ok (unlines ((Arithmetic.add.results f₂ f₃ kept).map Int.repr), catalog)
      else .error .overflow := by
  rw [evaluate_eq_answer]
  simp only [addition, line, query, answer_comment]
  refine .trans (answer_select ht (by decide) h₁) ?_
  refine .trans (answer_fetch ht (by decide) h₂ hkept rfl) ?_
  refine .trans (answer_fetch ht (by decide) h₃ hkept rfl) ?_
  exact answer_elementwise rfl rfl

theorem subtraction_of_ints (h₂ : t.HasInts rows "col2" f₂) (h₃ : t.HasInts rows "col3" f₃)
    {w : Window} (hkept : w.rowsIn f₁ rows = kept) :
    (subtraction w).evaluate catalog =
      if ∀ x ∈ Arithmetic.subtract.results f₃ f₂ kept, InInt64 x then
        .ok (unlines ((Arithmetic.subtract.results f₃ f₂ kept).map Int.repr), catalog)
      else .error .overflow := by
  rw [evaluate_eq_answer]
  simp only [subtraction, line, query, answer_comment]
  refine .trans (answer_select ht (by decide) h₁) ?_
  refine .trans (answer_fetch ht (by decide) h₂ hkept rfl) ?_
  refine .trans (answer_fetch ht (by decide) h₃ hkept rfl) ?_
  exact answer_elementwise rfl rfl

/-! ### Least and greatest values -/

/-- One extreme of the whole table and of two columns in the window, whatever
comes after. -/
theorem answer_extremes (h₂ : t.HasInts rows "col2" f₂) (function : Aggregate) {w : Window}
    (hkept : w.rowsIn f₁ rows = kept) {whole s x₁ m₁ x₂ m₂ printed : String} {Γ : Bindings}
    {cs : List Command} {a b c : Int} (hx : (s == x₁) = false) (hm : (s == m₁) = false)
    (ha : function.extreme? (integersOf f₁ rows) = some a)
    (hb : function.extreme? (integersOf f₁ kept) = some b)
    (hc : function.extreme? (integersOf f₂ kept) = some c)
    {result : Except Fault (String × Catalog)}
    (hrest : ∀ Δ, answer catalog (printed ++ unlines [a.repr, b.repr, c.repr]) Δ cs = result) :
    answer catalog printed Γ (extremes function w whole s x₁ m₁ x₂ m₂ ++ cs) = result := by
  have hina := inInt64_integersOf f₁ rows a (Aggregate.mem_of_extreme? ha)
  have hinb := inInt64_integersOf f₁ kept b (Aggregate.mem_of_extreme? hb)
  have hinc := inInt64_integersOf f₂ kept c (Aggregate.mem_of_extreme? hc)
  simp only [extremes, query, line, List.cons_append, List.nil_append, answer_comment]
  refine .trans (answer_extreme (operand_stored ht (by decide) h₁) (inInt64_integersOf _ _) ha) ?_
  refine .trans (answer_print_value hina List.lookup_cons_self) ?_
  simp only [answer_comment]
  refine .trans (answer_select ht (by decide) h₁) ?_
  refine .trans (answer_fetch ht (by decide) h₁ hkept List.lookup_cons_self) ?_
  refine .trans (answer_extreme (operand_assigned List.lookup_cons_self)
    (inInt64_integersOf _ _) hb) ?_
  refine .trans (answer_print_value hinb List.lookup_cons_self) ?_
  simp only [answer_comment]
  refine .trans (answer_fetch ht (by decide) h₂ hkept (lookup_cons_of_ne hm
    (lookup_cons_of_ne hx List.lookup_cons_self))) ?_
  refine .trans (answer_extreme (operand_assigned List.lookup_cons_self)
    (inInt64_integersOf _ _) hc) ?_
  refine .trans (answer_print_value hinc List.lookup_cons_self) ?_
  have htext : printed ++ unlines [a.repr] ++ unlines [b.repr] ++ unlines [c.repr] =
      printed ++ unlines [a.repr, b.repr, c.repr] := by
    simp [unlines, String.append_assoc]
  rw [htext]
  exact hrest _

theorem answer_extremes_nil {w : Window} (hnone : w.rowsIn f₁ rows = [])
    {whole s x₁ m₁ x₂ m₂ printed : String} {Γ : Bindings} {cs : List Command} :
    answer catalog printed Γ (extremes .least w whole s x₁ m₁ x₂ m₂ ++ cs) =
      .error (.emptyAggregate .least) := by
  simp only [extremes, query, line, List.cons_append, List.nil_append, answer_comment]
  rcases hleast : (integersOf f₁ rows).min? with _ | a
  · -- there are no rows at all
    have hnil : integersOf f₁ rows = [] := List.min?_eq_none_iff.mp hleast
    exact answer_least_nil ((operand_stored ht (by decide) h₁).trans (by rw [hnil]; rfl))
  · have hina := inInt64_integersOf f₁ rows a (List.min?_mem hleast)
    have hwhole : Aggregate.least.extreme? (integersOf f₁ rows) = some a := hleast
    refine .trans (answer_extreme (operand_stored ht (by decide) h₁) (inInt64_integersOf _ _)
      hwhole) ?_
    refine .trans (answer_print_value hina List.lookup_cons_self) ?_
    simp only [answer_comment]
    refine .trans (answer_select ht (by decide) h₁) ?_
    refine .trans (answer_fetch ht (by decide) h₁ hnone List.lookup_cons_self) ?_
    exact answer_least_nil (operand_assigned List.lookup_cons_self)

theorem leastGreatest_of_none {w : Window} (hnone : w.rowsIn f₁ rows = []) :
    (leastGreatest w).evaluate catalog = .error (.emptyAggregate .least) := by
  rw [evaluate_eq_answer]
  simp only [leastGreatest, line, List.append_assoc, List.cons_append, List.nil_append,
    answer_comment]
  exact answer_extremes_nil ht h₁ hnone

theorem leastGreatest_of_ints (h₂ : t.HasInts rows "col2" f₂) {w : Window}
    (hkept : w.rowsIn f₁ rows = kept) {a b c d e f : Int}
    (ha : (integersOf f₁ rows).min? = some a) (hb : (integersOf f₁ kept).min? = some b)
    (hc : (integersOf f₂ kept).min? = some c) (hd : (integersOf f₁ rows).max? = some d)
    (he : (integersOf f₁ kept).max? = some e) (hf : (integersOf f₂ kept).max? = some f) :
    (leastGreatest w).evaluate catalog =
      .ok (unlines [a.repr, b.repr, c.repr, d.repr, e.repr, f.repr], catalog) := by
  rw [evaluate_eq_answer]
  simp only [leastGreatest, line, List.append_assoc, List.cons_append, List.nil_append,
    answer_comment]
  refine answer_extremes ht h₁ h₂ .least hkept rfl rfl ha hb hc fun Γ => ?_
  simp only [answer_comment]
  rw [← List.append_nil (extremes .greatest ..)]
  refine answer_extremes ht h₁ h₂ .greatest hkept rfl rfl hd he hf fun Δ => ?_
  rw [answer_nil]
  simp [unlines, String.append_assoc]

theorem exists_leastGreatest (h₂ : t.HasInts rows "col2" f₂) {w : Window}
    (hkept : w.rowsIn f₁ rows = kept) (hne : kept ≠ []) :
    ∃ a b c d e f, (integersOf f₁ rows).min? = some a ∧ (integersOf f₁ kept).min? = some b ∧
      (integersOf f₂ kept).min? = some c ∧ (integersOf f₁ rows).max? = some d ∧
      (integersOf f₁ kept).max? = some e ∧ (integersOf f₂ kept).max? = some f ∧
      (leastGreatest w).evaluate catalog =
        .ok (unlines [a.repr, b.repr, c.repr, d.repr, e.repr, f.repr], catalog) := by
  have hrows : rows ≠ [] := by
    rintro rfl
    exact hne hkept.symm
  obtain ⟨a, ha⟩ := exists_least hrows f₁
  obtain ⟨b, hb⟩ := exists_least hne f₁
  obtain ⟨c, hc⟩ := exists_least hne f₂
  obtain ⟨d, hd⟩ := exists_greatest hrows f₁
  obtain ⟨e, he⟩ := exists_greatest hne f₁
  obtain ⟨f, hf⟩ := exists_greatest hne f₂
  exact ⟨a, b, c, d, e, f, ha, hb, hc, hd, he, hf,
    leastGreatest_of_ints ht h₁ h₂ hkept ha hb hc hd he hf⟩

/-! ### Two windows -/

/-- Whether a row lies in both windows. -/
def bothHold (v w : Window) (f₁ f₂ : ρ → Int64) (r : ρ) : Bool := v.holds (f₁ r) && w.holds (f₂ r)

variable (h₂ : t.HasInts rows "col2" f₂)

include h₂

theorem answer_bothWindows {v w : Window} {printed : String} {Γ : Bindings} {cs : List Command} :
    answer catalog printed Γ (bothWindows v w ++ cs) =
      answer catalog printed
        (("s2", .rowsWhere Fixture.wideName rows (bothHold v w f₁ f₂)) ::
         ("sf1", .fetched Fixture.wideName (positionsWhere rows fun r => v.holds (f₁ r)) "col2"
           (integersOf f₂ (v.rowsIn f₁ rows))) ::
         ("s1", .rowsWhere Fixture.wideName rows fun r => v.holds (f₁ r)) :: Γ) cs := by
  refine .trans (answer_select ht (by decide) h₁) ?_
  refine .trans (answer_fetch ht (by decide) h₂ rfl List.lookup_cons_self) ?_
  exact answer_selectFrom ht (by decide) h₂ rfl List.lookup_cons_self

variable (h₃ : t.HasInts rows "col3" f₃)

include h₃

theorem conjunction_of_none {v w : Window} (hnone : rows.filter (bothHold v w f₁ f₂) = []) :
    (conjunction v w).evaluate catalog = .error (.emptyAggregate .least) := by
  rw [evaluate_eq_answer]
  simp only [conjunction, conjunctiveQuery, List.append_assoc, List.cons_append, List.nil_append,
    answer_comment, answer_blank]
  rw [answer_bothWindows ht h₁ h₂]
  refine .trans (answer_fetch ht (by decide) h₂ hnone rfl) ?_
  refine .trans (answer_fetch ht (by decide) h₃ hnone rfl) ?_
  exact answer_least_nil (operand_assigned rfl)

theorem conjunction_of_ints {v w : Window} (hkept : rows.filter (bothHold v w f₁ f₂) = kept)
    {low high : Int} (hlow : (integersOf f₂ kept).min? = some low)
    (hhigh : (integersOf f₃ kept).max? = some high) :
    (conjunction v w).evaluate catalog =
      if (∀ x ∈ Arithmetic.subtract.results f₃ f₂ kept, InInt64 x) ∧
          PrefixesFit (Arithmetic.subtract.results f₃ f₂ kept) ∧
          ∀ x ∈ Arithmetic.add.results f₁ f₂ kept, InInt64 x then
        .ok (rowsText
          [[low.repr, high.repr, (Arithmetic.subtract.results f₃ f₂ kept).sum.repr],
           [averageField (meanOf (Arithmetic.add.results f₁ f₂ kept)), low.repr, high.repr,
            averageField (meanOf (Arithmetic.subtract.results f₃ f₂ kept)),
            (Arithmetic.subtract.results f₃ f₂ kept).sum.repr]], catalog)
      else .error .overflow := by
  have hin {g : ρ → Int64} : ∀ x ∈ integersOf g kept, InInt64 x := inInt64_integersOf g kept
  have hinlow := hin low (List.min?_mem hlow)
  have hinhigh := hin high (List.max?_mem hhigh)
  have hleast : Aggregate.least.extreme? (integersOf f₂ kept) = some low := hlow
  have hgreatest : Aggregate.greatest.extreme? (integersOf f₃ kept) = some high := hhigh
  rw [evaluate_eq_answer]
  simp only [conjunction, conjunctiveQuery, List.append_assoc, List.cons_append, List.nil_append,
    answer_comment, answer_blank]
  rw [answer_bothWindows ht h₁ h₂]
  refine .trans (answer_fetch ht (by decide) h₂ hkept rfl) ?_
  refine .trans (answer_fetch ht (by decide) h₃ hkept rfl) ?_
  refine .trans (answer_extreme (operand_assigned rfl) hin hleast) ?_
  refine .trans (answer_extreme (operand_assigned rfl) hin hgreatest) ?_
  refine .trans (answer_arithmetic rfl rfl) ?_
  by_cases hdiffs : ∀ x ∈ Arithmetic.subtract.results f₃ f₂ kept, InInt64 x
  · rw [if_pos hdiffs]
    refine .trans (answer_sum (operand_assigned rfl) hdiffs) ?_
    by_cases hprefixes : PrefixesFit (Arithmetic.subtract.results f₃ f₂ kept)
    · have htotal := hprefixes.inInt64_sum
      rw [if_pos hprefixes]
      refine .trans (answer_print_scalars
        [.value (.ofInt low), .value (.ofInt high), .value (.ofInt _)] (List.cons_ne_nil _ _)
        rfl) ?_
      simp only [answer_comment, answer_blank]
      rw [answer_bothWindows ht h₁ h₂]
      refine .trans (answer_fetch ht (by decide) h₁ hkept rfl) ?_
      refine .trans (answer_fetch ht (by decide) h₂ hkept rfl) ?_
      refine .trans (answer_fetch ht (by decide) h₃ hkept rfl) ?_
      refine .trans (answer_arithmetic rfl rfl) ?_
      by_cases hsums : ∀ x ∈ Arithmetic.add.results f₁ f₂ kept, InInt64 x
      · rw [if_pos hsums, if_pos ⟨hdiffs, hprefixes, hsums⟩]
        refine .trans (answer_average (operand_assigned rfl) hsums) ?_
        refine .trans (answer_extreme (operand_assigned rfl) hin hleast) ?_
        refine .trans (answer_extreme (operand_assigned rfl) hin hgreatest) ?_
        refine .trans (answer_arithmetic rfl rfl) ?_
        rw [if_pos hdiffs]
        refine .trans (answer_average (operand_assigned rfl) hdiffs) ?_
        refine .trans (answer_sum (operand_assigned rfl) hdiffs) ?_
        rw [if_pos hprefixes]
        refine .trans (answer_print_scalars
          [.average _, .value (.ofInt low), .value (.ofInt high), .average _,
            .value (.ofInt _)] (List.cons_ne_nil _ _) rfl) ?_
        rw [answer_nil]
        simp only [List.map_cons, List.map_nil, Scalar.field, Value.field_ofInt hinlow,
          Value.field_ofInt hinhigh, Value.field_ofInt htotal, String.empty_append,
          ← rowsText_append, List.singleton_append]
      · rw [if_neg hsums, if_neg fun h => hsums h.2.2]
    · rw [if_neg hprefixes, if_neg fun h => hprefixes h.2.1]
  · rw [if_neg hdiffs, if_neg fun h => hdiffs h.1]

/-- With rows in both windows there are extremes, so nothing but an overflow is
left to fail in. -/
theorem exists_conjunction {v w : Window} (hkept : rows.filter (bothHold v w f₁ f₂) = kept)
    (hne : kept ≠ []) :
    ∃ low high, (integersOf f₂ kept).min? = some low ∧ (integersOf f₃ kept).max? = some high ∧
      (conjunction v w).evaluate catalog =
        if (∀ x ∈ Arithmetic.subtract.results f₃ f₂ kept, InInt64 x) ∧
            PrefixesFit (Arithmetic.subtract.results f₃ f₂ kept) ∧
            ∀ x ∈ Arithmetic.add.results f₁ f₂ kept, InInt64 x then
          .ok (rowsText
            [[low.repr, high.repr, (Arithmetic.subtract.results f₃ f₂ kept).sum.repr],
             [averageField (meanOf (Arithmetic.add.results f₁ f₂ kept)), low.repr, high.repr,
              averageField (meanOf (Arithmetic.subtract.results f₃ f₂ kept)),
              (Arithmetic.subtract.results f₃ f₂ kept).sum.repr]], catalog)
        else .error .overflow := by
  obtain ⟨low, hlow⟩ := exists_least hne f₂
  obtain ⟨high, hhigh⟩ := exists_greatest hne f₃
  exact ⟨low, high, hlow, hhigh, conjunction_of_ints ht h₁ h₂ h₃ hkept hlow hhigh⟩

end

/-! ### By row positions -/

/-- A wide table of three rows, of which the first two lie in the windows below. -/
def smallWide : Table :=
  ⟨Fixture.wideName, [Column.ofInts "col1" [1, 2, 3], Column.ofInts "col2" [4, 5, 6],
    Column.ofInts "col3" [10, 20, 30]], 3, by decide, by decide⟩

def smallCatalog : Catalog := .register .empty smallWide

theorem find?_smallCatalog : smallCatalog.find? Fixture.wideName = some smallWide := rfl

theorem hasIntegers_smallWide :
    ∀ field ∈ ["col1", "col2", "col3"], smallWide.HasIntegers field := by
  simp only [List.forall_mem_cons]
  exact ⟨⟨_, rfl, by decide⟩, ⟨_, rfl, by decide⟩, ⟨_, rfl, by decide⟩, fun _ h => by cases h⟩

section

variable {catalog : Catalog} {t : Table} (ht : catalog.find? Fixture.wideName = some t)
  (hints : ∀ field ∈ ["col1", "col2", "col3"], t.HasIntegers field)

include ht hints

/-- **Sums and differences over a window are those of its rows.** The elementwise
queries print one result for each row of the window, first to last, and fail if
64 bits do not hold one of them. The sums of the third column over the window
and of the first over the table are printed one after the other, unless 64 bits
do not hold the sum of a prefix of either. -/
theorem arithmetic_by_rows (w : Window) :
    let kept := (List.range t.rowCount).filter fun r => w.holds (t.integer "col1" r)
    let sums := kept.map fun r => (t.integer "col2" r).toInt + (t.integer "col3" r).toInt
    let differences := kept.map fun r => (t.integer "col3" r).toInt - (t.integer "col2" r).toInt
    let part := kept.map fun r => (t.integer "col3" r).toInt
    let whole := (List.range t.rowCount).map fun r => (t.integer "col1" r).toInt
    ((addition w).evaluate catalog =
      if ∀ x ∈ sums, InInt64 x then .ok (unlines (sums.map Int.repr), catalog)
      else .error .overflow) ∧
    ((subtraction w).evaluate catalog =
      if ∀ x ∈ differences, InInt64 x then .ok (unlines (differences.map Int.repr), catalog)
      else .error .overflow) ∧
    (summation w).evaluate catalog =
      if PrefixesFit part ∧ PrefixesFit whole then
        .ok (unlines [part.sum.repr, whole.sum.repr], catalog)
      else .error .overflow := by
  have h₁ := (hints "col1" (by decide)).hasInts
  have h₂ := (hints "col2" (by decide)).hasInts
  have h₃ := (hints "col3" (by decide)).hasInts
  exact ⟨addition_of_ints ht h₁ h₂ h₃ rfl, subtraction_of_ints ht h₁ h₂ h₃ rfl,
    summation_of_ints ht h₁ h₃ rfl⟩

omit ht hints in
theorem arithmetic_by_rows_smallWide :
    (addition ⟨1, 3⟩).evaluate smallCatalog = .ok ("14\n25\n", smallCatalog) ∧
    (subtraction ⟨1, 3⟩).evaluate smallCatalog = .ok ("6\n15\n", smallCatalog) ∧
    (summation ⟨1, 3⟩).evaluate smallCatalog = .ok ("30\n6\n", smallCatalog) :=
  arithmetic_by_rows find?_smallCatalog hasIntegers_smallWide ⟨1, 3⟩

/-- **The least and greatest values are those of the rows, and so are the
results over two windows.** Without rows in both windows there is no least value.
Otherwise two lines are printed, of which the second repeats the three results of
the first, unless 64 bits do not hold a difference, a sum or the sum of the first
few differences. Without rows in one window there is no least value either; if
there are any, six lines are printed. -/
theorem extremes_by_rows (v w : Window) :
    let kept := (List.range t.rowCount).filter fun r =>
      v.holds (t.integer "col1" r) && w.holds (t.integer "col2" r)
    let sums := kept.map fun r => (t.integer "col1" r).toInt + (t.integer "col2" r).toInt
    let differences := kept.map fun r => (t.integer "col3" r).toInt - (t.integer "col2" r).toInt
    let total := differences.sum.repr
    let fits := (∀ x ∈ differences, InInt64 x) ∧ PrefixesFit differences ∧ ∀ x ∈ sums, InInt64 x
    let inFirst := (List.range t.rowCount).filter fun r => v.holds (t.integer "col1" r)
    let column field rows := List.map (fun r => (t.integer field r).toInt) rows
    (kept = [] → (conjunction v w).evaluate catalog = .error (.emptyAggregate .least)) ∧
    (kept ≠ [] → ((conjunction v w).evaluate catalog = .error .overflow ↔ ¬ fits)) ∧
    (kept ≠ [] → fits → ∃ low high,
      (column "col2" kept).min? = some low ∧ (column "col3" kept).max? = some high ∧
      (conjunction v w).evaluate catalog = .ok (rowsText
        [[low.repr, high.repr, total],
         [averageField (meanOf sums), low.repr, high.repr, averageField (meanOf differences),
          total]], catalog)) ∧
    ((leastGreatest v).evaluate catalog = .error (.emptyAggregate .least) ↔ inFirst = []) ∧
    (inFirst ≠ [] → ∃ a b c d e f,
      (column "col1" (List.range t.rowCount)).min? = some a ∧
      (column "col1" inFirst).min? = some b ∧ (column "col2" inFirst).min? = some c ∧
      (column "col1" (List.range t.rowCount)).max? = some d ∧
      (column "col1" inFirst).max? = some e ∧ (column "col2" inFirst).max? = some f ∧
      (leastGreatest v).evaluate catalog =
        .ok (unlines [a.repr, b.repr, c.repr, d.repr, e.repr, f.repr], catalog)) := by
  intro kept sums differences total fits inFirst column
  have h₁ := (hints "col1" (by decide)).hasInts
  have h₂ := (hints "col2" (by decide)).hasInts
  have h₃ := (hints "col3" (by decide)).hasInts
  refine ⟨fun hnone => conjunction_of_none ht h₁ h₂ h₃ hnone, fun hne => ?_, fun hne hfits => ?_,
    ⟨fun herror => ?_, fun hnone => leastGreatest_of_none ht h₁ hnone⟩,
    fun hne => exists_leastGreatest ht h₁ h₂ rfl hne⟩
  · obtain ⟨low, high, -, -, hevaluate⟩ := exists_conjunction ht h₁ h₂ h₃ rfl hne
    by_cases hfits : fits
    · have hsucceeds := hevaluate.trans (if_pos hfits)
      simp [hsucceeds, hfits]
    · have hfails := hevaluate.trans (if_neg hfits)
      simp [hfails, hfits]
  · obtain ⟨low, high, hlow, hhigh, hevaluate⟩ := exists_conjunction ht h₁ h₂ h₃ rfl hne
    exact ⟨low, high, hlow, hhigh, hevaluate.trans (if_pos hfits)⟩
  · by_contra hne
    obtain ⟨a, b, c, d, e, f, -, -, -, -, -, -, hevaluate⟩ :=
      exists_leastGreatest ht h₁ h₂ rfl hne
    rw [herror] at hevaluate
    cases hevaluate

end

/-- The averages are of five and seven and of six and fifteen. -/
theorem extremes_by_rows_smallWide :
    (conjunction ⟨1, 3⟩ ⟨4, 6⟩).evaluate smallCatalog =
      .ok ("4,20,21\n6.00,4,20,10.50,21\n", smallCatalog) := by
  obtain ⟨-, -, hresults, -⟩ :=
    extremes_by_rows find?_smallCatalog hasIntegers_smallWide ⟨1, 3⟩ ⟨4, 6⟩
  obtain ⟨low, high, hlow, hhigh, hevaluate⟩ := hresults (by decide) (by decide)
  obtain rfl : 4 = low := Option.some.inj hlow
  obtain rfl : 20 = high := Option.some.inj hhigh
  rw [hevaluate]
  decide +kernel

end Scenario
end Columnar
