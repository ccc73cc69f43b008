/-
# How large a table the fixed thresholds need

The queries with all aggregates select below a low threshold and from a high
threshold on, in a column that counts the rows. A least value is asked for in each
of them, so each needs a row (`Scenario.answer_aggregatedQuery_of_none`). With a row
it goes through, if the integers have a sum (`Scenario.answer_aggregatedQuery`); and
those of the narrow table are too small for any sum to leave 64 bits, in whatever
order they were shuffled (`prefixesFit_of_le`).

So the evaluation succeeds exactly for the sizes that are not left out of a sweep.
The queries from below print the same lines again and again, and these are the same
for all of these sizes and all seeds (`Scenario.evaluate_aggregated`).

Key definitions: `Range.rowsIn`, `Scenario.aggregatedQuery`, `Scenario.belowLow`,
`Scenario.fromHigh`, `Scenario.lowText`.
Key theorems: `prefixesFit_of_le`, `Scenario.answer_aggregatedQuery`,
`Scenario.answer_flatMap`, `Scenario.evaluate_aggregated_of_rows`,
`Fixture.exists_narrow_rows`, `Scenario.evaluate_aggregated`.
-/
import Columnar.Proofs.Answers
import Columnar.Proofs.Scenarios

namespace Columnar

/-! ### Integers -/

theorem prefixesFit_of_le {xs : List Int} {b : Nat} (hxs : ∀ x ∈ xs, x.natAbs ≤ b)
    (hb : b < 2 ^ 63) (hlt : xs.length * b < 2 ^ 63) : PrefixesFit xs := by
  have hin : ∀ x ∈ xs, InInt64 x := by
    intro x hx
    have hle := hxs x hx
    exact ⟨by omega, by omega⟩
  have hwithin : ∀ v ∈ ints xs, v.Within b := by
    intro v hv
    obtain ⟨x, hx, rfl⟩ := List.mem_map.mp hv
    exact ⟨Int64.ofInt x, rfl, by rw [Value.toInt_ofInt (hin x hx)]; exact hxs x hx⟩
  obtain ⟨v, hv⟩ := exists_sumOf hwithin (by rwa [ints, List.length_map])
  by_contra hfit
  rw [sumOf_ints hin, if_neg hfit] at hv
  cases hv

theorem filter_lt_range {k n : Nat} (h : k ≤ n) :
    (List.range n).filter (fun i => decide (i < k)) = List.range k := by
  obtain ⟨m, rfl⟩ := Nat.exists_eq_add_of_le h
  have hbelow : (List.range k).filter (fun i => decide (i < k)) = List.range k :=
    List.filter_eq_self.mpr fun i hi => decide_eq_true (List.mem_range.mp hi)
  have habove : ((List.range m).map (k + ·)).filter (fun i => decide (i < k)) = [] := by
    rw [List.filter_eq_nil_iff]
    intro i hi
    obtain ⟨j, -, rfl⟩ := List.mem_map.mp hi
    simp
  rw [List.range_add, List.filter_append, hbelow, habove, List.append_nil]

theorem join_replicate_empty : ∀ n : Nat, String.join (List.replicate n "") = ""
  | 0 => rfl
  | n + 1 => by
    rw [List.replicate_succ, String.join_cons, join_replicate_empty n, String.append_empty]

/-- The rows whose integer lies in the range. -/
def Range.rowsIn {ρ : Type} (range : Range) (f : ρ → Int64) (rows : List ρ) : List ρ :=
  rows.filter fun r => range.contains (.int (f r))

namespace Scenario

open Session

/-! ### One query -/

/-- What the queries of both halves have in common: the integers of a field at the
rows in a range, and all aggregates of them. -/
def aggregatedQuery (text : String) (i : Nat) (range : Range) (field : String) : List Command :=
  [.comment text, .select ("s" ++ i.repr) (narrowColumn "col1") range,
   .fetch ("f" ++ i.repr) (narrowColumn field) ("s" ++ i.repr)] ++
  allAggregates i ("f" ++ i.repr)

section

variable {catalog : Catalog} {printed : String} {Γ : Bindings} {cs : List Command}

/-- A result in a variable of the same number leaves the vector. -/
theorem lookup_numbered_vector {i : Nat} {q : String} (hq : "f" ≠ q) (x : Scalar) {b : Binding}
    (h : Γ.lookup ("f" ++ i.repr) = some b) :
    ((q ++ i.repr, .scalar x) :: Γ).lookup ("f" ++ i.repr) = some b :=
  lookup_cons_of_ne (beq_false_of_ne (numbered_ne hq i)) h

section

variable {i : Nat} {xs : List Int} {source : Option Provenance}
  (hvector : Γ.lookup ("f" ++ i.repr) = some (.vector (ints xs) source))
  (hxs : ∀ x ∈ xs, InInt64 x) (hfit : PrefixesFit xs)

include hvector hxs hfit

/-- Mean and sum come first, and there is one of each also for no integers. -/
theorem answer_meanAndSum : ∃ Θ : Bindings,
    Θ.lookup ("f" ++ i.repr) = some (.vector (ints xs) source) ∧
      answer catalog printed Γ (allAggregates i ("f" ++ i.repr) ++ cs) =
        answer catalog printed Θ
          (.aggregate ("min" ++ i.repr) .least (.assigned ("f" ++ i.repr)) ::
            .aggregate ("max" ++ i.repr) .greatest (.assigned ("f" ++ i.repr)) :: line :: cs) := by
  have haverage := lookup_numbered_vector (show "f" ≠ "a" by decide) (.average (meanOf xs)) hvector
  have hsum := lookup_numbered_vector (show "f" ≠ "sum" by decide) (.value (.ofInt xs.sum)) haverage
  refine ⟨_, hsum, .trans (answer_average (operand_assigned hvector) hxs) ?_⟩
  refine .trans (answer_sum (operand_assigned haverage) hxs) ?_
  rw [if_pos hfit]
  rfl

/-- All aggregates of some integers, and the vector is still there. -/
theorem answer_allAggregates (hne : xs ≠ []) : ∃ Δ : Bindings,
    Δ.lookup ("f" ++ i.repr) = some (.vector (ints xs) source) ∧
      answer catalog printed Γ (allAggregates i ("f" ++ i.repr) ++ cs) =
        answer catalog printed Δ cs := by
  obtain ⟨least, hleast⟩ : ∃ m, Aggregate.least.extreme? xs = some m :=
    Option.isSome_iff_exists.mp (List.isSome_min?_of_ne_nil hne)
  obtain ⟨greatest, hgreatest⟩ : ∃ m, Aggregate.greatest.extreme? xs = some m :=
    Option.isSome_iff_exists.mp (List.isSome_max?_of_ne_nil hne)
  obtain ⟨Θ, hsum, hfirst⟩ := answer_meanAndSum hvector hxs hfit
  have hmin := lookup_numbered_vector (show "f" ≠ "min" by decide) (.value (.ofInt least)) hsum
  have hmax := lookup_numbered_vector (show "f" ≠ "max" by decide) (.value (.ofInt greatest)) hmin
  refine ⟨_, hmax, hfirst.trans ?_⟩
  refine .trans (answer_extreme (operand_assigned hsum) hxs hleast) ?_
  refine .trans (answer_extreme (operand_assigned hmin) hxs hgreatest) ?_
  exact answer_comment

theorem answer_allAggregates_of_none (hnone : xs = []) :
    answer catalog printed Γ (allAggregates i ("f" ++ i.repr) ++ cs) =
      .error (.emptyAggregate .least) := by
  subst hnone
  obtain ⟨Θ, hsum, hfirst⟩ := answer_meanAndSum hvector hxs hfit
  exact hfirst.trans (answer_least_nil (operand_assigned hsum))

end

section

variable {t : Table} (ht : catalog.find? Fixture.narrowName = some t) {ρ : Type}
  {rows kept : List ρ} {f g : ρ → Int64} {field : String} (hf : t.HasInts rows "col1" f)
  (hdot : '.' ∉ field.toList) (hg : t.HasInts rows field g) {range : Range}
  (hkept : range.rowsIn f rows = kept)

include ht hf hdot hg hkept

theorem answer_fetchInRange (i : Nat) :
    ∃ (Δ : Bindings) (source : Option Provenance),
      Δ.lookup ("f" ++ i.repr) = some (.vector (ints (integersOf g kept)) source) ∧
      answer catalog printed Γ
          (.select ("s" ++ i.repr) (narrowColumn "col1") range ::
            .fetch ("f" ++ i.repr) (narrowColumn field) ("s" ++ i.repr) :: cs) =
        answer catalog printed Δ cs := by
  obtain ⟨Θ, hpositions, hselect⟩ : ∃ Θ : Bindings,
      Θ.lookup ("s" ++ i.repr) = some (.rowsWhere Fixture.narrowName rows fun r =>
        range.contains (.int (f r))) ∧
      answer catalog printed Γ
          (.select ("s" ++ i.repr) (narrowColumn "col1") range ::
            .fetch ("f" ++ i.repr) (narrowColumn field) ("s" ++ i.repr) :: cs) =
        answer catalog printed Θ
          (.fetch ("f" ++ i.repr) (narrowColumn field) ("s" ++ i.repr) :: cs) :=
    ⟨_, List.lookup_cons_self, answer_selectRange ht (by decide) hf fun _ => rfl⟩
  exact ⟨_, _, List.lookup_cons_self,
    hselect.trans (answer_fetch ht hdot hg hkept hpositions)⟩

/-- With a row in the range, and integers that have a sum, a query takes all
aggregates and keeps the vector. -/
theorem answer_aggregatedQuery (text : String) (i : Nat) (hfit : PrefixesFit (integersOf g kept))
    (hne : kept ≠ []) :
    ∃ (Δ : Bindings) (source : Option Provenance),
      Δ.lookup ("f" ++ i.repr) = some (.vector (ints (integersOf g kept)) source) ∧
      answer catalog printed Γ (aggregatedQuery text i range field ++ cs) =
        answer catalog printed Δ cs := by
  obtain ⟨Θ, source, hvector, hfetch⟩ := answer_fetchInRange ht hf hdot hg hkept i
  obtain ⟨Δ, hvector', haggregates⟩ := answer_allAggregates hvector (inInt64_integersOf g kept)
    hfit (mt List.map_eq_nil_iff.mp hne)
  exact ⟨Δ, source, hvector', answer_comment.trans (hfetch.trans haggregates)⟩

theorem answer_aggregatedQuery_of_none (text : String) (i : Nat) (hnone : kept = []) :
    answer catalog printed Γ (aggregatedQuery text i range field ++ cs) =
      .error (.emptyAggregate .least) := by
  subst hnone
  obtain ⟨Θ, source, hvector, hfetch⟩ := answer_fetchInRange ht hf hdot hg hkept i
  exact answer_comment.trans (hfetch.trans (answer_allAggregates_of_none hvector
    (inInt64_integersOf g []) (show PrefixesFit [] by decide) rfl))

end

/-! ### One query after another -/

/-- Queries that print one text print it as often as there are queries. -/
theorem answer_flatMap {query : Nat → List Command} {text : String}
    (hquery : ∀ i printed (Γ : Bindings) cs, ∃ Δ : Bindings,
      answer catalog printed Γ (query i ++ cs) = answer catalog (printed ++ text) Δ cs) :
    ∀ (is : List Nat) (printed : String) (Γ : Bindings) (cs : List Command), ∃ Δ : Bindings,
      answer catalog printed Γ (is.flatMap query ++ cs) =
        answer catalog (printed ++ String.join (List.replicate is.length text)) Δ cs
  | [], printed, Γ, cs => ⟨Γ, by simp⟩
  | i :: is, printed, Γ, cs => by
    obtain ⟨Θ, hfirst⟩ := hquery i printed Γ (is.flatMap query ++ cs)
    obtain ⟨Δ, hrest⟩ := answer_flatMap hquery is (printed ++ text) Θ cs
    refine ⟨Δ, ?_⟩
    rw [List.flatMap_cons, List.append_assoc, hfirst, hrest, List.length_cons, List.replicate_succ,
      String.join_cons, String.append_assoc]

end

/-! ### Both halves -/

/-- What the first half selects. -/
def belowLow : Range := ⟨.unbounded, .at (.int lowThreshold)⟩

/-- What the second half selects. -/
def fromHigh : Range := ⟨.at (.int highThreshold), .unbounded⟩

theorem lowQuery_eq (i : Nat) : lowQuery true i =
    aggregatedQuery ("SELECT col1 FROM tbl1 WHERE col1 < " ++ lowThreshold.toInt.repr ++ ";") i
      belowLow "col1" ++ [.print ["f" ++ i.repr]] := rfl

theorem highQuery_eq (i : Nat) : highQuery true i =
    aggregatedQuery ("SELECT col2 FROM tbl1 WHERE col1 >= " ++ highThreshold.toInt.repr ++ ";") i
      fromHigh "col2" := rfl

/-- What a query from below prints: the integers below the low threshold. -/
def lowText {ρ : Type} (f : ρ → Int64) (rows : List ρ) : String :=
  unlines ((integersOf f (belowLow.rowsIn f rows)).map Int.repr)

section

variable {catalog : Catalog} {t : Table} (ht : catalog.find? Fixture.narrowName = some t) {ρ : Type}
  {rows : List ρ} {f₁ f₂ : ρ → Int64} (h₁ : t.HasInts rows "col1" f₁)
  (h₂ : t.HasInts rows "col2" f₂)

include ht h₁

theorem answer_lowQuery (hne : belowLow.rowsIn f₁ rows ≠ [])
    (hfit : PrefixesFit (integersOf f₁ (belowLow.rowsIn f₁ rows))) (i : Nat) (printed : String)
    (Γ : Bindings) (cs : List Command) : ∃ Δ : Bindings,
      answer catalog printed Γ (lowQuery true i ++ cs) =
        answer catalog (printed ++ lowText f₁ rows) Δ cs := by
  rw [lowQuery_eq, List.append_assoc]
  obtain ⟨Δ, source, hvector, hquery⟩ :=
    answer_aggregatedQuery ht h₁ (by decide) h₁ rfl _ i hfit hne
  exact ⟨Δ, hquery.trans (answer_print_ints hvector (inInt64_integersOf f₁ _))⟩

/-- **The evaluation fails at the first query** if no row is below the low
threshold. -/
theorem evaluate_aggregated_of_no_low {queries : Nat} (hqueries : 1 ≤ queries)
    (hnone : belowLow.rowsIn f₁ rows = []) :
    (selectFetch queries true).evaluate catalog = .error (.emptyAggregate .least) := by
  obtain ⟨n, rfl⟩ := Nat.exists_eq_add_of_le' hqueries
  rw [evaluate_eq_answer]
  simp only [selectFetch, line, List.append_assoc, List.cons_append, List.nil_append,
    answer_comment, List.range_succ_eq_map, List.flatMap_cons, lowQuery_eq]
  exact answer_aggregatedQuery_of_none ht h₁ (by decide) h₁ rfl _ _ hnone

section

include h₂

theorem answer_highQuery (hne : fromHigh.rowsIn f₁ rows ≠ [])
    (hfit : PrefixesFit (integersOf f₂ (fromHigh.rowsIn f₁ rows))) (i : Nat) (printed : String)
    (Γ : Bindings) (cs : List Command) : ∃ Δ : Bindings,
      answer catalog printed Γ (highQuery true i ++ cs) = answer catalog (printed ++ "") Δ cs := by
  rw [highQuery_eq, String.append_empty]
  obtain ⟨Δ, -, -, hquery⟩ := answer_aggregatedQuery ht h₁ (by decide) h₂ rfl _ i hfit hne
  exact ⟨Δ, hquery⟩

end

section

variable (hlow : belowLow.rowsIn f₁ rows ≠ [])
  (hlowFit : PrefixesFit (integersOf f₁ (belowLow.rowsIn f₁ rows)))

include hlow hlowFit

theorem exists_answer_highQueries (queries : Nat) : ∃ Δ : Bindings,
    (selectFetch queries true).evaluate catalog =
      answer catalog (String.join (List.replicate queries (lowText f₁ rows))) Δ
        ((List.range queries).flatMap fun i => highQuery true (queries + i + 1)) := by
  obtain ⟨Δ, hlows⟩ := answer_flatMap
    (fun i => answer_lowQuery ht h₁ hlow hlowFit (i + 1)) (List.range queries) "" []
    ((List.range queries).flatMap fun i => highQuery true (queries + i + 1))
  refine ⟨Δ, ?_⟩
  rw [List.length_range, String.empty_append] at hlows
  rw [evaluate_eq_answer, ← hlows]
  simp only [selectFetch, line, List.cons_append, List.nil_append, answer_comment]

include h₂

/-- **The evaluation fails halfway** if no row is past the high threshold. -/
theorem evaluate_aggregated_of_no_high {queries : Nat} (hqueries : 1 ≤ queries)
    (hnone : fromHigh.rowsIn f₁ rows = []) :
    (selectFetch queries true).evaluate catalog = .error (.emptyAggregate .least) := by
  obtain ⟨Δ, hlows⟩ := exists_answer_highQueries ht h₁ hlow hlowFit queries
  obtain ⟨n, rfl⟩ := Nat.exists_eq_add_of_le' hqueries
  refine hlows.trans ?_
  simp only [List.range_succ_eq_map, List.flatMap_cons, highQuery_eq]
  exact answer_aggregatedQuery_of_none ht h₁ (by decide) h₂ rfl _ _ hnone

/-- **The evaluation goes through** if there are rows on both sides, and prints
those below the low threshold for each query. -/
theorem evaluate_aggregated_of_rows (queries : Nat) (hhigh : fromHigh.rowsIn f₁ rows ≠ [])
    (hhighFit : PrefixesFit (integersOf f₂ (fromHigh.rowsIn f₁ rows))) :
    (selectFetch queries true).evaluate catalog =
      .ok (String.join (List.replicate queries (lowText f₁ rows)), catalog) := by
  obtain ⟨Δ, hlows⟩ := exists_answer_highQueries ht h₁ hlow hlowFit queries
  obtain ⟨Θ, hhighs⟩ := answer_flatMap
    (fun i => answer_highQuery ht h₁ h₂ hhigh hhighFit (queries + i + 1)) (List.range queries)
    (String.join (List.replicate queries (lowText f₁ rows))) Δ []
  rw [List.append_nil, join_replicate_empty, String.append_empty, answer_nil] at hhighs
  exact hlows.trans hhighs

end

end

end Scenario

/-! ### The narrow table -/

section

variable {ρ : Type} {rows : List ρ} {f g : ρ → Int64} {range : Range}

/-- Of the rows in a range the sums fit if they do for all rows, going by the bound. -/
theorem prefixesFit_rowsIn {b : Nat} (hg : ∀ r ∈ rows, (g r).toInt.natAbs ≤ b) (hb : b < 2 ^ 63)
    (hlt : rows.length * b < 2 ^ 63) : PrefixesFit (integersOf g (range.rowsIn f rows)) := by
  have hlength : (integersOf g (range.rowsIn f rows)).length ≤ rows.length := by
    rw [integersOf, List.length_map]
    exact List.length_filter_le _ _
  refine prefixesFit_of_le (fun x hx => ?_) hb
    (Nat.lt_of_le_of_lt (Nat.mul_le_mul_right b hlength) hlt)
  obtain ⟨r, hr, rfl⟩ := List.mem_map.mp hx
  exact hg r (List.mem_of_mem_filter hr)

end

namespace Fixture

/-- What the narrow table holds, row by row: the row's number, and the numbers
from ten on in some order. -/
theorem exists_narrow_rows (size : Nat) (seed : UInt64) :
    ∃ t, ∃ rows : List (Int64 × Int64), narrow size seed = .ok t ∧ t.name = narrowName ∧
      rows.map Prod.fst = counting 0 size ∧ (rows.map Prod.snd).Perm (counting 10 size) ∧
      t.HasInts rows "col1" Prod.fst ∧ t.HasInts rows "col2" Prod.snd := by
  obtain ⟨t, ys, ht, hname, -, -, hperm, hcols⟩ := exists_narrow_columns redrawLimit size seed
  have hlength : ys.length = (counting 0 size).length := by
    rw [hperm.length_eq, length_counting, length_counting]
  have hfst := List.map_fst_zip (Nat.le_of_eq hlength.symm)
  have hsnd := List.map_snd_zip (Nat.le_of_eq hlength)
  refine ⟨t, (counting 0 size).zip ys, ht, hname, hfst, ?_, ?_, ?_⟩
  · rwa [hsnd]
  · rw [Table.HasInts, Table.column?, hcols, hfst]
    rfl
  · rw [Table.HasInts, Table.column?, hcols, hsnd]
    rfl

theorem natAbs_le_of_mem_counting {first count : Nat} (h : first + count ≤ 2 ^ 63) {n : Int64}
    (hn : n ∈ counting first count) : n.toInt.natAbs ≤ first + count := by
  obtain ⟨i, hi, rfl⟩ := List.mem_map.mp hn
  have hlt := List.mem_range.mp hi
  rw [Int64.toInt_ofNat_of_lt (by omega)]
  omega

/-- The numbers of a table that counts from ten or less fit, in whatever order they
are and whichever rows are kept. -/
theorem prefixesFit_of_counting {ρ : Type} {rows : List ρ} {f g : ρ → Int64} {first size : Nat}
    (hfirst : first ≤ 10) (hsize : size ≤ 2 ^ 31) (hg : (rows.map g).Perm (counting first size))
    (range : Range) : PrefixesFit (integersOf g (range.rowsIn f rows)) := by
  have hlength : rows.length = size := by
    rw [← List.length_map (f := g), hg.length_eq, length_counting]
  have hbound : ∀ r ∈ rows, (g r).toInt.natAbs ≤ first + size := fun r hr =>
    natAbs_le_of_mem_counting (by omega) (hg.mem_iff.mp (List.mem_map_of_mem hr))
  refine prefixesFit_rowsIn hbound (by omega) ?_
  calc rows.length * (first + size)
      ≤ 2 ^ 31 * (10 + 2 ^ 31) := Nat.mul_le_mul (by omega) (by omega)
    _ < 2 ^ 63 := by decide

end Fixture

namespace Scenario

theorem contains_belowLow {n : Int64} {i : Nat} (h : n.toInt = i) :
    belowLow.contains (.int n) = decide (i < 20) := by
  rw [Bool.eq_iff_iff]
  simp [belowLow, Range.contains, Bound.admitsAsLow, Bound.admitsAsHigh, Value.compare?,
    Int.compare_eq_lt, lowThreshold, h]

theorem contains_fromHigh {n : Int64} {i : Nat} (h : n.toInt = i) :
    fromHigh.contains (.int n) = decide (987 ≤ i) := by
  rw [Bool.eq_iff_iff]
  simp [fromHigh, Range.contains, Bound.admitsAsLow, Bound.admitsAsHigh, Value.compare?,
    Int.compare_eq_gt, highThreshold, h]
  omega

section

variable {size : Nat} (hsize : size ≤ 2 ^ 31) {rows : List (Int64 × Int64)}
  (hrows : rows.map Prod.fst = Fixture.counting 0 size)

include hsize hrows

theorem integersOf_counted {range : Range} {test : Nat → Bool}
    (htest : ∀ {n : Int64} {i : Nat}, n.toInt = i → range.contains (.int n) = test i) :
    integersOf Prod.fst (range.rowsIn Prod.fst rows) =
      ((List.range size).filter test).map fun i : Nat => (i : Int) := by
  have hvalue : ∀ i ∈ List.range size, (Int64.ofNat (0 + i)).toInt = (i : Int) := by
    intro i hi
    have hlt := List.mem_range.mp hi
    rw [Nat.zero_add]
    exact Int64.toInt_ofNat_of_lt (by omega)
  have hkept : (range.rowsIn Prod.fst rows).map Prod.fst =
      (Fixture.counting 0 size).filter fun n => range.contains (.int n) := by
    rw [← hrows, List.filter_map]
    rfl
  calc integersOf Prod.fst (range.rowsIn Prod.fst rows)
      = ((range.rowsIn Prod.fst rows).map Prod.fst).map Int64.toInt := by
        rw [List.map_map]
        rfl
    _ = ((List.range size).filter fun i => range.contains (.int (Int64.ofNat (0 + i)))).map
          fun i => (Int64.ofNat (0 + i)).toInt := by
        rw [hkept, Fixture.counting, List.filter_map, List.map_map]
        rfl
    _ = ((List.range size).filter test).map fun i : Nat => (i : Int) := by
        rw [List.filter_congr fun i hi => htest (hvalue i hi)]
        exact List.map_congr_left fun i hi => hvalue i (List.mem_of_mem_filter hi)

theorem rowsIn_eq_nil_iff {range : Range} {test : Nat → Bool}
    (htest : ∀ {n : Int64} {i : Nat}, n.toInt = i → range.contains (.int n) = test i) :
    range.rowsIn Prod.fst rows = [] ↔ ∀ i < size, test i = false := by
  rw [← List.map_eq_nil_iff (f := fun r => (Prod.fst r).toInt), ← integersOf,
    integersOf_counted hsize hrows htest, List.map_eq_nil_iff, List.filter_eq_nil_iff]
  simp only [List.mem_range, Bool.not_eq_true]

theorem rowsIn_belowLow_eq_nil_iff : belowLow.rowsIn Prod.fst rows = [] ↔ size = 0 := by
  rw [rowsIn_eq_nil_iff hsize hrows contains_belowLow]
  refine ⟨fun hall => ?_, by omega⟩
  by_contra hne
  exact absurd (hall 0 (by omega)) (by decide)

theorem rowsIn_fromHigh_eq_nil_iff : fromHigh.rowsIn Prod.fst rows = [] ↔ size ≤ 987 := by
  rw [rowsIn_eq_nil_iff hsize hrows contains_fromHigh]
  constructor
  · intro hall
    by_contra hlt
    exact absurd (hall 987 (by omega)) (by decide)
  · intro hle i hi
    exact decide_eq_false (by omega)

/-- Each query from below prints the first row numbers. -/
theorem lowText_eq (hlow : 20 ≤ size) :
    lowText Prod.fst rows = unlines ((List.range 20).map Nat.repr) := by
  rw [lowText, integersOf_counted hsize hrows contains_belowLow, filter_lt_range hlow, List.map_map]
  rfl

end

/-- **The sizes that a sweep leaves out are those too small for the queries**: on
the narrow table of any size up to `2 ^ 31` and any seed, alone in a catalog, the
evaluation with all aggregates goes through exactly if the size is above the high
threshold, and then prints the row numbers below the low threshold once for each
query. Otherwise there is no least value. -/
theorem evaluate_aggregated {size : Nat} (hsize : size ≤ 2 ^ 31) (seed : UInt64) {queries : Nat}
    (hqueries : 1 ≤ queries) :
    ∃ t, Fixture.narrow size seed = .ok t ∧
      (selectFetch queries true).evaluate (Catalog.empty.register t) =
        if highThreshold.toInt.toNat < size then
          .ok (String.join (List.replicate queries (unlines ((List.range 20).map Nat.repr))),
            Catalog.empty.register t)
        else .error (.emptyAggregate .least) := by
  obtain ⟨t, rows, ht, hname, hfst, hsnd, h₁, h₂⟩ := Fixture.exists_narrow_rows size seed
  have hfind : (Catalog.empty.register t).find? Fixture.narrowName = some t := by
    rw [Catalog.find?_register, if_pos hname]
  have hhighThreshold : highThreshold.toInt.toNat = 987 := by decide
  refine ⟨t, ht, ?_⟩
  rw [hhighThreshold]
  rcases Nat.eq_zero_or_pos size with hzero | hpos
  · rw [if_neg (by omega)]
    exact evaluate_aggregated_of_no_low hfind h₁ hqueries
      ((rowsIn_belowLow_eq_nil_iff hsize hfst).mpr hzero)
  · have hlow : belowLow.rowsIn Prod.fst rows ≠ [] :=
      mt (rowsIn_belowLow_eq_nil_iff hsize hfst).mp (by omega)
    have hlowFit : PrefixesFit (integersOf Prod.fst (belowLow.rowsIn Prod.fst rows)) :=
      Fixture.prefixesFit_of_counting (Nat.zero_le 10) hsize (.of_eq hfst) belowLow
    rcases Nat.lt_or_ge 987 size with hlarge | hsmall
    · have hhigh : fromHigh.rowsIn Prod.fst rows ≠ [] :=
        mt (rowsIn_fromHigh_eq_nil_iff hsize hfst).mp (by omega)
      have hhighFit : PrefixesFit (integersOf Prod.snd (fromHigh.rowsIn Prod.fst rows)) :=
        Fixture.prefixesFit_of_counting (Nat.le_refl 10) hsize hsnd fromHigh
      rw [if_pos hlarge,
        evaluate_aggregated_of_rows hfind h₁ h₂ hlow hlowFit queries hhigh hhighFit,
        lowText_eq hsize hfst (by omega)]
    · rw [if_neg (by omega)]
      exact evaluate_aggregated_of_no_high hfind h₁ h₂ hlow hlowFit hqueries
        ((rowsIn_fromHigh_eq_nil_iff hsize hfst).mpr hsmall)

/-- Two queries on the smallest table that is large enough, and on the one before. -/
theorem evaluate_aggregated_twice :
    988 ≤ 2 ^ 31 ∧ 987 ≤ 2 ^ 31 ∧ 1 ≤ 2 ∧
      (∃ t, Fixture.narrow 988 47 = .ok t ∧
        (selectFetch 2 true).evaluate (Catalog.empty.register t) =
          .ok ("0\n1\n2\n3\n4\n5\n6\n7\n8\n9\n10\n11\n12\n13\n14\n15\n16\n17\n18\n19\n" ++
            "0\n1\n2\n3\n4\n5\n6\n7\n8\n9\n10\n11\n12\n13\n14\n15\n16\n17\n18\n19\n",
            Catalog.empty.register t)) ∧
      ∃ t, Fixture.narrow 987 47 = .ok t ∧
        (selectFetch 2 true).evaluate (Catalog.empty.register t) =
          .error (.emptyAggregate .least) :=
  ⟨by decide, by decide, by decide,
    evaluate_aggregated (by decide) 47 (by decide), evaluate_aggregated (by decide) 47 (by decide)⟩

end Scenario
end Columnar
