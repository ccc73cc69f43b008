/-
# Which scenarios of a suite fail

The first four scenarios always have a result. The others need windows. There
is a place for the window of the sum, of least and greatest values and for
both windows of the last scenario as soon as there are two rows, and for those
of elementwise arithmetic as soon as there are more rows than their width. A
scenario that lacks a window is recorded without any and with the interval
that holds no integer. With its windows a scenario fails only if it takes the
least of nothing: if its windows meet no row of the wide table with the
inserted rows (`recorded_outcomes`, `recorded_of_run`). Sums and differences
never overflow: the values of the fixture tables are too small.

Key definitions: `Config.LacksPlace`, `Recorded`.
Key theorems: `hasPlace_summation_iff`, `hasPlace_arithmetic_iff`,
`recorded_outcomes`, `recorded_of_run`.
-/
import Columnar.Proofs.Files
import Columnar.Proofs.Sampling

namespace Columnar
namespace Suite

open Binary64 Magnitude Window

/-! ### Where there is a place for a window -/

section

variable {rows : Nat} (hpos : 0 < rows) (hrows : rows ≤ 2 ^ 31)

include hpos hrows

theorem hasPlace_summation_iff : HasPlace rows (widthFor rows summationShare) ↔ 2 ≤ rows :=
  hasPlace_widthFor_iff (by decide) (by decide) hpos (by omega)

theorem hasPlace_leastGreatest_iff :
    HasPlace rows (widthFor rows leastGreatestShare) ↔ 2 ≤ rows := by
  have hshare : leastGreatestShare = ofRatio false (1 * one) 10 := by
    rw [leastGreatestShare, Nat.one_mul]
  rw [hshare]
  exact hasPlace_widthFor_iff (by decide) (by decide) hpos (by omega)

theorem hasPlace_conjunction_iff :
    HasPlace rows (widthFor rows conjunctionShare) ↔ 2 ≤ rows := by
  have hshare : 10 * 31622776601683794 ≤ 8 * 100000000000000000 := by decide
  have hlt : rows < 2 ^ 51 := by omega
  rw [conjunctionShare]
  exact hasPlace_widthFor_iff (by decide) hshare hpos hlt

end

theorem hasPlace_arithmetic_iff {rows : Nat} (hrows : rows ≤ 2 ^ 31) :
    HasPlace rows arithmeticWidth ↔ 20 < rows := by
  have hwidth : arithmeticWidth.toInt = 20 := by decide
  rw [hasPlace_iff (by omega) (by omega) (by omega), hwidth]
  omega

/-! ### What is recorded -/

open Scenario (inside insideBoth)

/-- There is no place for the windows of a scenario, by its number. -/
def Config.LacksPlace (c : Config) (number : Nat) : Prop :=
  c.wideRows = 1 ∨ (number = 6 ∨ number = 7) ∧ c.wideRows ≤ 20

instance (c : Config) (number : Nat) : Decidable (c.LacksPlace number) :=
  inferInstanceAs (Decidable (_ ∨ _))

/-- What is recorded of a scenario, by its number: exactly when it fails, how
many windows there are then, and with which text. -/
structure Recorded (c : Config) (grown : Table) (r : Record) : Prop where
  loading : r.heading.number ≤ 4 → r.fault = none
  summation : r.heading.number = 5 → (r.fault ≠ none ↔ c.wideRows = 1)
  arithmetic : r.heading.number = 6 ∨ r.heading.number = 7 →
    (r.fault ≠ none ↔ c.wideRows ≤ 20)
  leastGreatest : r.heading.number = 8 →
    (r.fault ≠ none ↔ c.wideRows = 1 ∨ ∃ w, r.windows = [w] ∧
      ∀ row < grown.rowCount, grown.meets (inside w) row = false)
  conjunction : r.heading.number = 9 →
    (r.fault ≠ none ↔ c.wideRows = 1 ∨ ∃ first second, r.windows = [first, second] ∧
      ∀ row < grown.rowCount, grown.meets (insideBoth first second) row = false)
  windows : 5 ≤ r.heading.number → r.windows.length =
    if c.LacksPlace r.heading.number then 0 else if r.heading.number = 9 then 2 else 1
  fault : ∀ f, r.fault = some f →
    (r.windows = [] ∧ ∃ low high, f = .emptyInterval low high ∧
      f.message = "Invalid parameters: empty sampling interval [" ++ low.toInt.repr ++ ", " ++
        high.toInt.repr ++ ")") ∨
    (r.windows ≠ [] ∧ f = .emptyAggregate .least ∧
      f.message = "Min over an empty vector is undefined")

section

variable {c : Config} {grown : Table} {r : Record}

theorem recorded_of_loaded (hnumber : r.heading.number ≤ 4) (hfault : r.fault = none) :
    Recorded c grown r where
  loading _ := hfault
  summation h := by omega
  arithmetic h := by omega
  leastGreatest h := by omega
  conjunction h := by omega
  windows h := by omega
  fault f hf := by simp [hfault] at hf

theorem recorded_of_noPlace {low high : Int64} (hnumber : 5 ≤ r.heading.number)
    (hplace : c.LacksPlace r.heading.number) (hwindows : r.windows = [])
    (hfault : r.fault = some (.emptyInterval low high)) (hpos : 0 < c.wideRows) :
    Recorded c grown r := by
  have hfails : r.fault ≠ none := by
    rw [hfault]
    exact Option.some_ne_none _
  have hrows : c.wideRows = 1 ∨
      (r.heading.number = 6 ∨ r.heading.number = 7) ∧ c.wideRows ≤ 20 := hplace
  exact {
    loading := fun h => by omega
    summation := fun h => iff_of_true hfails (by omega)
    arithmetic := fun h => iff_of_true hfails (by omega)
    leastGreatest := fun h => iff_of_true hfails (.inl (by omega))
    conjunction := fun h => iff_of_true hfails (.inl (by omega))
    windows := fun _ => by rw [if_pos hplace, hwindows, List.length_nil]
    fault := fun f hf => by
      rw [hfault, Option.some.injEq] at hf
      exact .inl ⟨hwindows, low, high, hf.symm, hf ▸ rfl⟩ }

/-- A scenario with one window that nothing can go wrong with. -/
theorem recorded_of_evaluated {w : Window} (hlow : 5 ≤ r.heading.number)
    (hhigh : r.heading.number ≤ 7) (hplace : ¬ c.LacksPlace r.heading.number)
    (hwindows : r.windows = [w]) (hfault : r.fault = none) : Recorded c grown r := by
  have hrows : ¬ (c.wideRows = 1 ∨
      (r.heading.number = 6 ∨ r.heading.number = 7) ∧ c.wideRows ≤ 20) := hplace
  exact {
    loading := fun h => by omega
    summation := fun h => iff_of_false (not_not_intro hfault) (by omega)
    arithmetic := fun h => iff_of_false (not_not_intro hfault) (by omega)
    leastGreatest := fun h => by omega
    conjunction := fun h => by omega
    windows := fun _ => by
      rw [if_neg hplace, if_neg (by omega), hwindows]
      rfl
    fault := fun f hf => by simp [hfault] at hf }

/-- The fault of a scenario that takes the least of nothing. -/
theorem eq_emptyAggregate_of_fault {found : Prop} [Decidable found]
    (hfault : r.fault = if found then none else some (.emptyAggregate .least)) {f : Fault}
    (hf : r.fault = some f) : f = .emptyAggregate .least ∧
      f.message = "Min over an empty vector is undefined" := by
  rw [hfault] at hf
  split at hf
  · cases hf
  · cases hf
    exact ⟨rfl, rfl⟩

theorem recorded_leastGreatest {w : Window} (hnumber : r.heading.number = 8)
    (hplace : ¬ c.LacksPlace 8) (hwindows : r.windows = [w])
    (hfault : r.fault = if ∃ row < grown.rowCount, grown.meets (inside w) row = true then none
      else some (.emptyAggregate .least)) : Recorded c grown r where
  loading h := by omega
  summation h := by omega
  arithmetic h := by omega
  leastGreatest _ := by
    have hrows : c.wideRows ≠ 1 := fun h => hplace (.inl h)
    rw [hfault]
    simp [hrows, hwindows]
  conjunction h := by omega
  windows _ := by
    rw [hnumber, if_neg hplace, hwindows]
    rfl
  fault f hf := .inr ⟨by simp [hwindows], eq_emptyAggregate_of_fault hfault hf⟩

theorem recorded_conjunction {first second : Window} (hnumber : r.heading.number = 9)
    (hplace : ¬ c.LacksPlace 9) (hwindows : r.windows = [first, second])
    (hfault : r.fault =
      if ∃ row < grown.rowCount, grown.meets (insideBoth first second) row = true then none
      else some (.emptyAggregate .least)) : Recorded c grown r where
  loading h := by omega
  summation h := by omega
  arithmetic h := by omega
  leastGreatest h := by omega
  conjunction _ := by
    have hrows : c.wideRows ≠ 1 := fun h => hplace (.inl h)
    rw [hfault]
    simp [hrows, hwindows]
  windows _ := by
    rw [hnumber, if_neg hplace, hwindows]
    rfl
  fault f hf := .inr ⟨by simp [hwindows], eq_emptyAggregate_of_fault hfault hf⟩

end

/-! ### The outcomes one by one -/

/-- A scenario from one window that always has a result is left out only if
there is no place for its window. -/
theorem recorded_of_sampled {c : Config} {t : Tables} {heading : Heading}
    {make : Window → Scenario} {width : Int64} {w : Except Fault Window}
    (hw : Sampled c.wideRows width w)
    (hplace : HasPlace c.wideRows width ↔ ¬ c.LacksPlace heading.number)
    (hpos : 0 < c.wideRows) (hlow : 5 ≤ heading.number) (hhigh : heading.number ≤ 7)
    (hheading : ∀ w, (make w).heading = heading) (hwindows : ∀ w, (make w).windows = [w])
    (hresult : ∀ w, ∃ result, (make w).evaluate t.inserted = .ok result) :
    Recorded c t.grown
      (Planned.conduct c.outputDirectory t.inserted ⟨heading, w.map make⟩).record := by
  cases hw with
  | placed low hhas _ =>
    obtain ⟨⟨text, last⟩, hok⟩ := hresult ⟨low, low + width⟩
    change Recorded c t.grown (conduct c.outputDirectory t.inserted (make _)).record
    rw [conduct_of_ok _ hok]
    refine recorded_of_evaluated ?_ ?_ ?_ (hwindows _) rfl
    · rw [hheading]
      exact hlow
    · rw [hheading]
      exact hhigh
    · rw [hheading]
      exact hplace.mp hhas
  | noPlace hnone =>
    have hlacks : c.LacksPlace heading.number :=
      Decidable.not_not.mp fun hhas => hnone (hplace.mpr hhas)
    exact recorded_of_noPlace hlow hlacks rfl rfl hpos

section

variable {c : Config} {k : Keystream} {t : Tables} (h : Tables.Of c k t)

include h

theorem recorded_narrowOutcomes : ∀ o ∈ narrowOutcomes c t, Recorded c t.grown o.record := by
  intro o ho
  obtain ⟨s, hs, rfl⟩ := List.mem_map.mp ho
  have hnumbers : ∀ s ∈ narrowScenarios c, s.heading.number ≤ 4 := by
    simp [narrowScenarios, Scenario.loadNarrow, Scenario.selectFetch, Scenario.averageWindow]
  obtain ⟨⟨text, last⟩, hresult⟩ := h.made.evaluate_narrowScenarios s hs
  rw [conduct_of_ok _ hresult]
  exact recorded_of_loaded (hnumbers s hs) rfl

theorem recorded_leastGreatest_of_sampled {width : Int64} {w : Except Fault Window}
    (hw : Sampled c.wideRows width w)
    (hplace : HasPlace c.wideRows width ↔ ¬ c.LacksPlace 8) (hpos : 0 < c.wideRows) :
    Recorded c t.grown (Planned.conduct c.outputDirectory t.inserted
      ⟨Scenario.leastGreatestHeading, w.map Scenario.leastGreatest⟩).record := by
  cases hw with
  | placed low hhas _ =>
    have hends := Scenario.evaluate_leastGreatest h.grown_conforms h.made.find?_inserted
      h.made.grown_pos ⟨low, low + width⟩
    change Recorded c t.grown
      (conduct c.outputDirectory t.inserted (Scenario.leastGreatest _)).record
    split at hends
    · rename_i hrow
      obtain ⟨⟨text, last⟩, hok⟩ := hends
      rw [conduct_of_ok _ hok]
      exact recorded_leastGreatest rfl (hplace.mp hhas) rfl (if_pos hrow).symm
    · rename_i hrow
      rw [conduct_of_error _ hends]
      exact recorded_leastGreatest rfl (hplace.mp hhas) rfl (if_neg hrow).symm
  | noPlace hnone =>
    have hlacks : c.LacksPlace 8 := Decidable.not_not.mp fun hhas => hnone (hplace.mpr hhas)
    have hlow : 5 ≤ 8 := by decide
    exact recorded_of_noPlace hlow hlacks rfl rfl hpos

theorem recorded_conjunction_of_sampled {width : Int64} {first second : Except Fault Window}
    (hfirst : Sampled c.wideRows width first) (hsecond : Sampled c.wideRows width second)
    (hplace : HasPlace c.wideRows width ↔ ¬ c.LacksPlace 9) (hpos : 0 < c.wideRows) :
    Recorded c t.grown (Planned.conduct c.outputDirectory t.inserted
      ⟨Scenario.conjunctionHeading,
        do return Scenario.conjunction (← first) (← second)⟩).record := by
  cases hfirst with
  | noPlace hnone =>
    have hlacks : c.LacksPlace 9 := Decidable.not_not.mp fun hhas => hnone (hplace.mpr hhas)
    have hlow : 5 ≤ 9 := by decide
    exact recorded_of_noPlace hlow hlacks rfl rfl hpos
  | placed low hhas _ =>
    cases hsecond with
    | noPlace hnone => exact absurd hhas hnone
    | placed low' _ _ =>
      have hends := Scenario.evaluate_conjunction h.grown_conforms h.made.find?_inserted
        ⟨low, low + width⟩ ⟨low', low' + width⟩
      change Recorded c t.grown
        (conduct c.outputDirectory t.inserted (Scenario.conjunction _ _)).record
      split at hends
      · rename_i hrow
        obtain ⟨⟨text, last⟩, hok⟩ := hends
        rw [conduct_of_ok _ hok]
        exact recorded_conjunction rfl (hplace.mp hhas) rfl (if_pos hrow).symm
      · rename_i hrow
        rw [conduct_of_error _ hends]
        exact recorded_conjunction rfl (hplace.mp hhas) rfl (if_neg hrow).symm

/-- Whatever the windows, every outcome is recorded as it should be. -/
theorem recorded_outcomes (hpos : 0 < c.wideRows) (hrows : c.wideRows ≤ 2 ^ 31) :
    ∀ o ∈ outcomes c t k, Recorded c t.grown o.record := by
  have hplace : ∀ number, number ≠ 6 → number ≠ 7 →
      (2 ≤ c.wideRows ↔ ¬ c.LacksPlace number) := by
    intro number h₆ h₇
    rw [Config.LacksPlace]
    omega
  have hplace' : ∀ number, number = 6 ∨ number = 7 →
      (20 < c.wideRows ↔ ¬ c.LacksPlace number) := by
    intro number hnumber
    rw [Config.LacksPlace]
    omega
  obtain ⟨w₅, w₆, w₇, w₈, first, second, hplanned, h₅, h₆, h₇, h₈, h₉, h₁₀⟩ :=
    exists_planned c.wideRows k
  intro o ho
  rw [outcomes, wideOutcomes, hplanned] at ho
  rcases List.mem_append.mp ho with ho | ho
  · exact recorded_narrowOutcomes h o ho
  simp only [List.map_cons, List.map_nil, List.mem_cons, List.not_mem_nil, or_false] at ho
  rcases ho with rfl | rfl | rfl | rfl | rfl | rfl
  · have hfour : 4 ≤ 4 := Nat.le_refl 4
    rw [conduct_of_ok _ h.evaluate_loadWide]
    exact recorded_of_loaded hfour rfl
  · exact recorded_of_sampled h₅
      ((hasPlace_summation_iff hpos hrows).trans (hplace 5 (by decide) (by decide))) hpos
      (by decide) (by decide) (fun _ => rfl) (fun _ => rfl)
      (Scenario.evaluate_summation h.grown_conforms h.made.find?_inserted)
  · exact recorded_of_sampled h₆
      ((hasPlace_arithmetic_iff hrows).trans (hplace' 6 (.inl rfl))) hpos
      (by decide) (by decide) (fun _ => rfl) (fun _ => rfl)
      (Scenario.evaluate_addition h.grown_conforms h.made.find?_inserted)
  · exact recorded_of_sampled h₇
      ((hasPlace_arithmetic_iff hrows).trans (hplace' 7 (.inr rfl))) hpos
      (by decide) (by decide) (fun _ => rfl) (fun _ => rfl)
      (Scenario.evaluate_subtraction h.grown_conforms h.made.find?_inserted)
  · exact recorded_leastGreatest_of_sampled h h₈
      ((hasPlace_leastGreatest_iff hpos hrows).trans (hplace 8 (by decide) (by decide))) hpos
  · exact recorded_conjunction_of_sampled h h₉ h₁₀
      ((hasPlace_conjunction_iff hpos hrows).trans (hplace 9 (by decide) (by decide))) hpos

end

/-! ### The records of a suite -/

theorem Recorded.fault_ne_overflow {c : Config} {grown : Table} {r : Record}
    (h : Recorded c grown r) : r.fault ≠ some .overflow := by
  intro hfault
  rcases h.fault .overflow hfault with ⟨-, _, _, hf, -⟩ | ⟨-, hf, -⟩
  · cases hf
  · cases hf

/-- **Which scenarios fail.** The manifest of a suite begins with the records
of the nine scenarios in order. It depends on the number of rows and on what
the windows meet in the wide table with the inserted rows which of them have a
fault, and no sum or difference is ever too large. -/
theorem recorded_of_run {c : Config} {d d' : Disk} {m : Manifest} (hrows : c.wideRows ≤ 2 ^ 31)
    (h : run c d = (.ok m, d')) :
    ∃ t k main swept, Tables.Of c k t ∧
      (Scenario.loadWide c.dataDirectory).evaluate t.loaded = .ok ("", t.inserted) ∧
      (sweepAll c).result = .ok swept ∧ m = ⟨c, main ++ swept⟩ ∧
      main.map (·.heading.number) = [1, 2, 3, 4, 5, 6, 7, 8, 9] ∧
      ∀ r ∈ main, Recorded c t.grown r ∧ r.fault ≠ some .overflow := by
  obtain ⟨hvalid, -, hm⟩ := exists_of_run_eq_ok h
  obtain ⟨-, hpos, -⟩ := Config.validate_eq_ok_iff.mp hvalid
  obtain ⟨t, k, ht⟩ := exists_tables hrows
  obtain ⟨swept, hswept, hrecords⟩ := exists_records ht hm
  refine ⟨t, k, _, swept, ht, ht.evaluate_loadWide, hswept, hrecords, numbers_records c t k, ?_⟩
  intro r hr
  obtain ⟨o, ho, rfl⟩ := List.mem_map.mp hr
  have hrecorded := recorded_outcomes ht hpos hrows o ho
  exact ⟨hrecorded, hrecorded.fault_ne_overflow⟩

/-- With twenty rows there is no place for the windows of elementwise arithmetic. -/
theorem recorded_of_run_twenty : ∃ m d,
    run ((Config.ofRows 20).withOutput "out") Disk.empty = (.ok m, d) ∧
      ∃ t k main swept, Tables.Of ((Config.ofRows 20).withOutput "out") k t ∧
        (Scenario.loadWide "out").evaluate t.loaded = .ok ("", t.inserted) ∧
        (sweepAll ((Config.ofRows 20).withOutput "out")).result = .ok swept ∧
        m = ⟨(Config.ofRows 20).withOutput "out", main ++ swept⟩ ∧
        main.map (·.heading.number) = [1, 2, 3, 4, 5, 6, 7, 8, 9] ∧
        ∀ r ∈ main, Recorded ((Config.ofRows 20).withOutput "out") t.grown r ∧
          r.fault ≠ some .overflow := by
  obtain ⟨m, d, h⟩ := exists_run_twenty
  have hrows : 20 ≤ 2 ^ 31 := by decide
  exact ⟨m, d, h, recorded_of_run hrows h⟩

end Suite
end Columnar
