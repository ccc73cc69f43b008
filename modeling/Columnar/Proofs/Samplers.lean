/-
# Windows from any sampler

What a window is drawn with is a parameter (`Window.sample`), and all that matters
of it is that it gives an integer of every interval that holds one and fails on
every other (`IsSampler`). What it keeps between two draws is its own affair.

Both ends of the interval for the low end are truncated toward zero. For an odd
number of rows this takes half a step off the lower end, and off the upper end too,
as long as it is above zero; where the window is wider than half the rows the upper
end is below zero and gains half a step. This is the half by which the rows, halved,
were rounded down, so that the window never leaves the integers that the column is
drawn from (`Window.sample_of_sampler`).

Key definitions: `IsSampler`.
Key theorems: `isSampler_uniform`, `Window.exists_sample_iff`,
`Window.within_of_low`, `Window.sample_of_sampler`.
-/
import Columnar.Proofs.Fixtures
import Columnar.Proofs.Sampling

namespace Columnar

variable {σ : Type} {draw : Int64 → Int64 → ExceptT Fault (StateM σ) Int64}

/-- A way to draw integers, with a state of its own: from an interval that holds an
integer it draws one of them, and from every other it draws none. -/
structure IsSampler (draw : Int64 → Int64 → ExceptT Fault (StateM σ) Int64) : Prop where
  drawn : ∀ {low high : Int64}, low.toInt < high.toInt → ∀ s, ∃ v s',
    (draw low high).run s = (.ok v, s') ∧ InInterval low high v
  refused : ∀ {low high : Int64}, ¬ low.toInt < high.toInt → ∀ s, ∃ fault s',
    (draw low high).run s = (.error fault, s')

theorem isSampler_uniform : IsSampler uniform where
  drawn := exists_uniform
  refused h k := ⟨_, k, uniform_empty h k⟩

namespace Window

section

variable (hdraw : IsSampler draw) {rows : Nat} {width : Int64}

include hdraw

theorem exists_sample (hplace : HasPlace rows width) (s : σ) : ∃ low s',
    (sample draw rows width).run s = (.ok ⟨low, low + width⟩, s') ∧
      InInterval (interval rows width).1 (interval rows width).2 low := by
  obtain ⟨low, s', hrun, hlow⟩ := hdraw.drawn hplace s
  refine ⟨low, s', ?_, hlow⟩
  rw [sample, Draw.run_bind_ok hrun]
  exact Draw.run_pure _ s'

theorem exists_sample_iff (s : σ) :
    (∃ w s', (sample draw rows width).run s = (.ok w, s')) ↔ HasPlace rows width := by
  refine ⟨fun ⟨w, s', hrun⟩ => ?_, fun hplace => ?_⟩
  · by_contra hnone
    obtain ⟨fault, s₁, hrefused⟩ := hdraw.refused hnone s
    rw [sample, Draw.run_bind_error hrefused] at hrun
    cases hrun
  · obtain ⟨low, s', hrun, -⟩ := exists_sample hdraw hplace s
    exact ⟨_, s', hrun⟩

theorem low_of_sample {w : Window} {s s' : σ}
    (h : (sample draw rows width).run s = (.ok w, s')) :
    InInterval (interval rows width).1 (interval rows width).2 w.low ∧ w.high = w.low + width := by
  obtain ⟨low, s₁, hrun, hlow⟩ :=
    exists_sample hdraw ((exists_sample_iff hdraw s).mp ⟨w, s', h⟩) s
  obtain ⟨hw, -⟩ := Prod.mk.inj (h.symm.trans hrun)
  rw [Except.ok.inj hw]
  exact ⟨hlow, rfl⟩

end

/-- Placed by its interval, a window does not reach beyond half the rows on either
side. -/
theorem within_of_low {rows : Nat} {low width : Int64} (hrows : rows < 2 ^ 51)
    (hwidth : width.toInt < 2 ^ 51) (hpos : 0 ≤ width.toInt)
    (hlow : InInterval (interval rows width).1 (interval rows width).2 low) :
    -(rows / 2 : Nat) ≤ low.toInt ∧ low.toInt + width.toInt ≤ (rows / 2 : Nat) := by
  have habs : width.toInt.natAbs < 2 ^ 51 := by omega
  obtain ⟨hfirst, hlast⟩ := toInt_interval hrows habs
  rw [InInterval, hfirst, hlast, Binary64.tdiv_two] at hlow
  split at hlow <;> omega

/-- **Whatever it is drawn with, a window lies inside the column that it is for.** A
sampler draws a window if and only if the table has two rows or more and one more
than the window is wide. The window then has this width, and no integer in it is
outside the interval from which the wide table draws its first column, be the number
of rows odd or even. -/
theorem sample_of_sampler (hdraw : IsSampler draw) {rows : Nat} {width : Int64}
    (hrows : rows ≤ 2 ^ 50) (hpos : 0 ≤ width.toInt) (hwidth : width.toInt ≤ 2 ^ 50) (s : σ) :
    ((∃ w s', (sample draw rows width).run s = (.ok w, s')) ↔
      2 ≤ rows ∧ width.toInt < rows) ∧
    ∀ w s', (sample draw rows width).run s = (.ok w, s') →
      w.high.toInt - w.low.toInt = width.toInt ∧
      -(rows / 2 : Nat) ≤ w.low.toInt ∧ w.high.toInt ≤ (rows / 2 : Nat) ∧
      ∀ v, InInterval w.low w.high v →
        InInterval (Fixture.blockLow rows) (Fixture.blockHigh rows) v := by
  refine ⟨?_, fun w s' hrun => ?_⟩
  · rw [exists_sample_iff hdraw, hasPlace_iff (by omega) (by omega) hpos]
  · obtain ⟨hlow, hhigh⟩ := low_of_sample hdraw hrun
    obtain ⟨hge, hle⟩ := within_of_low (by omega) (by omega) hpos hlow
    have hend : w.high.toInt = w.low.toInt + width.toInt := by
      rw [hhigh, Int64.toInt_add, Int.bmod_eq_of_le (by omega) (by omega)]
    obtain ⟨hfirst, hlast⟩ := Fixture.toInt_block (show rows < 2 ^ 64 by omega)
    exact ⟨by omega, hge, by omega, fun v ⟨hv₁, hv₂⟩ => ⟨by omega, by omega⟩⟩

/-- Five rows: there is a place for a window wider than half of them, and none for one
of all five. -/
theorem sample_of_sampler_five :
    IsSampler uniform ∧ 5 ≤ 2 ^ 50 ∧
      (0 ≤ (3 : Int64).toInt ∧ (3 : Int64).toInt ≤ 2 ^ 50 ∧
        ∃ w k, (sample uniform 5 3).run (Keystream.ofSeed 47) = (.ok w, k) ∧
          w.high.toInt - w.low.toInt = 3 ∧ -2 ≤ w.low.toInt ∧ w.high.toInt ≤ 2) ∧
      0 ≤ (5 : Int64).toInt ∧ (5 : Int64).toInt ≤ 2 ^ 50 ∧
        ¬ ∃ w k, (sample uniform 5 5).run (Keystream.ofSeed 47) = (.ok w, k) := by
  have hrows : 5 ≤ 2 ^ 50 := by decide
  have hthree : 0 ≤ (3 : Int64).toInt ∧ (3 : Int64).toInt ≤ 2 ^ 50 := by decide
  have hfive : 0 ≤ (5 : Int64).toInt ∧ (5 : Int64).toInt ≤ 2 ^ 50 := by decide
  obtain ⟨hplaced, hwindow⟩ :=
    sample_of_sampler isSampler_uniform hrows hthree.1 hthree.2 (Keystream.ofSeed 47)
  obtain ⟨hnone, -⟩ :=
    sample_of_sampler isSampler_uniform hrows hfive.1 hfive.2 (Keystream.ofSeed 47)
  obtain ⟨w, k, hrun⟩ := hplaced.mpr (by decide)
  obtain ⟨hwidth, hlow, hhigh, -⟩ := hwindow w k hrun
  exact ⟨isSampler_uniform, hrows, ⟨hthree.1, hthree.2, w, k, hrun, hwidth, hlow, hhigh⟩,
    hfive.1, hfive.2, mt hnone.mp (by decide)⟩

end Window
end Columnar
