/-
# Which windows can be sampled

A window of a width on a table of so many rows has its low end drawn from an
interval that is computed in binary64. For tables and widths of up to
`2 ^ 51` the computation is exact (`Window.toInt_interval`), so the interval
is empty only for a table of less than two rows or a width of all its rows
(`Window.hasPlace_iff`). The width that keeps a share is rounded,
but a share of at most nine tenths never gives all rows (`widthFor_lt`).

Key theorems: `Window.toInt_interval`, `Window.hasPlace_iff`, `widthFor_lt`,
`hasPlace_widthFor_iff`.
-/
import Columnar.Proofs.Draws
import Columnar.Proofs.Halves

namespace Columnar

open Binary64 Magnitude

/-! ### The interval -/

namespace Window

/-- The ends of the interval: half the rows below zero, and above zero half
the rows less the width, each truncated toward zero. -/
theorem toInt_interval {rows : Nat} {width : Int64} (hrows : rows < 2 ^ 51)
    (hwidth : width.toInt.natAbs < 2 ^ 51) :
    (interval rows width).1.toInt = -(rows / 2 : Nat) ∧
      (interval rows width).2.toInt = ((rows : Int) - 2 * width.toInt).tdiv 2 := by
  have hofRows : IsHalves (ofInt rows) (2 * rows) := isHalves_ofInt (by omega)
  have hhalf : IsHalves ((ofInt rows).div (ofInt 2)) rows := hofRows.div_two (by omega)
  have hofWidth : IsHalves (ofInt width.toInt) (2 * width.toInt) := isHalves_ofInt (by omega)
  -- every number on the way is a whole number of halves, so nothing is rounded
  constructor
  · have hlow := hhalf.neg.truncate (by omega)
    rw [tdiv_two] at hlow
    simp only [interval]
    split at hlow <;> omega
  · exact (hhalf.sub hofWidth (by omega)).truncate (by omega)

/-- There is a place for a window if the table has two rows or more and one
more than the window is wide. -/
theorem hasPlace_iff {rows : Nat} {width : Int64} (hrows : rows < 2 ^ 51)
    (hwidth : width.toInt < 2 ^ 51) (hpos : 0 ≤ width.toInt) :
    HasPlace rows width ↔ 2 ≤ rows ∧ width.toInt < rows := by
  have habs : width.toInt.natAbs < 2 ^ 51 := by omega
  obtain ⟨hlow, hhigh⟩ := toInt_interval hrows habs
  rw [HasPlace, hlow, hhigh, tdiv_two]
  split <;> omega

end Window

/-! ### The width for a share -/

theorem ten_mul_div_le {a b n : Nat} (hb : 0 < b) (h : 10 * a ≤ 8 * b) :
    10 * (a * n / b) ≤ 8 * n := by
  have hle : a * n / b * b ≤ a * n := Nat.div_mul_le_self _ _
  refine Nat.le_of_mul_le_mul_right ?_ hb
  calc 10 * (a * n / b) * b = 10 * (a * n / b * b) := Nat.mul_assoc _ _ _
    _ ≤ 10 * (a * n) := Nat.mul_le_mul_left _ hle
    _ = 10 * a * n := (Nat.mul_assoc _ _ _).symm
    _ ≤ 8 * b * n := Nat.mul_le_mul_right _ h
    _ = 8 * n * b := Nat.mul_right_comm _ _ _

theorem add_spacing_lt {u n : Nat} (hu : 10 * u ≤ 9 * n) (hn : 1000 ≤ n) :
    u + spacing u < n := by
  have hspacing := two_pow_mul_spacing_le u
  omega

theorem ten_mul_add_spacing_le {u n : Nat} (hu : 10 * u ≤ 8 * n) (hn : 1000 ≤ n) :
    10 * (u + spacing u) ≤ 9 * n := by
  have hspacing := two_pow_mul_spacing_le u
  omega

theorem le_one : 1000 ≤ one := by decide

theorem exists_share {a b : Nat} (hb : 0 < b) (h : 10 * a ≤ 8 * b) :
    ∃ m, ofRatio false (a * one) b = finite false m ∧ 10 * m.units ≤ 9 * one := by
  have hquotient : 10 * (a * one / b) ≤ 8 * one := ten_mul_div_le hb h
  have hle : 10 * (a * one / b) ≤ 9 * one :=
    Nat.le_trans hquotient (Nat.mul_le_mul_right one (by decide))
  have hlimit : one ≤ limit := by decide
  obtain ⟨m, hm, hunits⟩ :=
    exists_ofRatio? (Nat.lt_of_lt_of_le (add_spacing_lt hle le_one) hlimit)
  exact ⟨m, ofRatio_eq_of_some hm false,
    Nat.le_trans (Nat.mul_le_mul_left 10 hunits) (ten_mul_add_spacing_le hquotient le_one)⟩

theorem ofInt_rows {rows : Nat} (hrows : rows < 2 ^ 51) :
    ofInt rows = finite false (halves (2 * rows) (by omega)) := by
  have hunits : (rows : Int).natAbs * one = 2 * rows * half * 1 := by
    rw [one_eq, Int.natAbs_natCast, Nat.mul_one, Nat.mul_left_comm, Nat.mul_assoc]
  have hsign : decide ((rows : Int) < 0) = false := by
    rw [decide_eq_false_iff_not]
    omega
  rw [ofInt, hsign]
  exact ofRatio_eq_finite false Nat.one_pos hunits

theorem toInt_truncate {m : Magnitude} {whole : Nat} (hwhole : m.units / one = whole)
    (hbound : whole < 2 ^ 63) : (finite false m).truncate.toInt = whole := by
  have hclamp : (clamp (whole : Int)).toInt = whole := toInt_clamp (by omega) (by omega)
  rw [truncate, hwhole]
  exact hclamp

/-- A share of at most nine tenths of the rows leaves a row out. -/
theorem widthFor_lt {share : Magnitude} (hshare : 10 * share.units ≤ 9 * one) {rows : Nat}
    (hpos : 0 < rows) (hrows : rows < 2 ^ 51) :
    0 ≤ (widthFor rows (finite false share)).toInt ∧
      (widthFor rows (finite false share)).toInt < rows := by
  have hbound : 2 * rows < 2 ^ 53 := by omega
  have hquotient : share.units * (halves (2 * rows) hbound).units / one = share.units * rows := by
    have hhalves : (halves (2 * rows) hbound).units = rows * one := by
      rw [one_eq, Nat.mul_left_comm, ← Nat.mul_assoc]
      rfl
    rw [hhalves, ← Nat.mul_assoc, Nat.mul_div_cancel _ Magnitude.one_pos]
  have hle : 10 * (share.units * rows) ≤ 9 * (rows * one) := by
    calc 10 * (share.units * rows) = 10 * share.units * rows := (Nat.mul_assoc _ _ _).symm
      _ ≤ 9 * one * rows := Nat.mul_le_mul_right _ hshare
      _ = 9 * (rows * one) := by rw [Nat.mul_assoc, Nat.mul_comm one]
  -- rounding the product may add a step, which does not reach the next row
  have hlt := add_spacing_lt hle (Nat.le_trans le_one (Nat.le_mul_of_pos_left _ hpos))
  have hlimit : rows * one ≤ limit :=
    Nat.le_trans (Nat.mul_le_mul_right one (Nat.le_of_lt hrows)) (by decide)
  obtain ⟨m, hm, hunits⟩ := exists_ofRatio? (n := share.units * (halves (2 * rows) hbound).units)
    (d := one) (by rw [hquotient]; exact Nat.lt_of_lt_of_le hlt hlimit)
  rw [hquotient] at hunits
  have hwhole : m.units / one < rows :=
    (Nat.div_lt_iff_lt_mul Magnitude.one_pos).mpr (Nat.lt_of_le_of_lt hunits hlt)
  have hproduct : (finite false share).mul (ofInt rows) = finite false m := by
    rw [ofInt_rows hrows]
    exact ofRatio_eq_of_some hm false
  have htruncated : (widthFor rows (finite false share)).toInt = (m.units / one : Nat) := by
    rw [widthFor, hproduct]
    exact toInt_truncate rfl (Nat.lt_trans hwhole (by omega))
  rw [htruncated]
  exact ⟨Int.natCast_nonneg _, Int.ofNat_lt.mpr hwhole⟩

/-- **A share of at most eight tenths can be sampled from two rows on.** -/
theorem hasPlace_widthFor_iff {a b : Nat} (hb : 0 < b) (hshare : 10 * a ≤ 8 * b) {rows : Nat}
    (hpos : 0 < rows) (hrows : rows < 2 ^ 51) :
    Window.HasPlace rows (widthFor rows (ofRatio false (a * one) b)) ↔ 2 ≤ rows := by
  obtain ⟨share, hratio, hunits⟩ := exists_share hb hshare
  obtain ⟨hnonneg, hlt⟩ := widthFor_lt hunits hpos hrows
  rw [hratio, Window.hasPlace_iff hrows (by omega) hnonneg]
  exact and_iff_left hlt

end Columnar
