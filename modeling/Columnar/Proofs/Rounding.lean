/-
# What one rounding does

Rounding to a whole number moves a quotient by a half at most, and a quotient
closer than a half to a whole number goes there (`nearest_eq_of_near`). Rounding
to a magnitude is rounding on a spacing that is a small part of the number, so
it moves the number by a small part of itself (`Magnitude.exists_near`), and
whole numbers up to `2 ^ 53` not at all (`Binary64.exists_ofInt`). From this come
bounds for a product and a quotient of numbers that are not too large.

The spacing widens from one power of two to the next, but never past the power
itself. So rounding keeps the order (`Magnitude.rounded_mono`).

Key definitions: `Magnitude.rounded`, `Magnitude.value`, `Magnitude.Near`.
Key theorems: `nearest_eq_of_near`, `Magnitude.rounded_mono`,
`Magnitude.exists_near`, `Binary64.exists_ofInt`, `Binary64.exists_mul`,
`Binary64.exists_div`.
-/
import Columnar.Proofs.Averages
import Mathlib.Algebra.Order.Ring.Abs
import Mathlib.Data.Rat.Cast.Order
import Mathlib.Tactic.Linarith
import Mathlib.Tactic.NormNum
import Mathlib.Tactic.FieldSimp

namespace Columnar

/-! ### Whole numbers -/

theorem nearest_mono {n m : Nat} (h : n ≤ m) (d : Nat) : nearest n d ≤ nearest m d := by
  have hquotient : n / d ≤ m / d := Nat.div_le_div_right h
  rcases Nat.lt_or_eq_of_le hquotient with hlt | heq
  · -- the next whole number at most
    have hn := nearest_le n d
    have hm := le_nearest m d
    omega
  · -- one whole number below both, and no smaller rest
    have hrest : n % d ≤ m % d := by
      have hn := Nat.div_add_mod n d
      have hm := Nat.div_add_mod m d
      rw [heq] at hn
      omega
    rcases Nat.lt_trichotomy (2 * (n % d)) d with hbelow | hhalf | habove
    · rw [nearest, if_pos hbelow, heq]
      exact le_nearest m d
    · unfold nearest
      rw [if_neg (by omega), if_neg (by omega), if_neg (by omega), heq]
      split
      · omega
      · exact Nat.le_refl _
    · unfold nearest
      rw [if_neg (by omega), if_pos habove, if_neg (by omega), if_pos (by omega), heq]

/-- Rounding moves by a half at most. -/
theorem nearest_mul_near (n : Nat) {d : Nat} (hd : 0 < d) :
    2 * (nearest n d * d) ≤ 2 * n + d ∧ 2 * n ≤ 2 * (nearest n d * d) + d := by
  have hn := Nat.div_add_mod n d
  have hrest := Nat.mod_lt n hd
  have hnext : (n / d + 1) * d = n / d * d + d := Nat.succ_mul _ _
  rw [Nat.mul_comm] at hn
  unfold nearest
  split
  · omega
  · split
    · omega
    · rcases Nat.mod_two_eq_zero_or_one (n / d) with heven | hodd
      · rw [heven, Nat.add_zero]
        omega
      · rw [hodd]
        omega

/-- A quotient closer than a half to a whole number is rounded to it. -/
theorem nearest_eq_of_near {n d k : Nat} (hbelow : 2 * (k * d) < 2 * n + d)
    (habove : 2 * n < 2 * (k * d) + d) : nearest n d = k := by
  have hd : 0 < d := by
    rcases Nat.eq_zero_or_pos d with rfl | hd
    · omega
    · exact hd
  obtain ⟨hle, hge⟩ := nearest_mul_near n hd
  have hlt : nearest n d * d < (k + 1) * d := by
    rw [Nat.succ_mul]
    omega
  have hgt : k * d < (nearest n d + 1) * d := by
    rw [Nat.succ_mul]
    omega
  have := Nat.lt_of_mul_lt_mul_right hlt
  have := Nat.lt_of_mul_lt_mul_right hgt
  omega

namespace Magnitude

/-! ### Rounding keeps the order -/

/-- What a ratio is rounded to, were there no largest magnitude. -/
def rounded (n d : Nat) : Nat := nearest n (d * spacing (n / d)) * spacing (n / d)

theorem ofRatio?_eq (n d : Nat) : ofRatio? n d =
    if h : rounded n d < limit then some ⟨rounded n d, h, spaced_nearest n d⟩ else none := rfl

theorem units_eq_rounded {n d : Nat} {m : Magnitude} (h : ofRatio? n d = some m) :
    m.units = rounded n d :=
  units_ofRatio? h

/-- The power of two below the ratio is not left, from where the spacing
is more than one. -/
theorem two_pow_le_rounded {n d : Nat} (hlog : 52 ≤ (n / d).log2) :
    2 ^ (n / d).log2 ≤ rounded n d := by
  have hne : n / d ≠ 0 := by
    intro hzero
    rw [hzero] at hlog
    exact absurd hlog (by decide)
  have hpow : 2 ^ 52 * spacing (n / d) = 2 ^ (n / d).log2 := by
    rw [spacing, Nat.one_shiftLeft, ← Nat.pow_add, Nat.add_sub_cancel' hlog]
  have hquotient : 2 ^ 52 ≤ n / d / spacing (n / d) := by
    rw [Nat.le_div_iff_mul_le (spacing_pos _), hpow]
    exact Nat.log2_self_le hne
  have hnearest := le_nearest n (d * spacing (n / d))
  rw [← Nat.div_div_eq_div_mul] at hnearest
  rw [← hpow]
  exact Nat.mul_le_mul_right _ (Nat.le_trans hquotient hnearest)

theorem rounded_le_two_pow (n d : Nat) : rounded n d ≤ 2 ^ 53 * spacing (n / d) :=
  Nat.mul_le_mul_right _ (nearest_le_two_pow n d)

/-- **Rounding keeps the order.** -/
theorem rounded_mono {n m : Nat} (h : n ≤ m) (d : Nat) : rounded n d ≤ rounded m d := by
  have hquotient : n / d ≤ m / d := Nat.div_le_div_right h
  rcases Nat.lt_or_ge ((n / d).log2 - 52) ((m / d).log2 - 52) with hlt | hge
  · -- a power of two lies between the two
    have hspacing : 2 ^ 53 * spacing (n / d) ≤ 2 ^ (m / d).log2 := by
      rw [spacing, Nat.one_shiftLeft, ← Nat.pow_add]
      exact Nat.pow_le_pow_right (by decide) (by omega)
    calc rounded n d ≤ 2 ^ 53 * spacing (n / d) := rounded_le_two_pow n d
      _ ≤ 2 ^ (m / d).log2 := hspacing
      _ ≤ rounded m d := two_pow_le_rounded (by omega)
  · have hlog : (n / d).log2 ≤ (m / d).log2 := by
      rcases Nat.eq_zero_or_pos (n / d) with hzero | hpos
      · simp [hzero]
      · have hne : m / d ≠ 0 := by omega
        exact (Nat.le_log2 hne).mpr (Nat.le_trans (Nat.log2_self_le (by omega)) hquotient)
    have hspacing : spacing (n / d) = spacing (m / d) := by
      rw [spacing, spacing, show (n / d).log2 - 52 = (m / d).log2 - 52 by omega]
    rw [rounded, rounded, hspacing]
    exact Nat.mul_le_mul_right _ (nearest_mono h _)

/-! ### How far a number is moved -/

/-- The magnitude as a rational number. -/
def value (m : Magnitude) : ℚ := m.units / one

/-- As close to `q` as one rounding leaves it. -/
def Near (q : ℚ) (m : Magnitude) : Prop := |m.value - q| ≤ q / 2 ^ 53 + 1 / 2 ^ 100

theorem cast_one_pos : (0 : ℚ) < one := Nat.cast_pos.mpr one_pos

theorem value_mul_one (m : Magnitude) : m.value * one = m.units :=
  div_mul_cancel₀ _ cast_one_pos.ne'

/-- Rounding to the spacing around `n / d` moves `n` by no more than this. -/
theorem rounded_mul_near (n : Nat) {d : Nat} (hd : 0 < d) :
    |(rounded n d * d : ℚ) - n| ≤ (n + 2 ^ 52 * d) / 2 ^ 53 := by
  obtain ⟨hle, hge⟩ := nearest_mul_near n (Nat.mul_pos hd (spacing_pos (n / d)))
  have hspacing : 2 ^ 52 * (d * spacing (n / d)) ≤ n + 2 ^ 52 * d := by
    have hsmall := Nat.mul_le_mul_left d (two_pow_mul_spacing_le (n / d))
    have hquotient := Nat.mul_div_le n d
    rw [Nat.mul_add] at hsmall
    calc 2 ^ 52 * (d * spacing (n / d)) = d * (2 ^ 52 * spacing (n / d)) := by ring
      _ ≤ n + 2 ^ 52 * d := by omega
  have hunits : nearest n (d * spacing (n / d)) * (d * spacing (n / d)) = rounded n d * d := by
    rw [rounded]
    ring
  rw [hunits] at hle hge
  generalize d * spacing (n / d) = step at hle hge hspacing
  have hle' : (2 * (rounded n d * d) : ℚ) ≤ 2 * n + step := by exact_mod_cast hle
  have hge' : (2 * n : ℚ) ≤ 2 * (rounded n d * d) + step := by exact_mod_cast hge
  have hspacing' : (2 ^ 52 * step : ℚ) ≤ n + 2 ^ 52 * d := by exact_mod_cast hspacing
  rw [abs_le]
  constructor <;> linarith

theorem two_pow_le_one : 2 ^ 100 ≤ one := by decide

/-- **A ratio that is not too large has a magnitude near it.** -/
theorem exists_near {n d : Nat} (hd : 0 < d) {q : ℚ} (hq : (n : ℚ) = q * one * d)
    (hbound : q ≤ 2 ^ 64) : ∃ m, ofRatio? n d = some m ∧ m.Near q := by
  have hone : (0 : ℚ) < one := cast_one_pos
  have hd' : (0 : ℚ) < d := Nat.cast_pos.mpr hd
  have hfits : n / d + spacing (n / d) < limit := by
    have hn : n ≤ 2 ^ 64 * one * d := by
      have hratio : (n : ℚ) ≤ 2 ^ 64 * one * d := by
        rw [hq, mul_assoc, mul_assoc]
        exact mul_le_mul_of_nonneg_right hbound (mul_pos hone hd').le
      exact_mod_cast hratio
    have hquotient : n / d ≤ 2 ^ 64 * one := Nat.div_le_of_le_mul (by rwa [Nat.mul_comm] at hn)
    have hspacing := two_pow_mul_spacing_le (n / d)
    have hlimit : 2 ^ 66 * one < limit := by decide
    have hlarge := two_pow_le_one
    omega
  obtain ⟨m, hm, -⟩ := exists_ofRatio? hfits
  refine ⟨m, hm, ?_⟩
  have hnear := rounded_mul_near n hd
  have hone' : (2 ^ 100 : ℚ) ≤ one := by exact_mod_cast two_pow_le_one
  have hunit : (1 : ℚ) / (2 * one) ≤ 1 / 2 ^ 100 := by
    gcongr
    linarith
  rw [← units_eq_rounded hm] at hnear
  have hscaled : (m.units * d - n : ℚ) = (m.value - q) * (one * d) := by
    rw [hq, ← value_mul_one]
    ring
  rw [hscaled, abs_mul, abs_of_pos (mul_pos hone hd'), hq,
    ← le_div_iff₀ (mul_pos hone hd')] at hnear
  calc |m.value - q| ≤ (q * one * d + 2 ^ 52 * d) / 2 ^ 53 / (one * d) := hnear
    _ = q / 2 ^ 53 + 1 / (2 * one) := by field_simp
    _ ≤ q / 2 ^ 53 + 1 / 2 ^ 100 := by gcongr

theorem exists_whole {k : Nat} (hk : k ≤ 2 ^ 53) :
    ∃ m, ofRatio? (k * one) 1 = some m ∧ m.value = k := by
  have hfits : k * one < limit := by
    have hle : k * one ≤ 2 ^ 53 * one := Nat.mul_le_mul_right _ hk
    have hlimit : 2 ^ 53 * one < limit := by decide
    omega
  have hspaced : k * one % spacing (k * one) = 0 := by
    rcases Nat.lt_or_eq_of_le hk with hlt | rfl
    · exact spaced_mul_shiftLeft hlt 1074
    · have hpower : 2 ^ 53 * one = 1 * 1 <<< 1127 := by decide
      rw [hpower]
      exact spaced_mul_shiftLeft (by decide) 1127
  refine ⟨⟨k * one, hfits, hspaced⟩, ?_, ?_⟩
  · have hexact := ofRatio?_mul ⟨k * one, hfits, hspaced⟩ Nat.one_pos
    rwa [Nat.mul_one] at hexact
  · rw [value, Nat.cast_mul]
    exact mul_div_cancel_right₀ _ cast_one_pos.ne'

theorem nearest_units {m : Magnitude} {c k : Nat} (h : |m.value * c - k| < 1 / 2) :
    nearest (m.units * c) one = k := by
  have hone : (0 : ℚ) < one := cast_one_pos
  obtain ⟨hbelow, habove⟩ := abs_lt.mp h
  have hscaled : (m.units * c : ℚ) = m.value * c * one := by
    rw [← value_mul_one]
    ring
  have hbelow' : (k - 1 / 2) * (one : ℚ) < m.units * c := by
    rw [hscaled]
    exact mul_lt_mul_of_pos_right (by linarith) hone
  have habove' : (m.units * c : ℚ) < (k + 1 / 2) * one := by
    rw [hscaled]
    exact mul_lt_mul_of_pos_right (by linarith) hone
  have hle : (2 * (k * one) : ℚ) < 2 * (m.units * c) + one := by linarith
  have hge : (2 * (m.units * c) : ℚ) < 2 * (k * one) + one := by linarith
  exact nearest_eq_of_near (by exact_mod_cast hle) (by exact_mod_cast hge)

end Magnitude

/-! ### Operations on numbers that are not too large -/

namespace Binary64

open Magnitude

/-- **An integer up to `2 ^ 53` is its own nearest number.** -/
theorem exists_ofInt {i : Int} (hi : i.natAbs ≤ 2 ^ 53) :
    ∃ m, ofInt i = finite (i < 0) m ∧ m.value = i.natAbs := by
  obtain ⟨m, hm, hvalue⟩ := exists_whole hi
  exact ⟨m, ofRatio_eq_of_some hm _, hvalue⟩

theorem exists_mul (s t : Bool) {a b : Magnitude} (hbound : a.value * b.value ≤ 2 ^ 64) :
    ∃ m, (finite s a).mul (finite t b) = finite (s != t) m ∧ m.Near (a.value * b.value) := by
  have hratio : ((a.units * b.units : Nat) : ℚ) = a.value * b.value * one * one := by
    rw [Nat.cast_mul, ← value_mul_one, ← value_mul_one]
    ring
  obtain ⟨m, hm, hnear⟩ := exists_near Magnitude.one_pos hratio hbound
  exact ⟨m, ofRatio_eq_of_some hm _, hnear⟩

theorem exists_div (s t : Bool) {a b : Magnitude} (hb : 0 < b.value)
    (hbound : a.value / b.value ≤ 2 ^ 64) :
    ∃ m, (finite s a).div (finite t b) = finite (s != t) m ∧ m.Near (a.value / b.value) := by
  have hunits : b.units ≠ 0 := by
    intro hzero
    rw [value, hzero, Nat.cast_zero, zero_div] at hb
    exact lt_irrefl _ hb
  have hratio : ((a.units * one : Nat) : ℚ) = a.value / b.value * one * b.units := by
    rw [Nat.cast_mul, ← value_mul_one, ← value_mul_one]
    field_simp
  obtain ⟨m, hm, hnear⟩ := exists_near (Nat.pos_of_ne_zero hunits) hratio hbound
  refine ⟨m, ?_, hnear⟩
  rw [finite_div_finite hunits]
  exact ofRatio_eq_of_some hm _

theorem exists_roundWhole (s : Bool) {a : Magnitude} {k : Nat} (hk : k ≤ 2 ^ 53)
    (hnear : |a.value - k| < 1 / 2) :
    ∃ m, (finite s a).roundWhole = finite s m ∧ m.value = k := by
  have hnearest : nearest a.units one = k := by
    rw [← Nat.mul_one a.units]
    refine nearest_units ?_
    rwa [Nat.cast_one, mul_one]
  obtain ⟨m, hm, hvalue⟩ := exists_whole hk
  refine ⟨m, ?_, hvalue⟩
  rw [roundWhole, hnearest]
  exact ofRatio_eq_of_some hm _

end Binary64
end Columnar
