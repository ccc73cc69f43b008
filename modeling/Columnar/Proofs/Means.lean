/-
# The printed mean of integers

The mean of `n` integers with the sum `t` is rounded three times on its way to
the text: the quotient, a hundred times the quotient, and the hundredth part of
the whole number nearest to that. As long as the sum is at most `2 ^ 44` the
first two roundings move `100 t / n` by less than `1 / (2 n)`, and a ratio over
`n` that is not halfway between two whole numbers is at least `1 / (2 n)` away
from halfway (`abs_sub_round_le`). So the whole number is the one nearest to
`100 t / n` (`Magnitude.scaled_mean_near`), and the third rounding is too small to
change the two decimals (`Magnitude.hundredths_of_near`).

The printed number has a sign if it is not zero, and then it is the sign of the
sum.

Key definitions: `hundredMeans`, `hundredthsText`.
Key theorems: `abs_sub_round_le`, `Magnitude.scaled_mean_near`,
`Binary64.exists_mean`, `field_average_ints`.
-/
import Columnar.Proofs.Figures
import Columnar.Proofs.Integers
import Columnar.Proofs.Rounding
import Mathlib.Algebra.Order.Round
import Mathlib.Data.Rat.Floor

namespace Columnar

/-! ### Away from halfway -/

/-- A ratio that is not halfway between two whole numbers is not within half a
step of its denominator from there. -/
theorem abs_sub_round_le {a : ℤ} {n : ℕ} (hn : 0 < n)
    (htie : ∀ i : ℤ, (a / n : ℚ) ≠ i + 1 / 2) :
    |(a / n : ℚ) - round (a / n : ℚ)| ≤ 1 / 2 - 1 / (2 * n) := by
  have hn' : (0 : ℚ) < n := Nat.cast_pos.mpr hn
  obtain ⟨hbelow, habove⟩ := abs_le.mp (abs_sub_round (a / n : ℚ))
  have hne := htie (round (a / n : ℚ))
  have hne' := htie (round (a / n : ℚ) - 1)
  generalize round (a / n : ℚ) = k at *
  have hlt : (k : ℚ) - 1 / 2 < a / n := by
    refine lt_of_le_of_ne (by linarith) fun heq => hne' ?_
    rw [← heq]
    push_cast
    ring
  have hgt : (a / n : ℚ) < k + 1 / 2 := lt_of_le_of_ne (by linarith) hne
  -- between whole numbers a step is one
  rw [lt_div_iff₀ hn'] at hlt
  rw [div_lt_iff₀ hn'] at hgt
  have hlt' : 2 * k * n - n < 2 * a := by
    have hscaled : (2 * k * n - n : ℚ) < 2 * a := by linarith
    exact_mod_cast hscaled
  have hgt' : 2 * a < 2 * k * n + n := by
    have hscaled : (2 * a : ℚ) < 2 * k * n + n := by linarith
    exact_mod_cast hscaled
  have hle : (2 * k * n - n + 1 : ℚ) ≤ 2 * a := by exact_mod_cast hlt'
  have hge : (2 * a + 1 : ℚ) ≤ 2 * k * n + n := by exact_mod_cast hgt'
  have hstep : (1 / 2 - 1 / (2 * n) : ℚ) = (n - 1) / (2 * n) := by field_simp
  have hratio : (a / n - k : ℚ) = 2 * (a - k * n) / (2 * n) := by field_simp
  rw [hstep, hratio, abs_div, abs_of_pos (by positivity : (0 : ℚ) < 2 * n)]
  gcongr
  rw [abs_le]
  constructor <;> linarith

/-! ### Three roundings -/

namespace Magnitude

section

variable {x y : Magnitude} {q : ℚ}

/-- What the first two roundings do to a hundred times a number. -/
theorem scaled_twice_near (hq : 0 ≤ q) (hx : x.Near q) (hy : y.Near (x.value * 100)) :
    |y.value - 100 * q| ≤ 101 * q / 2 ^ 52 + 103 / 2 ^ 100 := by
  rw [Near, abs_le] at hx hy
  obtain ⟨hxbelow, hxabove⟩ := hx
  obtain ⟨hybelow, hyabove⟩ := hy
  rw [abs_le]
  constructor <;> linarith

variable {total n k : ℕ}

/-- The two roundings move the ratio by less than half a step of its
denominator. -/
theorem scaled_mean_near (hn : 0 < n) (hn' : n ≤ 2 ^ 53) (htotal : total ≤ 2 ^ 44)
    (hk : |(100 * total / n : ℚ) - k| ≤ 1 / 2 - 1 / (2 * n)) (hx : x.Near (total / n))
    (hy : y.Near (x.value * 100)) : |y.value - k| < 1 / 2 := by
  have hpos : (0 : ℚ) < n := Nat.cast_pos.mpr hn
  have hcount : (n : ℚ) ≤ 2 ^ 53 := by exact_mod_cast hn'
  have hsum : (total : ℚ) ≤ 2 ^ 44 := by exact_mod_cast htotal
  have hnear := scaled_twice_near (by positivity) hx hy
  have hstep : (1 / 2 ^ 53 : ℚ) ≤ 1 / n := by gcongr
  have hratio : (total / n : ℚ) ≤ 2 ^ 44 * (1 / n) := by
    rw [mul_one_div]
    gcongr
  have hhalf : (1 / (2 * n) : ℚ) = 1 / n / 2 := by rw [div_div, mul_comm]
  rw [mul_div_assoc, hhalf] at hk
  calc |y.value - k| ≤ |y.value - 100 * (total / n)| + |100 * (total / n : ℚ) - k| :=
        abs_sub_le _ _ _
    _ ≤ (101 * (total / n) / 2 ^ 52 + 103 / 2 ^ 100) + (1 / 2 - 1 / n / 2) := add_le_add hnear hk
    _ < 1 / 2 := by linarith

/-- The third rounding leaves the hundredths as they are. -/
theorem hundredths_of_near (hk : k ≤ 2 ^ 51) (h : x.Near (k / 100)) : x.hundredths = k := by
  have hsmall : (k : ℚ) ≤ 2 ^ 51 := by exact_mod_cast hk
  refine nearest_units ?_
  obtain ⟨hbelow, habove⟩ := abs_le.mp h
  rw [abs_lt]
  push_cast
  constructor <;> linarith

end

theorem hundredths_eq_zero {m : Magnitude} (h : m.units = 0) : m.hundredths = 0 := by
  rw [hundredths, h]
  exact nearest_mul 0 one_pos

end Magnitude

namespace Binary64

open Magnitude

/-- **A mean in hundredths** is the whole number that its exact value is near
to, if the sum is small enough for the count. -/
theorem exists_mean (s : Bool) {a b : Magnitude} {total n k : ℕ} (ha : a.value = total)
    (hb : b.value = n) (hn : 0 < n) (hn' : n ≤ 2 ^ 53) (htotal : total ≤ 2 ^ 44)
    (hk : |(100 * total / n : ℚ) - k| ≤ 1 / 2 - 1 / (2 * n)) :
    ∃ m, ((finite s a).div (finite false b)).roundPlaces 2 = finite s m ∧ m.hundredths = k := by
  have hpos : (0 : ℚ) < n := Nat.cast_pos.mpr hn
  have hmean : (total / n : ℚ) ≤ 2 ^ 44 := by
    have hsum : (total : ℚ) ≤ 2 ^ 44 := by exact_mod_cast htotal
    have hcount : (1 : ℚ) ≤ n := by exact_mod_cast hn
    exact (div_le_self (Nat.cast_nonneg _) hcount).trans hsum
  obtain ⟨hundred, hscale, hunits⟩ := exists_scale_two
  have hhundred : hundred.value = 100 := by
    rw [value, hunits, Nat.cast_mul, mul_div_cancel_right₀ _ cast_one_pos.ne']
    norm_num
  -- the quotient
  obtain ⟨x, hx, hxnear⟩ := exists_div s false (a := a) (hb ▸ hpos) (by rw [ha, hb]; linarith)
  rw [ha, hb] at hxnear
  have hxle := (abs_le.mp hxnear).2
  -- a hundred times the quotient
  obtain ⟨y, hy, hynear⟩ := exists_mul s false (a := x) (b := hundred)
    (by rw [hhundred]; linarith)
  rw [hhundred] at hynear
  have hclose := scaled_mean_near hn hn' htotal hk hxnear hynear
  have hk51 : k ≤ 2 ^ 51 := by
    have hbelow := (abs_le.mp hk).1
    have hstep : (0 : ℚ) < 1 / (2 * n) := by positivity
    rw [mul_div_assoc] at hbelow
    have hsmall : (k : ℚ) ≤ 2 ^ 51 := by linarith
    exact_mod_cast hsmall
  -- the whole number, and its hundredth part
  obtain ⟨w, hw, hwk⟩ := exists_roundWhole s (hk51.trans (by decide)) hclose
  have hsmall : (k : ℚ) ≤ 2 ^ 51 := by exact_mod_cast hk51
  obtain ⟨m, hm, hmnear⟩ := exists_div s false (a := w) (b := hundred)
    (by rw [hhundred]; norm_num) (by rw [hwk, hhundred]; linarith)
  rw [hwk, hhundred] at hmnear
  refine ⟨m, ?_, hundredths_of_near hk51 hmnear⟩
  rw [Bool.bne_false] at hx hy hm
  rw [roundPlaces, hscale, hx, hy, hw, hm]

theorem Shows.units_eq_zero_iff {s : Bool} {m : Magnitude} (h : (finite s m).Shows) :
    m.units = 0 ↔ m.hundredths = 0 := by
  refine ⟨hundredths_eq_zero, fun hzero => ?_⟩
  rcases h with hunits | hpos
  · exact hunits
  · omega

end Binary64

/-! ### The text -/

/-- A hundred times the mean of integers. -/
def hundredMeans (xs : List Int64) : ℚ := (100 * (xs.map Int64.toInt).sum : ℤ) / xs.length

/-- The text of `k / 100`, with two decimals. -/
def hundredthsText (k : ℤ) : String := Binary64.minus (k < 0) ++ pointed 2 k.natAbs

theorem averageOf_int64 {xs : List Int64} (hne : xs ≠ []) :
    averageOf (xs.map .int) =
      ((Binary64.ofInt (xs.map Int64.toInt).sum).div (Binary64.ofInt xs.length)).roundPlaces 2 := by
  have hfits : ∀ i ∈ xs.map Int64.toInt, InInt64 i := inInt64_integersOf id xs
  have hsome : ¬ (xs.map Int64.toInt).isEmpty := by simpa using hne
  rw [map_int_eq_ints, averageOf_ints hfits, meanOf, if_neg hsome, List.length_map]

section

variable {xs : List Int64} (hne : xs ≠ [])

include hne

theorem hundredMeans_neg_iff : hundredMeans xs < 0 ↔ (xs.map Int64.toInt).sum < 0 := by
  have hpos : (0 : ℚ) < xs.length := Nat.cast_pos.mpr (List.length_pos_iff.mpr hne)
  rw [hundredMeans, div_lt_iff₀ hpos, zero_mul, Int.cast_lt_zero]
  omega

/-- The nearest whole number has the sign of the mean, unless it has none. -/
theorem sign_round_hundredMeans :
    ((xs.map Int64.toInt).sum < 0 ∧ (round (hundredMeans xs)).natAbs ≠ 0) ↔
      round (hundredMeans xs) < 0 := by
  obtain ⟨hbelow, habove⟩ := abs_le.mp (abs_sub_round (hundredMeans xs))
  rw [← hundredMeans_neg_iff hne]
  generalize round (hundredMeans xs) = k at *
  constructor
  · rintro ⟨hneg, hk⟩
    have hlt : (k : ℚ) < 1 := by linarith
    have hle : k < 1 := by exact_mod_cast hlt
    omega
  · intro hk
    have hle : (k : ℚ) ≤ -1 := by exact_mod_cast Int.le_sub_one_of_lt hk
    exact ⟨by linarith, by omega⟩

theorem abs_natAbs_sub_round_le (htie : ∀ i : ℤ, hundredMeans xs ≠ i + 1 / 2) :
    |(100 * ((xs.map Int64.toInt).sum.natAbs : ℕ) / xs.length : ℚ) -
      ((round (hundredMeans xs)).natAbs : ℕ)| ≤ 1 / 2 - 1 / (2 * xs.length) := by
  have hmean : (100 * ((xs.map Int64.toInt).sum.natAbs : ℕ) / xs.length : ℚ) =
      |hundredMeans xs| := by
    rw [hundredMeans, abs_div, Nat.abs_cast, Nat.cast_natAbs, Int.cast_mul, abs_mul, Int.cast_abs]
    norm_num
  rw [hmean, Nat.cast_natAbs, Int.cast_abs]
  exact (abs_abs_sub_abs_le _ _).trans (abs_sub_round_le (List.length_pos_iff.mpr hne) htie)

end

/-- **The mean of integers is printed as its nearest hundredth**, if it is not
halfway between two of them and the sum is at most `2 ^ 44`. -/
theorem field_average_ints {xs : List Int64} (hne : xs ≠ []) (hlength : xs.length ≤ 2 ^ 53)
    (hsum : |(xs.map Int64.toInt).sum| ≤ 2 ^ 44) (htie : ∀ i : ℤ, hundredMeans xs ≠ i + 1 / 2) :
    (Scalar.average (averageOf (xs.map .int))).field =
      hundredthsText (round (hundredMeans xs)) := by
  have hsum' : (xs.map Int64.toInt).sum.natAbs ≤ 2 ^ 44 := by
    rw [Int.abs_eq_natAbs] at hsum
    exact_mod_cast hsum
  obtain ⟨a, ha, havalue⟩ := Binary64.exists_ofInt (hsum'.trans (by decide))
  obtain ⟨b, hb, hbvalue⟩ := Binary64.exists_ofInt (i := xs.length) hlength
  have hbsign : decide ((xs.length : ℤ) < 0) = false := decide_eq_false (by omega)
  rw [hbsign] at hb
  rw [Int.natAbs_natCast] at hbvalue
  obtain ⟨m, hm, hhundredths⟩ := Binary64.exists_mean
    (decide ((xs.map Int64.toInt).sum < 0)) havalue hbvalue (List.length_pos_iff.mpr hne) hlength
    hsum' (abs_natAbs_sub_round_le hne htie)
  rw [← ha, ← hb, ← averageOf_int64 hne] at hm
  have hunits : m.units = 0 ↔ (round (hundredMeans xs)).natAbs = 0 := by
    rw [← hhundredths]
    exact (hm ▸ shows_averageOf (xs.map .int)).units_eq_zero_iff
  have hsign : (decide ((xs.map Int64.toInt).sum < 0) && m.units != 0) =
      decide (round (hundredMeans xs) < 0) := by
    rw [Bool.eq_iff_iff, Bool.and_eq_true_iff, decide_eq_true_iff, decide_eq_true_iff, bne_iff_ne,
      ne_eq, hunits]
    exact sign_round_hundredMeans hne
  rw [Scalar.field, hm, Binary64.averageField_finite, hsign, hhundredths, hundredthsText]

/-- The mean `-4 / 3`. -/
theorem field_average_ints_three :
    let xs : List Int64 := [-1, -1, -2]
    xs ≠ [] ∧ xs.length ≤ 2 ^ 53 ∧ |(xs.map Int64.toInt).sum| ≤ 2 ^ 44 ∧
      (∀ i : ℤ, hundredMeans xs ≠ i + 1 / 2) ∧
      (Scalar.average (averageOf (xs.map .int))).field =
        hundredthsText (round (hundredMeans xs)) ∧
      hundredthsText (round (hundredMeans xs)) = "-1.33" := by
  intro xs
  have hmean : hundredMeans xs = -400 / 3 := by
    have hsum : (xs.map Int64.toInt).sum = -4 := by decide
    rw [hundredMeans, hsum]
    norm_num [xs]
  have hround : round (hundredMeans xs) = -133 := by
    rw [hmean, round_eq, Int.floor_eq_iff]
    norm_num
  have htie : ∀ i : ℤ, hundredMeans xs ≠ i + 1 / 2 := by
    intro i hi
    rw [hmean] at hi
    have hscaled : (-800 : ℚ) = 6 * i + 3 := by linarith
    have hscaled' : -800 = 6 * i + 3 := by exact_mod_cast hscaled
    omega
  refine ⟨by decide, by decide, by decide, htie, ?_, ?_⟩
  · exact field_average_ints (by decide) (by decide) (by decide) htie
  · rw [hround]
    decide +kernel

end Columnar
