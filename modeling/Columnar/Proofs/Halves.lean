/-
# Halves are exact

Binary64 arithmetic rounds, but not where the result is a whole number of
halves below `2 ^ 52`: such a number has at most 53 significant bits. So
negation, sum, difference and division by two of such numbers are exact
(`Binary64.IsHalves`), and truncation drops the half toward zero. Where a
result is rounded it is moved by one step of the spacing at most
(`Magnitude.exists_ofRatio?`).

Key definitions: `Magnitude.half`, `Binary64.IsHalves`.
Key theorems: `Magnitude.ofRatio?_mul`, `Magnitude.exists_ofRatio?`,
`Binary64.isHalves_ofInt`, `Binary64.IsHalves.sub`,
`Binary64.IsHalves.div_two`, `Binary64.IsHalves.truncate`.
-/
import Columnar.Binary64
import Mathlib.Tactic.Ring

namespace Columnar

namespace Magnitude

/-- The number of least positive magnitudes in one half. -/
def half : Nat := 1 <<< 1073

theorem one_eq : one = 2 * half := by decide

theorem half_pos : 0 < half := one_shiftLeft_pos _

theorem one_pos : 0 < one := one_shiftLeft_pos _

theorem mul_half_lt_limit {a : Nat} (ha : a < 2 ^ 53) : a * half < limit := by
  have hlimit : 2 ^ 53 * half ≤ limit := by decide
  exact Nat.lt_of_lt_of_le (Nat.mul_lt_mul_of_pos_right ha half_pos) hlimit

/-- A number of at most 53 bits, shifted, lies on the spacing around itself. -/
theorem spaced_mul_shiftLeft {a : Nat} (ha : a < 2 ^ 53) (k : Nat) :
    a * (1 <<< k) % spacing (a * (1 <<< k)) = 0 := by
  rw [Nat.one_shiftLeft]
  rcases Nat.eq_zero_or_pos a with rfl | hpos
  · simp
  have hu : a * 2 ^ k ≠ 0 := Nat.ne_of_gt (Nat.mul_pos hpos (Nat.two_pow_pos k))
  have hlog : (a * 2 ^ k).log2 < 53 + k := by
    rw [Nat.log2_lt hu, Nat.pow_add]
    exact Nat.mul_lt_mul_of_pos_right ha (Nat.two_pow_pos k)
  rw [spacing, Nat.one_shiftLeft]
  have hdvd : 2 ^ ((a * 2 ^ k).log2 - 52) ∣ 2 ^ k := Nat.pow_dvd_pow 2 (by omega)
  exact Nat.mod_eq_zero_of_dvd (Nat.dvd_trans hdvd (Nat.dvd_mul_left _ _))

/-- A whole number of halves. -/
def halves (a : Nat) (ha : a < 2 ^ 53) : Magnitude where
  units := a * half
  lt_limit := mul_half_lt_limit ha
  spaced := spaced_mul_shiftLeft ha 1073

/-! ### Rounding -/

/-- A ratio that is a magnitude is not rounded. -/
theorem ofRatio?_mul (m : Magnitude) {d : Nat} (hd : 0 < d) :
    ofRatio? (m.units * d) d = some m := by
  have hdiv : m.units * d / d = m.units := Nat.mul_div_cancel _ hd
  have hdvd : m.units / spacing m.units * spacing m.units = m.units :=
    Nat.div_mul_cancel (Nat.dvd_of_mod_eq_zero m.spaced)
  have hexact : m.units * d = m.units / spacing m.units * (d * spacing m.units) := by
    rw [Nat.mul_comm d, ← Nat.mul_assoc, hdvd]
  have hunits : nearest (m.units * d) (d * spacing m.units) * spacing m.units = m.units := by
    rw [hexact, nearest_mul _ (Nat.mul_pos hd (spacing_pos _)), hdvd]
  simp only [ofRatio?, hdiv, hunits, m.lt_limit, dif_pos]

/-- Rounding adds no more than the spacing. -/
theorem nearest_mul_spacing_le (n d : Nat) :
    nearest n (d * spacing (n / d)) * spacing (n / d) ≤ n / d + spacing (n / d) := by
  have hnearest := nearest_le n (d * spacing (n / d))
  rw [← Nat.div_div_eq_div_mul] at hnearest
  calc nearest n (d * spacing (n / d)) * spacing (n / d)
      ≤ (n / d / spacing (n / d) + 1) * spacing (n / d) := Nat.mul_le_mul_right _ hnearest
    _ = n / d / spacing (n / d) * spacing (n / d) + spacing (n / d) := Nat.succ_mul _ _
    _ ≤ n / d + spacing (n / d) := Nat.add_le_add_right (Nat.div_mul_le_self _ _) _

/-- The spacing is a small part of the number, or one unit. -/
theorem two_pow_mul_spacing_le (u : Nat) : 2 ^ 52 * spacing u ≤ u + 2 ^ 52 := by
  rw [spacing, Nat.one_shiftLeft]
  rcases Nat.lt_or_ge u.log2 52 with hlt | hge
  · have hzero : u.log2 - 52 = 0 := by omega
    rw [hzero]
    omega
  · have hu : u ≠ 0 := by
      rintro rfl
      simp at hge
    have hpow : 2 ^ 52 * 2 ^ (u.log2 - 52) = 2 ^ u.log2 := by
      rw [← Nat.pow_add]
      congr 1
      omega
    rw [hpow]
    exact Nat.le_add_right_of_le (Nat.log2_self_le hu)

/-- A ratio that is below the limit by a step has a magnitude, no further
above it than that step. -/
theorem exists_ofRatio? {n d : Nat} (h : n / d + spacing (n / d) < limit) :
    ∃ m, ofRatio? n d = some m ∧ m.units ≤ n / d + spacing (n / d) := by
  have hle := nearest_mul_spacing_le n d
  have hlt : nearest n (d * spacing (n / d)) * spacing (n / d) < limit := by omega
  refine ⟨⟨_, hlt, spaced_nearest n d⟩, ?_, hle⟩
  simp only [ofRatio?, hlt, dif_pos]

end Magnitude

namespace Binary64

open Magnitude

theorem ofRatio_eq_of_some {n d : Nat} {m : Magnitude} (h : ofRatio? n d = some m)
    (negative : Bool) : ofRatio negative n d = finite negative m := by
  unfold ofRatio
  rw [h]

theorem ofRatio_eq_finite {n d : Nat} {m : Magnitude} (negative : Bool) (hd : 0 < d)
    (h : n = m.units * d) : ofRatio negative n d = finite negative m := by
  refine ofRatio_eq_of_some ?_ negative
  rw [h]
  exact ofRatio?_mul m hd

/-! ### Halves -/

/-- The number is finite and `i` halves. -/
def IsHalves (x : Binary64) (i : Int) : Prop :=
  ∃ s m, x = finite s m ∧ signed s m = i * half

theorem signed_halves {i : Int} (hi : i.natAbs < 2 ^ 53) :
    signed (decide (i < 0)) (halves i.natAbs hi) = i * half := by
  simp only [signed, halves, decide_eq_true_eq]
  split
  · have habs : (i.natAbs : Int) = -i := by omega
    rw [Int.natCast_mul, habs, Int.neg_mul, Int.neg_neg]
  · have habs : (i.natAbs : Int) = i := by omega
    rw [Int.natCast_mul, habs]

theorem isHalves_ofInt {i : Int} (hi : i.natAbs < 2 ^ 52) : IsHalves (ofInt i) (2 * i) := by
  have hbound : (2 * i).natAbs < 2 ^ 53 := by omega
  have hsign : decide (2 * i < 0) = decide (i < 0) := by
    rw [decide_eq_decide]
    omega
  have hunits : i.natAbs * one = (2 * i).natAbs * half * 1 := by
    rw [one_eq, Int.natAbs_mul, Nat.mul_one, Nat.mul_left_comm, Nat.mul_assoc]
    rfl
  refine ⟨decide (i < 0), halves (2 * i).natAbs hbound, ?_, ?_⟩
  · exact ofRatio_eq_finite _ Nat.one_pos hunits
  · rw [← hsign]
    exact signed_halves hbound

theorem IsHalves.neg {x : Binary64} {i : Int} (h : IsHalves x i) : IsHalves x.neg (-i) := by
  obtain ⟨s, m, rfl, hm⟩ := h
  refine ⟨!s, m, rfl, ?_⟩
  rw [Int.neg_mul, ← hm]
  cases s <;> simp [signed]

theorem IsHalves.add {x y : Binary64} {i j : Int} (hx : IsHalves x i) (hy : IsHalves y j)
    (hsum : (i + j).natAbs < 2 ^ 53) : IsHalves (x.add y) (i + j) := by
  obtain ⟨s, a, rfl, ha⟩ := hx
  obtain ⟨t, b, rfl, hb⟩ := hy
  have htotal : signed s a + signed t b = (i + j) * half := by rw [ha, hb, Int.add_mul]
  have hhalf : (0 : Int) < half := by exact_mod_cast half_pos
  simp only [Binary64.add, htotal]
  split
  · rename_i hzero
    refine ⟨s && t, Magnitude.zero, rfl, ?_⟩
    rw [hzero]
    cases hst : (s && t) <;> simp [signed, Magnitude.zero]
  · have hsign : decide ((i + j) * half < 0) = decide (i + j < 0) := by
      rw [decide_eq_decide]
      exact ⟨fun h => Int.neg_of_mul_neg_left h (by omega),
        fun h => Int.mul_neg_of_neg_of_pos h hhalf⟩
    have hunits : ((i + j) * half).natAbs = (halves (i + j).natAbs hsum).units * 1 := by
      rw [Int.natAbs_mul, Int.natAbs_natCast, Nat.mul_one]
      rfl
    refine ⟨decide (i + j < 0), halves (i + j).natAbs hsum, ?_, signed_halves hsum⟩
    rw [hsign]
    exact ofRatio_eq_finite _ Nat.one_pos hunits

theorem IsHalves.sub {x y : Binary64} {i j : Int} (hx : IsHalves x i) (hy : IsHalves y j)
    (hdiff : (i - j).natAbs < 2 ^ 53) : IsHalves (x.sub y) (i - j) := by
  have hneg := hx.add hy.neg (by rwa [← Int.sub_eq_add_neg])
  rwa [← Int.sub_eq_add_neg] at hneg

theorem ofInt_two : ofInt 2 = finite false (halves 4 (by decide)) :=
  ofRatio_eq_finite false Nat.one_pos (by rw [one_eq]; decide)

/-- What the units of a number of halves are, whatever its sign. -/
theorem units_of_signed {s : Bool} {m : Magnitude} {i : Int} (h : signed s m = i * half) :
    m.units = i.natAbs * half ∧ (if s then i ≤ 0 else 0 ≤ i) := by
  have hhalf : (0 : Int) < half := by exact_mod_cast half_pos
  have habs : (signed s m).natAbs = m.units := by cases s <;> simp [signed]
  refine ⟨?_, ?_⟩
  · rw [← habs, h, Int.natAbs_mul, Int.natAbs_natCast]
  · cases s with
    | true =>
      have hle : i * half ≤ 0 := by
        rw [← h]
        simp [signed]
      exact Int.nonpos_of_mul_nonpos_left hle hhalf
    | false =>
      have hge : 0 ≤ i * half := by
        rw [← h]
        simp [signed]
      exact Int.nonneg_of_mul_nonneg_left hge hhalf

theorem IsHalves.div_two {x : Binary64} {i : Int} (hx : IsHalves x (2 * i))
    (hi : i.natAbs < 2 ^ 53) : IsHalves (x.div (ofInt 2)) i := by
  obtain ⟨s, a, rfl, ha⟩ := hx
  obtain ⟨hunits, hsign⟩ := units_of_signed ha
  have hratio : a.units * one = (halves i.natAbs hi).units * (4 * half) := by
    rw [hunits, one_eq, Int.natAbs_mul]
    change 2 * i.natAbs * half * (2 * half) = i.natAbs * half * (4 * half)
    ring
  have hpos : 0 < (halves 4 (by decide)).units := Nat.mul_pos (by decide) half_pos
  have hdiv : (finite s a).div (ofInt 2) = finite s (halves i.natAbs hi) := by
    rw [ofInt_two]
    simp only [Binary64.div, Bool.bne_false]
    rw [if_neg (Nat.ne_of_gt hpos)]
    exact ofRatio_eq_finite s hpos hratio
  refine ⟨s, halves i.natAbs hi, hdiv, ?_⟩
  cases s with
  | true =>
    have habs : (i.natAbs : Int) = -i := by
      have hle : 2 * i ≤ 0 := hsign
      omega
    simp only [signed, halves, if_true, Int.natCast_mul, habs, Int.neg_mul, Int.neg_neg]
  | false =>
    have habs : (i.natAbs : Int) = i := by
      have hge : 0 ≤ 2 * i := hsign
      omega
    simp only [signed, halves, Bool.false_eq_true, if_false, Int.natCast_mul, habs]

/-! ### Truncation -/

theorem tdiv_two (i : Int) : i.tdiv 2 = if 0 ≤ i then i / 2 else -(-i / 2) := by
  split
  · exact Int.tdiv_eq_ediv_of_nonneg ‹_›
  · rw [← Int.neg_neg (i.tdiv 2), ← Int.neg_tdiv, Int.tdiv_eq_ediv_of_nonneg (by omega)]

theorem toInt_clamp {i : Int} (hlow : -2 ^ 63 ≤ i) (hhigh : i < 2 ^ 63) :
    (clamp i).toInt = i := by
  have hmin : Int64.minValue.toInt = -2 ^ 63 := by decide
  have hmax : Int64.maxValue.toInt = 2 ^ 63 - 1 := by decide
  have hinner : max Int64.minValue.toInt (min i Int64.maxValue.toInt) = i := by
    rw [hmin, hmax]
    omega
  rw [clamp, hinner]
  exact Int64.toInt_ofInt_of_le (by omega) (by omega)

theorem IsHalves.truncate {x : Binary64} {i : Int} (hx : IsHalves x i) (hi : i.natAbs < 2 ^ 53) :
    x.truncate.toInt = i.tdiv 2 := by
  obtain ⟨s, m, rfl, hm⟩ := hx
  obtain ⟨hunits, hsign⟩ := units_of_signed hm
  have hwhole : m.units / one = i.natAbs / 2 := by
    rw [hunits, one_eq, Nat.mul_div_mul_right _ _ half_pos]
  simp only [Binary64.truncate, hwhole]
  rw [tdiv_two, toInt_clamp]
  · cases s <;> simp only [Bool.false_eq_true, if_true, if_false] at hsign ⊢ <;> omega
  · split <;> omega
  · split <;> omega

end Binary64
end Columnar
