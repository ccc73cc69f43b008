/-
# Averages past the largest number

A ratio is rounded to infinity from halfway between the largest number and the
next power of two on, and not before (`Magnitude.exists_ofRatio?_iff`). The mean
of values with a finite total is finite, for the count is one at least. To be
rounded to two decimals it is multiplied by a hundred first, and this is the step
that can go past the largest number: the average of a mean of `2 ^ 1018` is an
infinity (`Binary64.roundPlaces_two_eq_infinite`), though the mean is a whole
number and has no decimals to round. The steps after it make no number larger
(`Binary64.exists_roundPlaces_two`).

The mean of integers is no larger than the largest of them, so their average is
always finite.

Key definitions: `Magnitude.overflow`, `quotientOf`.
Key theorems: `Magnitude.rounded_lt_limit_iff`, `exists_quotientOf`,
`quotientOf_lt_overflow`, `averageOf_finite_iff`.
-/
import Columnar.Proofs.Figures
import Columnar.Proofs.Rounding

namespace Columnar

/-! ### The largest number -/

/-- Halfway between two whole numbers the even one is taken. -/
theorem nearest_halfway (q : Nat) {e : Nat} (he : 0 < e) :
    nearest ((2 * q + 1) * e) (2 * e) = q + q % 2 := by
  have hsplit : (2 * q + 1) * e = e + 2 * e * q := by ring
  have hquotient : (2 * q + 1) * e / (2 * e) = q := by
    rw [hsplit, Nat.add_mul_div_left _ _ (by omega), Nat.div_eq_of_lt (by omega), Nat.zero_add]
  have hrest : (2 * q + 1) * e % (2 * e) = e := by
    rw [hsplit, Nat.add_mul_mod_self_left, Nat.mod_eq_of_lt (by omega)]
  rw [nearest, hquotient, hrest, if_neg (Nat.lt_irrefl _), if_neg (Nat.lt_irrefl _)]

namespace Magnitude

/-- Half of the spacing of the largest magnitudes. -/
def halfStep : Nat := 1 <<< 2044

/-- The units from which on a ratio is rounded past the largest magnitude. -/
def overflow : Nat := limit - halfStep

theorem one_shiftLeft_lt {j k : Nat} (h : j < k) : 1 <<< j < 1 <<< k := by
  rw [Nat.one_shiftLeft, Nat.one_shiftLeft]
  exact Nat.pow_lt_pow_right (by decide) h

theorem spacing_le {u k : Nat} (h : u.log2 ≤ 52 + k) : spacing u ≤ 1 <<< k := by
  rw [spacing, Nat.one_shiftLeft, Nat.one_shiftLeft]
  exact Nat.pow_le_pow_right (by decide) (by omega)

theorem log2_lt {u k : Nat} (hu : u ≠ 0) (h : u < 1 <<< k) : u.log2 < k := by
  rwa [Nat.log2_lt hu, ← Nat.one_shiftLeft]

theorem log2_eq_of_lt_limit {u : Nat} (hlt : u < limit) (hge : 2097 ≤ u.log2) :
    u.log2 = 2097 := by
  have hu : u ≠ 0 := by
    rintro rfl
    exact absurd hge (by decide)
  have hlog : u.log2 < 2098 := log2_lt hu hlt
  omega

theorem lt_two_pow_mul_spacing (u : Nat) : u < 2 ^ 53 * spacing u := by
  rw [spacing, Nat.one_shiftLeft, ← Nat.pow_add]
  exact Nat.lt_of_lt_of_le Nat.lt_log2_self (Nat.pow_le_pow_right (by decide) (by omega))

theorem halfStep_pos : 0 < halfStep := one_shiftLeft_pos _

theorem overflow_eq : overflow = (2 * (2 ^ 53 - 1) + 1) * halfStep := by decide

theorem overflow_lt_limit : overflow < limit := by decide

theorem spacing_of_log2 {u : Nat} (h : u.log2 = 2097) : spacing u = 2 * halfStep := by
  rw [spacing, h]
  decide

/-- The threshold itself is a tie, and the even neighbour is the one past the
largest magnitude. -/
theorem rounded_overflow {d : Nat} (hd : 0 < d) : rounded (overflow * d) d = limit := by
  have hspacing : spacing overflow = 2 * halfStep := spacing_of_log2 (by decide +kernel)
  have hratio : overflow * d = (2 * (2 ^ 53 - 1) + 1) * (halfStep * d) := by
    rw [overflow_eq, Nat.mul_assoc]
  have hstep : d * spacing overflow = 2 * (halfStep * d) := by
    rw [hspacing]
    ring
  have hlimit : (2 ^ 53 - 1 + (2 ^ 53 - 1) % 2) * (2 * halfStep) = limit := by decide
  rw [rounded, Nat.mul_div_cancel _ hd, hstep, hratio,
    nearest_halfway _ (Nat.mul_pos halfStep_pos hd), hspacing, hlimit]

/-- Where the spacing is the widest, the threshold is an odd number of halves of
it. -/
theorem rounded_lt_limit_of_log2 {n d : Nat} (hd : 0 < d) (h : n < overflow * d)
    (hlog : (n / d).log2 = 2097) : rounded n d < limit := by
  have hspacing := spacing_of_log2 hlog
  have hstep : d * spacing (n / d) = 2 * (halfStep * d) := by
    rw [hspacing]
    ring
  have hfewer : nearest n (2 * (halfStep * d)) < 2 ^ 53 := by
    have hnear := (nearest_mul_near n (Nat.mul_pos two_pos (Nat.mul_pos halfStep_pos hd))).1
    rw [overflow_eq, Nat.mul_assoc] at h
    generalize halfStep * d = half at *
    have hlt : nearest n (2 * half) * (2 * half) < 2 ^ 53 * (2 * half) := by omega
    exact Nat.lt_of_mul_lt_mul_right hlt
  rw [rounded, hstep, hspacing]
  calc nearest n (2 * (halfStep * d)) * (2 * halfStep)
      ≤ (2 ^ 53 - 1) * (2 * halfStep) := Nat.mul_le_mul_right _ (by omega)
    _ < limit := by decide

theorem rounded_lt_limit {n d : Nat} (hd : 0 < d) (h : n < overflow * d) :
    rounded n d < limit := by
  have hquotient : n / d < limit :=
    Nat.lt_trans ((Nat.div_lt_iff_lt_mul hd).mpr h) overflow_lt_limit
  rcases Nat.lt_or_ge (n / d).log2 2097 with hlog | hlog
  · have hspacing : spacing (n / d) ≤ halfStep := spacing_le (by omega)
    calc rounded n d ≤ 2 ^ 53 * spacing (n / d) := rounded_le_two_pow n d
      _ ≤ 2 ^ 53 * halfStep := Nat.mul_le_mul_left _ hspacing
      _ < limit := by decide
  · exact rounded_lt_limit_of_log2 hd h (log2_eq_of_lt_limit hquotient hlog)

/-- **A ratio has a magnitude up to halfway** between the largest and the next
power of two. -/
theorem rounded_lt_limit_iff {n d : Nat} (hd : 0 < d) :
    rounded n d < limit ↔ n < overflow * d := by
  refine ⟨fun hlt => ?_, rounded_lt_limit hd⟩
  by_contra hge
  have hmono := rounded_mono (Nat.le_of_not_lt hge) d
  rw [rounded_overflow hd] at hmono
  omega

theorem exists_ofRatio?_iff {n d : Nat} (hd : 0 < d) :
    (∃ m, ofRatio? n d = some m) ↔ n < overflow * d := by
  rw [← rounded_lt_limit_iff hd, ofRatio?_eq]
  split
  · rename_i hlt
    exact ⟨fun _ => hlt, fun _ => ⟨_, rfl⟩⟩
  · rename_i hge
    refine ⟨?_, fun hlt => absurd hlt hge⟩
    rintro ⟨m, hm⟩
    cases hm

theorem units_add_le_limit (m : Magnitude) : m.units + 2 * halfStep ≤ limit := by
  rcases Nat.lt_or_ge m.units.log2 2097 with hlog | hlog
  · have hspacing : spacing m.units ≤ halfStep := spacing_le (by omega)
    have hlt := lt_two_pow_mul_spacing m.units
    have hlimit : 2 ^ 53 * halfStep + 2 * halfStep ≤ limit := by decide
    omega
  · have hspacing := spacing_of_log2 (log2_eq_of_lt_limit m.lt_limit hlog)
    obtain ⟨k, hk⟩ := Nat.dvd_of_mod_eq_zero (hspacing ▸ m.spaced)
    have hlimit : 2 * halfStep * 2 ^ 53 = limit := by decide
    have hlt := m.lt_limit
    rw [hk, ← hlimit] at hlt ⊢
    have hfewer := Nat.lt_of_mul_lt_mul_left hlt
    calc 2 * halfStep * k + 2 * halfStep = 2 * halfStep * (k + 1) := (Nat.mul_succ _ _).symm
      _ ≤ 2 * halfStep * 2 ^ 53 := Nat.mul_le_mul_left _ hfewer

theorem one_le_halfStep : one ≤ halfStep := by decide

theorem exists_ofRatio?_of_le {n d : Nat} {a : Magnitude} (hd : 0 < d) (h : n ≤ a.units * d) :
    ∃ m, ofRatio? n d = some m := by
  have hlt : a.units < overflow := by
    have hle := units_add_le_limit a
    have hpos := halfStep_pos
    rw [overflow]
    omega
  exact (exists_ofRatio?_iff hd).mpr
    (Nat.lt_of_le_of_lt h (Nat.mul_lt_mul_of_pos_right hlt hd))

end Magnitude

namespace Binary64

open Magnitude

/-! ### Rounding to two decimals -/

/-- To divide by one at least makes a number no larger. -/
theorem exists_div_of_one_le (s t : Bool) (a : Magnitude) {b : Magnitude} (hb : one ≤ b.units) :
    ∃ m, (finite s a).div (finite t b) = finite (s != t) m := by
  have hpos : 0 < b.units := Nat.lt_of_lt_of_le Magnitude.one_pos hb
  obtain ⟨m, hm⟩ := exists_ofRatio?_of_le hpos (Nat.mul_le_mul_left a.units hb)
  refine ⟨m, ?_⟩
  rw [finite_div_finite (Nat.ne_of_gt hpos)]
  exact ofRatio_eq_of_some hm _

theorem exists_roundWhole_finite (s : Bool) (a : Magnitude) :
    ∃ m, (finite s a).roundWhole = finite s m := by
  have hnear := (nearest_mul_near a.units Magnitude.one_pos).1
  have hlt : nearest a.units one * one < overflow * 1 := by
    have hle := units_add_le_limit a
    have hpos := halfStep_pos
    have hone := one_le_halfStep
    rw [overflow]
    omega
  obtain ⟨m, hm⟩ := (exists_ofRatio?_iff Nat.one_pos).mpr hlt
  exact ⟨m, ofRatio_eq_of_some hm _⟩

theorem mul_hundred (s : Bool) (a : Magnitude) {hundred : Magnitude}
    (hunits : hundred.units = 100 * one) :
    (finite s a).mul (finite false hundred) = ofRatio s (100 * a.units * one) one := by
  have hproduct : a.units * (100 * one) = 100 * a.units * one := by ring
  rw [mul, hunits, Bool.bne_false, hproduct]

/-- **Two decimals of a finite number** whose hundredfold is not too large. -/
theorem exists_roundPlaces_two (s : Bool) {a : Magnitude} (h : 100 * a.units < overflow) :
    ∃ m, (finite s a).roundPlaces 2 = finite s m := by
  obtain ⟨hundred, hscale, hunits⟩ := exists_scale_two
  obtain ⟨y, hy⟩ := (exists_ofRatio?_iff Magnitude.one_pos).mpr
    (Nat.mul_lt_mul_of_pos_right h Magnitude.one_pos)
  obtain ⟨w, hw⟩ := exists_roundWhole_finite s y
  obtain ⟨m, hm⟩ := exists_div_of_one_le s false w (b := hundred)
    (by rw [hunits]; exact Nat.le_mul_of_pos_left _ (by decide))
  refine ⟨m, ?_⟩
  rw [roundPlaces, hscale, mul_hundred s a hunits, ofRatio_eq_of_some hy, hw, hm, Bool.bne_false]

/-- **Two decimals of a finite number may be infinite**: from the threshold on
its hundredfold is. -/
theorem roundPlaces_two_eq_infinite (s : Bool) {a : Magnitude} (h : overflow ≤ 100 * a.units) :
    (finite s a).roundPlaces 2 = infinite s := by
  obtain ⟨hundred, hscale, hunits⟩ := exists_scale_two
  have hnone : ofRatio? (100 * a.units * one) one = none := by
    rw [Option.eq_none_iff_forall_ne_some]
    intro m hm
    have hlt := (exists_ofRatio?_iff Magnitude.one_pos).mp ⟨m, hm⟩
    exact absurd (Nat.lt_of_mul_lt_mul_right hlt) (Nat.not_lt.mpr h)
  rw [roundPlaces, hscale, mul_hundred s a hunits, ofRatio_eq_of_none hnone, roundWhole,
    infinite_div_finite, Bool.bne_false]

end Binary64

/-! ### The mean of a vector -/

/-- The mean of a vector before it is rounded to two decimals. -/
def quotientOf (values : List Value) : Binary64 :=
  (total values).div (Binary64.ofInt values.length)

theorem averageOf_eq {values : List Value} (hne : values ≠ []) :
    averageOf values = (quotientOf values).roundPlaces 2 := by
  rw [averageOf, if_neg (by simpa using hne)]
  rfl

open Magnitude (one overflow ofRatio?)

/-- A count is rounded to one at least, and to no less than half of it. -/
theorem ofInt_natCast_cases {k : Nat} (hk : 0 < k) :
    Binary64.ofInt k = .infinite false ∨
      ∃ b, Binary64.ofInt k = .finite false b ∧ one ≤ b.units ∧ k * one ≤ 2 * b.units := by
  have hofInt : Binary64.ofInt k = Binary64.ofRatio false (k * one) 1 := by
    have hsign : decide ((k : Int) < 0) = false := decide_eq_false (by omega)
    rw [Binary64.ofInt, hsign, Int.natAbs_natCast]
  rw [hofInt]
  rcases Binary64.ofRatio_cases false (k * one) 1 with hinfinite | ⟨b, hb, hfinite⟩
  · exact .inl hinfinite
  · refine .inr ⟨b, hfinite, ?_, ?_⟩
    · obtain ⟨a, ha, hvalue⟩ := Magnitude.exists_whole (k := 1) (by decide)
      have hunits : a.units = one := by
        have hscaled := Magnitude.value_mul_one a
        rw [hvalue, Nat.cast_one, one_mul] at hscaled
        exact_mod_cast hscaled.symm
      rw [← hunits, Magnitude.units_eq_rounded ha, Magnitude.units_eq_rounded hb]
      exact Magnitude.rounded_mono (Nat.mul_le_mul_right one hk) 1
    · have hlost := Magnitude.lt_units_add_spacing hb
      have hspacing := Magnitude.two_pow_mul_spacing_le (k * one / 1)
      have hlarge : 1 < k * one :=
        Nat.lt_of_lt_of_le (by decide : 1 < one) (Nat.le_mul_of_pos_left _ hk)
      rw [Nat.div_one] at hlost hspacing
      omega

/-- **The mean of values with a finite total is finite.** -/
theorem exists_quotientOf {values : List Value} (hne : values ≠ []) {s : Bool} {t : Magnitude}
    (htotal : total values = .finite s t) : ∃ m, quotientOf values = .finite s m := by
  have hpos : 0 < values.length := List.length_pos_iff.mpr hne
  rw [quotientOf, htotal]
  rcases ofInt_natCast_cases hpos with hinfinite | ⟨b, hb, hone, -⟩
  · rw [hinfinite]
    exact ⟨Magnitude.zero, by cases s <;> rfl⟩
  · obtain ⟨m, hm⟩ := Binary64.exists_div_of_one_le s false t hone
    rw [hb, hm, Bool.bne_false]
    exact ⟨m, rfl⟩

/-! ### Integers -/

theorem natAbs_foldl_whole_le : ∀ (values : List Value) (acc : Int),
    (values.foldl (fun acc v => acc + v.whole) acc).natAbs ≤ acc.natAbs + values.length * 2 ^ 63
  | [], _ => by simp
  | v :: vs, acc => by
    have hv : v.whole.natAbs ≤ 2 ^ 63 := by
      cases v with
      | int n =>
        have hlow := n.le_toInt
        have hhigh := n.toInt_lt
        rw [Value.whole]
        omega
      | float x => exact Nat.zero_le _
    have ih := natAbs_foldl_whole_le vs (acc + v.whole)
    rw [List.foldl_cons, List.length_cons]
    omega

/-- Rounding at most doubles a ratio, but for one unit. -/
theorem Magnitude.units_le_of_ofRatio? {n d : Nat} {m : Magnitude} (h : ofRatio? n d = some m) :
    m.units ≤ 2 * (n / d) + 1 := by
  have hle := nearest_mul_spacing_le n d
  have hspacing := two_pow_mul_spacing_le (n / d)
  rw [← units_ofRatio? h] at hle
  omega

theorem Binary64.ofRatio?_of_finite {s t : Bool} {n d : Nat} {m : Magnitude}
    (h : Binary64.ofRatio s n d = .finite t m) : ofRatio? n d = some m := by
  rcases Binary64.ofRatio_cases s n d with hinfinite | ⟨a, ha, hfinite⟩
  · rw [hinfinite] at h
    cases h
  · rw [hfinite] at h
    cases h
    exact ha

/-- The total of integers is rounded from no more than `2 ^ 63` for each. -/
theorem units_total_le {values : List Value} (hints : ∀ v ∈ values, v.isFloat = false) {s : Bool}
    {t : Magnitude} (htotal : total values = .finite s t) :
    t.units ≤ 2 ^ 64 * (values.length * one) + 1 := by
  have hall : (values.all fun v => !v.isFloat) = true := by simpa using hints
  have hsum := natAbs_foldl_whole_le values 0
  rw [total, if_pos hall] at htotal
  generalize values.foldl (fun acc v => acc + v.whole) 0 = sum at *
  have hunits := Magnitude.units_le_of_ofRatio? (Binary64.ofRatio?_of_finite htotal)
  rw [Nat.div_one] at hunits
  calc t.units ≤ 2 * (sum.natAbs * one) + 1 := hunits
    _ ≤ 2 * (values.length * 2 ^ 63 * one) + 1 := by
      have hscaled := Nat.mul_le_mul_right one (show sum.natAbs ≤ values.length * 2 ^ 63 by omega)
      omega
    _ = 2 ^ 64 * (values.length * one) + 1 := by ring

/-- **The mean of integers stays far below the threshold.** -/
theorem quotientOf_lt_overflow {values : List Value} (hne : values ≠ [])
    (hints : ∀ v ∈ values, v.isFloat = false) {s : Bool} {t m : Magnitude}
    (htotal : total values = .finite s t) (hm : quotientOf values = .finite s m) :
    100 * m.units < overflow := by
  have hlimit : 100 * (2 * (2 ^ 66 * one) + 1) < overflow := by decide
  have hsum := units_total_le hints htotal
  rw [quotientOf, htotal] at hm
  rcases ofInt_natCast_cases (List.length_pos_iff.mpr hne) with hinfinite | ⟨b, hb, hone, hcount⟩
  · have hzero : m = Magnitude.zero := by
      rw [hinfinite] at hm
      exact (Binary64.finite.inj hm).2.symm
    rw [hzero]
    exact Nat.lt_of_le_of_lt (Nat.zero_le _) hlimit
  · have hpos : 0 < b.units := Nat.lt_of_lt_of_le Magnitude.one_pos hone
    rw [hb, Binary64.finite_div_finite (Nat.ne_of_gt hpos)] at hm
    have hunits := Magnitude.units_le_of_ofRatio? (Binary64.ofRatio?_of_finite hm)
    have hquotient : t.units * one / b.units ≤ 2 ^ 66 * one := by
      refine Nat.div_le_of_le_mul ?_
      calc t.units * one ≤ 2 ^ 66 * b.units * one := Nat.mul_le_mul_right _ (by omega)
        _ = b.units * (2 ^ 66 * one) := by ring
    omega

/-! ### The average -/

theorem not_isTwoPlaces_infinite (s : Bool) : ¬ IsTwoPlaces (averageField (.infinite s)) := by
  rintro ⟨sign, whole, places, htext, -⟩
  have hpoint : '.' ∈ (averageField (.infinite s)).toList := by
    rw [htext]
    simp
  cases s <;> revert hpoint <;> decide

theorem isTwoPlaces_finite (s : Bool) (a : Magnitude) : IsTwoPlaces (averageField (.finite s a)) := by
  rw [Binary64.averageField_finite]
  exact Binary64.isTwoPlaces_pointed _ _

/-- **An average is finite as long as its hundredfold is.** If the total of
values is finite, so is their mean, and the average is finite and printed with
two decimals if and only if a hundred times the mean stays below the threshold;
otherwise it is infinite. The mean of integers always stays below. -/
theorem averageOf_finite_iff {values : List Value} (hne : values ≠ []) {s : Bool} {t : Magnitude}
    (htotal : total values = .finite s t) :
    ∃ m, quotientOf values = .finite s m ∧
      ((∃ a, averageOf values = .finite s a) ↔ 100 * m.units < overflow) ∧
      (averageOf values = .infinite s ↔ overflow ≤ 100 * m.units) ∧
      (IsTwoPlaces (Scalar.average (averageOf values)).field ↔ 100 * m.units < overflow) ∧
      ((∀ v ∈ values, v.isFloat = false) → 100 * m.units < overflow) := by
  obtain ⟨m, hm⟩ := exists_quotientOf hne htotal
  have haverage := averageOf_eq hne
  rw [hm] at haverage
  refine ⟨m, hm, ?_⟩
  rcases Nat.lt_or_ge (100 * m.units) overflow with hlt | hge
  · obtain ⟨a, ha⟩ := Binary64.exists_roundPlaces_two s hlt
    rw [haverage, ha]
    exact ⟨iff_of_true ⟨a, rfl⟩ hlt, iff_of_false (by simp) (Nat.not_le.mpr hlt),
      iff_of_true (isTwoPlaces_finite s a) hlt, fun _ => hlt⟩
  · rw [haverage, Binary64.roundPlaces_two_eq_infinite s hge]
    refine ⟨iff_of_false ?_ (Nat.not_lt.mpr hge), iff_of_true rfl hge,
      iff_of_false (not_isTwoPlaces_infinite s) (Nat.not_lt.mpr hge),
      fun hints => quotientOf_lt_overflow hne hints htotal hm⟩
    rintro ⟨a, ha⟩
    cases ha

/-- The power of two `2 ^ (k - 1074)`. -/
def Magnitude.power (k : Nat) (hk : k < 2098) : Magnitude where
  units := 1 <<< k
  lt_limit := Magnitude.one_shiftLeft_lt hk
  spaced := by
    have hspaced := Magnitude.spaced_mul_shiftLeft (a := 1) (by decide) k
    rwa [Nat.one_mul] at hspaced

/-- The mean of `2 ^ 1018` and zero has a finite average, and that of `2 ^ 1019`
and zero has none. -/
theorem averageOf_finite_iff_halved :
    let below : List Value := [.float (.finite false (.power 2092 (by decide))), .int 0]
    let above : List Value := [.float (.finite false (.power 2093 (by decide))), .int 0]
    below ≠ [] ∧ total below = .finite false (.power 2092 (by decide)) ∧
      (∃ a, averageOf below = .finite false a) ∧
      above ≠ [] ∧ total above = .finite false (.power 2093 (by decide)) ∧
      averageOf above = .infinite false := by
  intro below above
  have hbelow : total below = .finite false (.power 2092 (by decide)) := by decide +kernel
  have habove : total above = .finite false (.power 2093 (by decide)) := by decide +kernel
  have hbelow' : quotientOf below = .finite false (.power 2091 (by decide)) := by decide +kernel
  have habove' : quotientOf above = .finite false (.power 2092 (by decide)) := by decide +kernel
  obtain ⟨a, ha, hfinite, -⟩ := averageOf_finite_iff (by decide) hbelow
  obtain ⟨b, hb, -, hinfinite, -⟩ := averageOf_finite_iff (by decide) habove
  obtain ⟨-, rfl⟩ := Binary64.finite.inj (ha.symm.trans hbelow')
  obtain ⟨-, rfl⟩ := Binary64.finite.inj (hb.symm.trans habove')
  exact ⟨by decide, hbelow, hfinite.mpr (by decide), by decide, habove, hinfinite.mpr (by decide)⟩

/-- The average of the finite number `2 ^ 1023` alone is printed as an infinity. -/
theorem averageOf_infinite_of_finite :
    let values : List Value := [.float (.finite false (.power 2097 (by decide)))]
    values ≠ [] ∧ total values = .finite false (.power 2097 (by decide)) ∧
      averageOf values = .infinite false ∧ (Scalar.average (averageOf values)).field = "inf" := by
  intro values
  have hquotient : quotientOf values = .finite false (.power 2097 (by decide)) := by decide +kernel
  have haverage : averageOf values = .infinite false := by
    rw [averageOf_eq (by decide), hquotient]
    exact Binary64.roundPlaces_two_eq_infinite false (by decide)
  refine ⟨by decide, by decide +kernel, haverage, ?_⟩
  rw [haverage]
  rfl

end Columnar
