/-
# An average that looks like zero is zero

With two decimals every number closer to zero than half a hundredth looks
like zero, and a negative one among them like a negative zero. An average is
not such a number. It was scaled by a hundred, rounded to a whole number and
scaled back (`Binary64.roundPlaces`): a whole number other than zero is one at
least, and a hundredth of it is rounded by a part too small to lose the digit
(`Magnitude.hundredths_pos`). So rounding away what the text does not show is
done before the text is made, and nothing is left for the text to hide
(`shows_averageOf`).

Key definitions: `Binary64.Shows`.
Key theorems: `Magnitude.hundredths_pos`, `Binary64.shows_roundPlaces`,
`shows_averageOf`.
-/
import Columnar.Print
import Columnar.Proofs.Halves

namespace Columnar

/-- More than a half is not rounded to nothing. -/
theorem nearest_pos {n d : Nat} (hd : 0 < d) (h : d < 2 * n) : 0 < nearest n d := by
  rcases Nat.lt_or_ge n d with hlt | hge
  · have hmod : n % d = n := Nat.mod_eq_of_lt hlt
    rw [nearest, if_neg (by omega), if_pos (by omega)]
    exact Nat.succ_pos _
  · exact Nat.lt_of_lt_of_le (Nat.div_pos hge hd) (le_nearest n d)

namespace Magnitude

/-! ### What rounding takes away -/

theorem lt_units_add_spacing {n d : Nat} {m : Magnitude} (h : ofRatio? n d = some m) :
    n / d < m.units + spacing (n / d) := by
  have hnearest := le_nearest n (d * spacing (n / d))
  rw [← Nat.div_div_eq_div_mul] at hnearest
  rw [units_ofRatio? h]
  calc n / d < n / d / spacing (n / d) * spacing (n / d) + spacing (n / d) :=
        Nat.lt_div_mul_add (spacing_pos _)
    _ ≤ nearest n (d * spacing (n / d)) * spacing (n / d) + spacing (n / d) :=
        Nat.add_le_add_right (Nat.mul_le_mul_right _ hnearest) _

theorem units_of_ofRatio?_zero {d : Nat} {m : Magnitude} (hd : 0 < d)
    (h : ofRatio? 0 d = some m) : m.units = 0 := by
  have hnearest := nearest_mul 0 (Nat.mul_pos hd (spacing_pos (0 / d)))
  rw [Nat.zero_mul] at hnearest
  rw [units_ofRatio? h, hnearest, Nat.zero_mul]

theorem million_le_one : 10 ^ 6 ≤ one := by decide

/-- A whole number other than zero, rounded and divided by a hundred, has a
digit to two places. -/
theorem hundredths_pos {a m : Magnitude} {whole : Nat} (hwhole : 0 < whole)
    (ha : ofRatio? (whole * one) 1 = some a)
    (hm : ofRatio? (a.units * one) (100 * one) = some m) : 0 < m.hundredths := by
  have hone := million_le_one
  have hle : one ≤ whole * one := Nat.le_mul_of_pos_left _ hwhole
  have hquotient : a.units * one / (100 * one) = a.units / 100 :=
    Nat.mul_div_mul_right _ _ one_pos
  -- each of the two roundings takes a small part away
  have hlost := lt_units_add_spacing ha
  have hspacing := two_pow_mul_spacing_le (whole * one / 1)
  rw [Nat.div_one] at hlost hspacing
  have hlost' := lt_units_add_spacing hm
  have hspacing' := two_pow_mul_spacing_le (a.units * one / (100 * one))
  rw [hquotient] at hlost' hspacing'
  refine nearest_pos one_pos ?_
  generalize whole * one = n at *
  omega

end Magnitude

namespace Binary64

open Magnitude

/-! ### Rounding to two places -/

/-- If the number is finite and its two decimals are zero, it is zero. -/
def Shows : Binary64 → Prop
  | finite _ m => m.units = 0 ∨ 0 < m.hundredths
  | _ => True

theorem shows_infinite (negative : Bool) : (infinite negative).Shows := trivial

theorem powAux_two (acc x : Binary64) : powAux acc x 2 = acc.mul (x.mul x) := by
  unfold powAux
  unfold powAux
  unfold powAux
  simp

theorem exists_scale_two :
    ∃ hundred, (ofInt 10).pow 2 = finite false hundred ∧ hundred.units = 100 * one := by
  have hsquare : (ofInt 10).mul (ofInt 10) = ofInt 100 := by decide +kernel
  have hone : (ofInt 1).mul (ofInt 100) = finite false (halves 200 (by decide)) := by
    decide +kernel
  refine ⟨halves 200 (by decide), ?_, ?_⟩
  · change powAux (ofInt 1) (ofInt 10) 2 = _
    rw [powAux_two, hsquare, hone]
  · have hhalves : (halves 200 (by decide)).units = 200 * half := rfl
    rw [hhalves, one_eq]
    omega

theorem ofRatio_eq_of_none {n d : Nat} (h : ofRatio? n d = none) (negative : Bool) :
    ofRatio negative n d = infinite negative := by
  unfold ofRatio
  rw [h]

theorem ofRatio_cases (s : Bool) (n d : Nat) :
    ofRatio s n d = infinite s ∨ ∃ m, ofRatio? n d = some m ∧ ofRatio s n d = finite s m := by
  rcases Option.eq_none_or_eq_some (ofRatio? n d) with h | ⟨m, h⟩
  · exact .inl (ofRatio_eq_of_none h s)
  · exact .inr ⟨m, h, ofRatio_eq_of_some h s⟩

theorem infinite_div_finite (s t : Bool) (b : Magnitude) :
    (infinite s).div (finite t b) = infinite (s != t) := rfl

theorem finite_div_finite {b : Magnitude} (hb : b.units ≠ 0) (s t : Bool) (a : Magnitude) :
    (finite s a).div (finite t b) = ofRatio (s != t) (a.units * one) b.units := by
  rw [div, if_neg hb]

theorem shows_div_hundred (s : Bool) (whole : Nat) {hundred : Magnitude}
    (hunits : hundred.units = 100 * one) :
    ((ofRatio s (whole * one) 1).div (finite false hundred)).Shows := by
  have hpos : 0 < hundred.units := by
    rw [hunits]
    exact Nat.mul_pos (by decide) Magnitude.one_pos
  rcases ofRatio_cases s (whole * one) 1 with hinfinite | ⟨a, ha, hfinite⟩
  · rw [hinfinite, infinite_div_finite]
    exact shows_infinite _
  · rw [hfinite, finite_div_finite (Nat.ne_of_gt hpos)]
    rcases ofRatio_cases (s != false) (a.units * one) hundred.units with hinfinite | ⟨m, hm, hfinite⟩
    · rw [hinfinite]
      exact shows_infinite _
    · rw [hfinite]
      rcases Nat.eq_zero_or_pos whole with rfl | hwhole
      · rw [Nat.zero_mul] at ha
        rw [units_of_ofRatio?_zero Nat.one_pos ha, Nat.zero_mul] at hm
        exact .inl (units_of_ofRatio?_zero hpos hm)
      · rw [hunits] at hm
        exact .inr (hundredths_pos hwhole ha hm)

/-- A number rounded to two places shows what it is. -/
theorem shows_roundPlaces (x : Binary64) : (x.roundPlaces 2).Shows := by
  obtain ⟨hundred, hscale, hunits⟩ := exists_scale_two
  rw [roundPlaces, hscale]
  cases x.mul (finite false hundred) with
  | nan => trivial
  | infinite s => exact shows_infinite _
  | finite s m =>
    rw [roundWhole]
    exact shows_div_hundred s _ hunits

end Binary64

/-- **An average shows what it is**: of an infinity no decimals are written,
and of the finite averages only zero has the decimals of zero. -/
theorem shows_averageOf (values : List Value) : (averageOf values).Shows := by
  unfold averageOf
  split
  · trivial
  · exact Binary64.shows_roundPlaces _

end Columnar
