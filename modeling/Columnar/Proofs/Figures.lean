/-
# What a number looks like in print

A field of a print is the text of a number. It consists of digits, signs and
points, but for the words `NaN` and `inf`; so no field has a comma or a newline
in it (`Value.isField_field`). A number other than zero has a digit other than
zero in its text: the shortest text reads back as the number, and an average is
zero if its decimals are. So a text with a minus that shows nothing but zeros
(`IsNegativeZero`) is never printed.

Key definitions: `IsNegativeZero`, `IsTwoPlaces`, `IsAverageText`.
Key theorems: `Value.not_isNegativeZero_field`,
`Binary64.Shows.not_isNegativeZero`, `Binary64.isAverageText_averageField`.
-/
import Columnar.Proofs.Averages
import Columnar.Proofs.Reading

namespace Columnar

open Script (IsField isField_repr)

/-! ### Forms of a text -/

/-- A minus, and no digit but zero. -/
def IsNegativeZero (text : String) : Prop :=
  '-' ∈ text.toList ∧ ∀ c ∈ text.toList, c = '-' ∨ c = '0' ∨ c = '.'

-- the members of the text are gone through, not all characters
instance (text : String) : Decidable (IsNegativeZero text) :=
  @instDecidableAnd _ _ inferInstance (List.decidableBAll _ _)

/-- A whole number, a point and two digits, perhaps after a minus. -/
def IsTwoPlaces (text : String) : Prop :=
  ∃ sign whole places : String, text = sign ++ (whole ++ "." ++ places) ∧
    (sign = "" ∨ sign = "-") ∧ whole ≠ "" ∧ (∀ c ∈ whole.toList, c.isDigit = true) ∧
    places.length = 2 ∧ ∀ c ∈ places.toList, c.isDigit = true

/-- What is printed for an average. -/
def IsAverageText (text : String) : Prop := text = "inf" ∨ text = "-inf" ∨ IsTwoPlaces text

theorem ne_of_not_isNegativeZero {text : String} (h : ¬ IsNegativeZero text) :
    text ≠ "-0" ∧ text ≠ "-0.00" := by
  constructor
  · rintro rfl
    exact h (by decide)
  · rintro rfl
    exact h (by decide)

theorem not_isNegativeZero_of_notMem {text : String} (h : '-' ∉ text.toList) :
    ¬ IsNegativeZero text :=
  fun hzero => h hzero.1

theorem not_isNegativeZero_of_digit {text : String} {c : Char} (hmem : c ∈ text.toList)
    (hdigit : c.isDigit = true) (hne : c ≠ '0') : ¬ IsNegativeZero text := by
  rintro ⟨-, hall⟩
  rcases hall c hmem with rfl | rfl | rfl
  · contradiction
  · exact hne rfl
  · contradiction

/-! ### Digits -/

theorem exists_digit_ne_zero {n : Nat} (h : n ≠ 0) :
    ∃ c ∈ Nat.toDigits 10 n, c.isDigit = true ∧ c ≠ '0' := by
  by_contra hnone
  have hzeros : ∀ c ∈ Nat.toDigits 10 n, c = '0' := by
    intro c hc
    by_contra hne
    exact hnone ⟨c, hc, Nat.isDigit_of_mem_toDigits (by decide) (by decide) hc, hne⟩
  have hread := Nat.ofDigitChars_ten_toDigits (n := n)
  rw [List.eq_replicate_of_mem hzeros, Nat.ofDigitChars_replicate_zero] at hread
  exact h (by omega)

theorem isDigit_of_mem_natRepr {n : Nat} {c : Char} (h : c ∈ n.repr.toList) : c.isDigit = true := by
  rw [Nat.toList_repr] at h
  exact Nat.isDigit_of_mem_toDigits (by decide) (by decide) h

theorem length_zeroPadded_two {n : Nat} (h : n < 100) : (zeroPadded 2 n).length = 2 := by
  have hle : (Nat.toDigits 10 n).length ≤ 2 :=
    (Nat.length_toDigits_le_iff (by decide) (by decide)).mpr h
  rw [← String.length_toList, toList_zeroPadded, List.length_append, List.length_replicate]
  omega

theorem mem_pointed {places n : Nat} {c : Char} (h : c ∈ (pointed places n).toList) :
    c = '.' ∨ c.isDigit = true := by
  unfold pointed at h
  split at h
  · exact .inr (isDigit_of_mem_natRepr h)
  · rw [String.toList_append, String.toList_append, List.mem_append, List.mem_append] at h
    rcases h with (h | h) | h
    · exact .inr (isDigit_of_mem_natRepr h)
    · exact .inl (List.mem_singleton.mp h)
    · exact .inr (isDigit_of_mem_zeroPadded h)

theorem exists_digit_pointed (places : Nat) {n : Nat} (h : n ≠ 0) :
    ∃ c ∈ (pointed places n).toList, c.isDigit = true ∧ c ≠ '0' := by
  unfold pointed
  split
  · rw [Nat.toList_repr]
    exact exists_digit_ne_zero h
  · simp only [String.toList_append, List.mem_append, Nat.toList_repr, toList_zeroPadded]
    by_cases hwhole : n / Nat.pow 10 places = 0
    · -- nothing stands before the point, so something stands after it
      have hrest : n % Nat.pow 10 places ≠ 0 := by
        intro hrest
        have hdiv := Nat.div_add_mod n (Nat.pow 10 places)
        rw [hwhole, hrest, Nat.mul_zero] at hdiv
        exact h hdiv.symm
      obtain ⟨c, hc, hdigit⟩ := exists_digit_ne_zero hrest
      exact ⟨c, .inr (.inr hc), hdigit⟩
    · obtain ⟨c, hc, hdigit⟩ := exists_digit_ne_zero hwhole
      exact ⟨c, .inl (.inl hc), hdigit⟩

/-! ### The shortest text -/

namespace Magnitude

theorem ne_zero_of_readsBack {m : Magnitude} (hm : m.units ≠ 0) {n : Nat}
    (h : m.readsBack n = true) : n ≠ 0 := by
  rintro rfl
  exact hm (units_of_ofRatio?_zero stepsPerUnit_pos (of_decide_eq_true h))

theorem ne_zero_of_neighbour? {m : Magnitude} (hm : m.units ≠ 0) {grid count : Nat}
    (h : m.neighbour? grid = some count) : count ≠ 0 := by
  have hreads : ∀ n, m.readsBack n = true → n ≠ 0 := fun n => ne_zero_of_readsBack hm
  simp only [neighbour?] at h
  generalize m.readsBack = reads at h hreads
  split at h
  · rename_i hbelow
    split at h
    · cases h
      exact Nat.succ_ne_zero _
    · cases h
      exact left_ne_zero_of_mul (hreads _ hbelow)
  · split at h
    · cases h
      exact Nat.succ_ne_zero _
    · cases h

/-- What is found is not zero if nothing that can be found is. -/
theorem coarsest_fst_ne_zero {find? : Nat → Option Nat} {finest : Nat} (hfinest : finest ≠ 0)
    (hfind : ∀ grid count, find? grid = some count → count ≠ 0) :
    ∀ grid, (coarsest find? finest grid).1 ≠ 0
  | 0 => hfinest
  | grid + 1 => by
    rw [coarsest]
    split
    · rename_i count hcount
      exact hfind _ _ hcount
    · exact coarsest_fst_ne_zero hfinest hfind grid

theorem shortest_fst_ne_zero {m : Magnitude} (hm : m.units ≠ 0) (grid : Nat) :
    (m.shortest grid).1 ≠ 0 := by
  have hsteps : m.steps ≠ 0 := Nat.mul_ne_zero hm (Nat.ne_of_gt stepsPerUnit_pos)
  exact coarsest_fst_ne_zero hsteps (fun _ _ => ne_zero_of_neighbour? hm) grid

/-- The text of a number other than zero is a count of some grid. -/
theorem exists_text_eq {m : Magnitude} (hm : m.units ≠ 0) :
    ∃ count, count ≠ 0 ∧ ∃ places, m.text = pointed places count := by
  have hcount := shortest_fst_ne_zero hm (digitBound m.steps)
  rw [text, if_neg hm]
  generalize m.shortest (digitBound m.steps) = found at hcount
  obtain ⟨count, grid⟩ := found
  dsimp only at hcount ⊢
  generalize 1074 = finest
  by_cases hgrid : finest ≤ grid
  · rw [if_pos hgrid]
    exact ⟨_, Nat.mul_ne_zero hcount (Nat.ne_of_gt (Nat.pow_pos (by decide))), 0, rfl⟩
  · rw [if_neg hgrid]
    exact ⟨count, hcount, _, rfl⟩

theorem mem_text {m : Magnitude} {c : Char} (h : c ∈ m.text.toList) :
    c = '.' ∨ c.isDigit = true := by
  by_cases hm : m.units = 0
  · rw [text, if_pos hm] at h
    rw [List.mem_singleton.mp h]
    exact .inr (by decide)
  · obtain ⟨count, -, places, htext⟩ := exists_text_eq hm
    rw [htext] at h
    exact mem_pointed h

theorem exists_digit_text {m : Magnitude} (hm : m.units ≠ 0) :
    ∃ c ∈ m.text.toList, c.isDigit = true ∧ c ≠ '0' := by
  obtain ⟨count, hcount, places, htext⟩ := exists_text_eq hm
  rw [htext]
  exact exists_digit_pointed places hcount

end Magnitude

/-! ### Signed numbers -/

namespace Binary64

theorem isField_minus {negative : Bool} {digits : String}
    (h : ∀ c ∈ digits.toList, c = '.' ∨ c.isDigit = true) :
    IsField (minus negative ++ digits) := by
  have hmem : ∀ c ∈ (minus negative ++ digits).toList, c = '-' ∨ c = '.' ∨ c.isDigit = true := by
    intro c hc
    rw [String.toList_append, List.mem_append] at hc
    rcases hc with hc | hc
    · cases negative with
      | true => exact .inl (List.mem_singleton.mp hc)
      | false => cases hc
    · exact .inr (h c hc)
  constructor <;> intro hc <;> rcases hmem _ hc with heq | heq | heq <;> contradiction

/-- A minus stands only in front of a digit other than zero. -/
theorem not_isNegativeZero_minus {negative : Bool} {digits : String}
    (hmem : ∀ c ∈ digits.toList, c = '.' ∨ c.isDigit = true)
    (hdigit : negative = true → ∃ c ∈ digits.toList, c.isDigit = true ∧ c ≠ '0') :
    ¬ IsNegativeZero (minus negative ++ digits) := by
  cases negative with
  | true =>
    obtain ⟨c, hc, hisDigit, hne⟩ := hdigit rfl
    refine not_isNegativeZero_of_digit ?_ hisDigit hne
    rw [String.toList_append]
    exact List.mem_append_right _ hc
  | false =>
    refine not_isNegativeZero_of_notMem fun hminus => ?_
    rw [minus, if_neg Bool.false_ne_true, String.empty_append] at hminus
    rcases hmem _ hminus with heq | heq <;> contradiction

theorem unsignedZero_finite (negative : Bool) (m : Magnitude) :
    (finite negative m).unsignedZero = finite (negative && m.units != 0) m := by
  rw [unsignedZero]
  by_cases hm : m.units = 0
  · have hzero : m = Magnitude.zero := Magnitude.ext hm
    rw [if_pos hm, hm, bne_self_eq_false, Bool.and_false, hzero]
    rfl
  · rw [if_neg hm, bne_iff_ne.mpr hm, Bool.and_true]

theorem isField_text : ∀ x : Binary64, IsField x.text
  | nan => ⟨by decide, by decide⟩
  | infinite true => ⟨by decide, by decide⟩
  | infinite false => ⟨by decide, by decide⟩
  | finite _ _ => isField_minus fun _ => Magnitude.mem_text

theorem not_isNegativeZero_text : ∀ x : Binary64, ¬ IsNegativeZero x.unsignedZero.text
  | nan => by decide
  | infinite true => by decide
  | infinite false => by decide
  | finite negative m => by
    rw [unsignedZero_finite]
    refine not_isNegativeZero_minus (fun _ => Magnitude.mem_text) fun hnegative => ?_
    exact Magnitude.exists_digit_text (bne_iff_ne.mp (Bool.and_eq_true_iff.mp hnegative).2)

end Binary64

/-! ### Fields -/

namespace Value

theorem isField_field : ∀ v : Value, IsField v.field
  | int n => isField_repr n.toInt
  | float x => Binary64.isField_text x.unsignedZero

/-- **A value is not printed as a negative zero.** -/
theorem not_isNegativeZero_field : ∀ v : Value, ¬ IsNegativeZero v.field
  | int n => by
    rw [field, Int.repr_eq_if]
    split
    · refine not_isNegativeZero_of_notMem fun hminus => ?_
      have := isDigit_of_mem_natRepr hminus
      contradiction
    · rename_i hnegative
      obtain ⟨c, hc, hdigit, hne⟩ := exists_digit_ne_zero (n := (-n.toInt).toNat) (by omega)
      refine not_isNegativeZero_of_digit ?_ hdigit hne
      rw [String.toList_append, Nat.toList_repr]
      exact List.mem_append_right _ hc
  | float x => Binary64.not_isNegativeZero_text x

end Value

namespace Binary64

theorem isTwoPlaces_pointed (negative : Bool) (n : Nat) :
    IsTwoPlaces (minus negative ++ pointed 2 n) := by
  refine ⟨minus negative, (n / Nat.pow 10 2).repr, zeroPadded 2 (n % Nat.pow 10 2), ?_, ?_, ?_,
    fun c => isDigit_of_mem_natRepr, length_zeroPadded_two (Nat.mod_lt _ (by decide)),
    fun c => isDigit_of_mem_zeroPadded⟩
  · rw [pointed, if_neg (by decide)]
  · cases negative with
    | true => exact .inr rfl
    | false => exact .inl rfl
  · intro hempty
    have hnil := congrArg String.toList hempty
    rw [Nat.toList_repr] at hnil
    exact Nat.toDigits_ne_nil hnil

theorem averageField_finite (negative : Bool) (m : Magnitude) :
    averageField (finite negative m) =
      minus (negative && m.units != 0) ++ pointed 2 m.hundredths := by
  change (finite negative m).unsignedZero.twoPlaces = _
  rw [unsignedZero_finite]
  rfl

theorem averageField_nan : averageField nan = minus false ++ pointed 2 0 := by decide +kernel

theorem isField_averageField : ∀ x : Binary64, IsField (averageField x)
  | nan => ⟨by decide +kernel, by decide +kernel⟩
  | infinite true => ⟨by decide, by decide⟩
  | infinite false => ⟨by decide, by decide⟩
  | finite negative m => by
    rw [averageField_finite]
    exact isField_minus fun _ => mem_pointed

/-- An average is printed with two places, an infinite one as a word. -/
theorem isAverageText_averageField : ∀ x : Binary64, IsAverageText (averageField x)
  | nan => averageField_nan ▸ .inr (.inr (isTwoPlaces_pointed false 0))
  | infinite true => .inr (.inl rfl)
  | infinite false => .inl rfl
  | finite negative m => by
    rw [averageField_finite]
    exact .inr (.inr (isTwoPlaces_pointed _ _))

/-- **An average that shows what it is is not printed as a negative zero.** -/
theorem Shows.not_isNegativeZero : ∀ {x : Binary64}, x.Shows → ¬ IsNegativeZero (averageField x)
  | nan, _ => by decide +kernel
  | infinite true, _ => by decide
  | infinite false, _ => by decide
  | finite negative m, h => by
    rw [averageField_finite]
    refine not_isNegativeZero_minus (fun _ => mem_pointed) fun hnegative => ?_
    rcases h with hm | hpos
    · exact absurd hm (bne_iff_ne.mp (Bool.and_eq_true_iff.mp hnegative).2)
    · exact exists_digit_pointed 2 (Nat.ne_of_gt hpos)

end Binary64
end Columnar
