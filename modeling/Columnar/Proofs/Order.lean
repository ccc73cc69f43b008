/-
# The order of values and their ranks

Every value but a NaN has a rank, the place of its binary64 number on the line.
A float stands to another value as their ranks stand to each other. Integers
are compared exactly, and rounding keeps their order (`Binary64.ofInt_mono`); so
the ranks decide here too, unless they are equal: two integers that are rounded
to one number have one rank and still differ. The order of values is the order
of the ranks but for these pairs (`Value.compare?_of_rank_ne`,
`Value.compare?_of_rank_eq`).

Key definitions: `Value.IsNumber`, `Value.AtMost`.
Key theorems: `Binary64.ofInt_mono`, `Value.compare?_of_rank_ne`,
`Value.compare?_of_rank_eq`, `Value.AtMost.rank_le`.
-/
import Columnar.Proofs.Rounding
import Columnar.Value

namespace Columnar

namespace Magnitude

/-- How far from zero a rounded ratio stands: past the largest magnitude at the
place of infinity. -/
def place (n d : Nat) : Nat := min (rounded n d) limit

theorem place_mono {n m : Nat} (h : n ≤ m) (d : Nat) : place n d ≤ place m d :=
  min_le_min_right _ (rounded_mono h d)

end Magnitude

namespace Binary64

open Magnitude

theorem rank_ofRatio (s : Bool) (n d : Nat) :
    (ofRatio s n d).rank = some (if s then -(place n d : Int) else (place n d : Int)) := by
  rcases Nat.lt_or_ge (rounded n d) limit with hlt | hge
  · have hsome : ofRatio? n d = some ⟨rounded n d, hlt, spaced_nearest n d⟩ := by
      rw [ofRatio?_eq, dif_pos hlt]
    rw [ofRatio_eq_of_some hsome, place, Nat.min_eq_left (Nat.le_of_lt hlt)]
    rfl
  · have hnone : ofRatio? n d = none := by rw [ofRatio?_eq, dif_neg (Nat.not_lt.mpr hge)]
    rw [ofRatio_eq_of_none hnone, place, Nat.min_eq_right hge]
    rfl

/-- **Integers keep their order**, though different ones may become one number. -/
theorem ofInt_mono {i j a b : Int} (h : i ≤ j) (ha : (ofInt i).rank = some a)
    (hb : (ofInt j).rank = some b) : a ≤ b := by
  rw [ofInt, rank_ofRatio, Option.some.injEq] at ha hb
  simp only [decide_eq_true_eq] at ha hb
  rcases Int.lt_or_le i 0 with hi | hi
  · rw [if_pos hi] at ha
    rcases Int.lt_or_le j 0 with hj | hj
    · rw [if_pos hj] at hb
      have hle := place_mono (Nat.mul_le_mul_right one (show j.natAbs ≤ i.natAbs by omega)) 1
      omega
    · rw [if_neg (by omega)] at hb
      omega
  · rw [if_neg (by omega)] at ha hb
    have hle := place_mono (Nat.mul_le_mul_right one (show i.natAbs ≤ j.natAbs by omega)) 1
    omega

theorem rank_ofInt {i : Int} (hi : i.natAbs ≤ 2 ^ 53) : (ofInt i).rank = some (i * one) := by
  obtain ⟨m, hm, hvalue⟩ := exists_ofInt hi
  have hunits : m.units = i.natAbs * one := by
    have hscaled := value_mul_one m
    rw [hvalue] at hscaled
    exact_mod_cast hscaled.symm
  have hsigned : signed (i < 0) m = i * one := by
    simp only [signed, hunits, decide_eq_true_eq, Int.natCast_mul]
    split
    · rw [← Int.neg_mul, show -(i.natAbs : Int) = i by omega]
    · rw [show (i.natAbs : Int) = i by omega]
  rw [hm, rank, hsigned]

theorem rank_ofInt_lt {i j a b : Int} (hlow : -2 ^ 53 ≤ i) (hhigh : i < 2 ^ 53) (h : i < j)
    (ha : (ofInt i).rank = some a) (hb : (ofInt j).rank = some b) : a < b := by
  have hnext := rank_ofInt (i := i + 1) (by omega)
  have hle := ofInt_mono h hnext hb
  rw [rank_ofInt (by omega), Option.some.injEq] at ha
  have hone : (0 : Int) < one := Int.natCast_pos.mpr Magnitude.one_pos
  rw [Int.add_mul, Int.one_mul] at hle
  omega

end Binary64

namespace Value

/-- Not a NaN. -/
def IsNumber (v : Value) : Prop := v ≠ .float .nan

/-- `v ≤ w`, by the order of values. -/
def AtMost (v w : Value) : Prop := v.compare? w = some .lt ∨ v.compare? w = some .eq

instance (v : Value) : Decidable v.IsNumber := inferInstanceAs (Decidable (v ≠ .float .nan))

instance (v w : Value) : Decidable (v.AtMost w) := inferInstanceAs (Decidable (_ ∨ _))

/-- The place of a value on the line. -/
def rank (v : Value) : Option Int := v.toBinary64.rank

theorem compare?_swap (v w : Value) : w.compare? v = (v.compare? w).map Ordering.swap := by
  have hswap : ∀ x y : Binary64, y.compare? x = (x.compare? y).map Ordering.swap := by
    intro x y
    rw [Binary64.compare?, Binary64.compare?]
    cases x.rank with
    | none => cases y.rank <;> rfl
    | some a =>
      cases y.rank with
      | none => rfl
      | some b => rw [Option.map_some, Int.compare_swap]
  cases v with
  | int i =>
    cases w with
    | int j => rw [compare?, compare?, Option.map_some, Int.compare_swap]
    | float y => exact hswap _ _
  | float x => cases w <;> exact hswap _ _

theorem exists_rank {v : Value} (h : v.IsNumber) : ∃ a, v.rank = some a := by
  cases v with
  | int n => exact ⟨_, Binary64.rank_ofRatio _ _ _⟩
  | float x =>
    cases x with
    | nan => exact absurd rfl h
    | infinite s => exact ⟨_, rfl⟩
    | finite s m => exact ⟨_, rfl⟩

section

variable {v w : Value} {a b : Int} (hv : v.rank = some a) (hw : w.rank = some b)

include hv hw

/-- Ranks decide where one of the values is a float. -/
theorem compare?_cases : v.compare? w = some (compare a b) ∨ ∃ i j, v = int i ∧ w = int j := by
  have hranks : v.toBinary64.compare? w.toBinary64 = some (compare a b) := by
    rw [Binary64.compare?, ← rank, ← rank, hv, hw]
  cases v with
  | int i =>
    cases w with
    | int j => exact .inr ⟨i, j, rfl, rfl⟩
    | float y => exact .inl hranks
  | float x => exact .inl hranks

/-- **Different ranks decide.** -/
theorem compare?_of_rank_ne (hne : a ≠ b) : v.compare? w = some (compare a b) := by
  rcases compare?_cases hv hw with hranks | ⟨i, j, rfl, rfl⟩
  · exact hranks
  · rw [compare?]
    rcases Int.lt_trichotomy i.toInt j.toInt with hlt | heq | hgt
    · have hle := Binary64.ofInt_mono (Int.le_of_lt hlt) hv hw
      rw [Int.compare_eq_lt.mpr hlt, Int.compare_eq_lt.mpr (by omega)]
    · have hle := Binary64.ofInt_mono (Int.le_of_eq heq) hv hw
      have hge := Binary64.ofInt_mono (Int.le_of_eq heq.symm) hw hv
      omega
    · have hge := Binary64.ofInt_mono (Int.le_of_lt hgt) hw hv
      rw [Int.compare_eq_gt.mpr hgt, Int.compare_eq_gt.mpr (by omega)]

/-- **Equal ranks leave only two integers open.** -/
theorem compare?_of_rank_eq (heq : a = b) :
    v.compare? w = some .eq ∨ ∃ i j, v = int i ∧ w = int j := by
  rcases compare?_cases hv hw with hranks | hints
  · rw [Int.compare_eq_eq.mpr heq] at hranks
    exact .inl hranks
  · exact .inr hints

theorem compare?_float {x : Binary64} (hfloat : w = float x) (heq : a = b) :
    v.compare? w = some .eq := by
  rcases compare?_of_rank_eq hv hw heq with heq | ⟨i, j, -, hint⟩
  · exact heq
  · rw [hfloat] at hint
    cases hint

theorem AtMost.rank_le (h : v.AtMost w) : a ≤ b := by
  by_contra hlt
  have hgt := compare?_of_rank_ne hv hw (by omega)
  rw [Int.compare_eq_gt.mpr (by omega)] at hgt
  rcases h with h | h <;> rw [hgt] at h <;> cases h

end

/-! ### At most -/

theorem atMost_swap {v w : Value} :
    w.AtMost v ↔ v.compare? w = some .gt ∨ v.compare? w = some .eq := by
  rw [AtMost, compare?_swap v w]
  cases v.compare? w with
  | none => simp
  | some order => cases order <;> simp

theorem atMost_int {i j : Int64} : (int i).AtMost (int j) ↔ i.toInt ≤ j.toInt := by
  simp only [AtMost, compare?, Option.some.injEq, Int.compare_eq_lt, Int.compare_eq_eq]
  omega

theorem IsNumber.of_compare? {v w : Value} {order : Ordering} (h : v.compare? w = some order) :
    v.IsNumber ∧ w.IsNumber := by
  constructor
  · rintro rfl
    cases h
  · rintro rfl
    rw [compare?_swap (.float .nan) v] at h
    cases h

theorem AtMost.isNumber {v w : Value} (h : v.AtMost w) : v.IsNumber ∧ w.IsNumber := by
  rcases h with h | h <;> exact IsNumber.of_compare? h

theorem lt_or_atMost {v w : Value} (hv : v.IsNumber) (hw : w.IsNumber) :
    v.compare? w = some .lt ∨ w.AtMost v := by
  obtain ⟨a, ha⟩ := exists_rank hv
  obtain ⟨b, hb⟩ := exists_rank hw
  have horder : ∃ order, v.compare? w = some order := by
    rcases compare?_cases ha hb with hranks | ⟨i, j, rfl, rfl⟩
    · exact ⟨_, hranks⟩
    · exact ⟨_, rfl⟩
  rw [atMost_swap]
  obtain ⟨order, horder⟩ := horder
  rw [horder]
  cases order <;> simp

end Value
end Columnar
