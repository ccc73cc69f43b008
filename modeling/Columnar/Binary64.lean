/-
# Binary64 numbers as exact values

A finite binary64 number is a sign and a magnitude that is a whole multiple
of the least positive one, `2 ^ -1074`; the magnitude is kept as that
multiple, a natural number with at most 53 significant bits and below
`2 ^ 2098`. Both zeros are there; a NaN has neither sign nor payload.

Each operation takes the exact result as a ratio of natural numbers and
rounds it once (`ofRatio`): to the nearest number, a tie to the even
neighbour, and past the largest number to infinity. Below the normal numbers
the spacing stays one unit, so gradual underflow needs no case of its own.

Key definitions: `Magnitude`, `Binary64`, `Binary64.ofRatio`, `Binary64.rank`.
Key theorems: `Magnitude.units_ofRatio?`.
-/
import Columnar.Rounding

namespace Columnar

namespace Magnitude

/-- The number of least positive magnitudes in one. -/
def one : Nat := 1 <<< 1074

/-- The first power of two above every finite magnitude. -/
def limit : Nat := 1 <<< 2098

/-- The spacing of the numbers around `u` units: 53 bits are significant. -/
def spacing (u : Nat) : Nat := 1 <<< (u.log2 - 52)

end Magnitude

/-- The magnitude of a finite number, in units of `2 ^ -1074`. -/
@[ext]
structure Magnitude where
  units : Nat
  lt_limit : units < Magnitude.limit
  spaced : units % Magnitude.spacing units = 0
deriving DecidableEq

namespace Magnitude

theorem one_shiftLeft_pos (k : Nat) : 0 < 1 <<< k := by
  rw [Nat.one_shiftLeft]
  exact Nat.two_pow_pos k

theorem spacing_pos (u : Nat) : 0 < spacing u := one_shiftLeft_pos _

theorem limit_pos : 0 < limit := one_shiftLeft_pos _

/-- What is rounded to has no more than 53 significant bits, or it is the next
power of two. -/
theorem nearest_le_two_pow (n d : Nat) : nearest n (d * spacing (n / d)) ≤ 1 <<< 53 := by
  rw [spacing, Nat.one_shiftLeft, Nat.one_shiftLeft]
  generalize hk : (n / d).log2 - 52 = k
  have hq : n / (d * 2 ^ k) < 2 ^ 53 := by
    rw [← Nat.div_div_eq_div_mul, Nat.div_lt_iff_lt_mul (Nat.two_pow_pos k), ← Nat.pow_add]
    exact Nat.lt_of_lt_of_le Nat.lt_log2_self (Nat.pow_le_pow_right (by decide) (by omega))
  have := nearest_le n (d * 2 ^ k)
  omega

/-- What rounding to the spacing around `n / d` gives lies on the spacing
around itself, also when it was carried to the next power of two. -/
theorem spaced_nearest (n d : Nat) :
    nearest n (d * spacing (n / d)) * spacing (n / d) %
      spacing (nearest n (d * spacing (n / d)) * spacing (n / d)) = 0 := by
  have hle : nearest n (d * spacing (n / d)) ≤ 2 ^ 53 := nearest_le_two_pow n d
  generalize hk : (n / d).log2 - 52 = k
  have hs : spacing (n / d) = 2 ^ k := by rw [spacing, Nat.one_shiftLeft, hk]
  rw [hs] at hle ⊢
  generalize hm : nearest n (d * 2 ^ k) = m at hle ⊢
  rcases Nat.eq_zero_or_pos m with h0 | hpos
  · simp [h0]
  have hu : m * 2 ^ k ≠ 0 := Nat.ne_of_gt (Nat.mul_pos hpos (Nat.two_pow_pos k))
  rcases Nat.lt_or_ge m (2 ^ 53) with hlt | hge
  · have hlog : (m * 2 ^ k).log2 < 53 + k := by
      rw [Nat.log2_lt hu, Nat.pow_add]
      exact Nat.mul_lt_mul_of_pos_right hlt (Nat.two_pow_pos k)
    rw [spacing, Nat.one_shiftLeft]
    exact Nat.mod_eq_zero_of_dvd
      (Nat.dvd_trans (Nat.pow_dvd_pow 2 (by omega)) (Nat.dvd_mul_left _ _))
  · have hm53 : m = 2 ^ 53 := by omega
    rw [hm53, ← Nat.pow_add, spacing, Nat.one_shiftLeft, Nat.log2_two_pow]
    exact Nat.mod_eq_zero_of_dvd (Nat.pow_dvd_pow 2 (by omega))

/-- The magnitude nearest to `n / d` units, unless it is past the largest. -/
def ofRatio? (n d : Nat) : Option Magnitude :=
  let step := spacing (n / d)
  if h : nearest n (d * step) * step < limit then
    some ⟨nearest n (d * step) * step, h, spaced_nearest n d⟩
  else none

theorem units_ofRatio? {n d : Nat} {m : Magnitude} (h : ofRatio? n d = some m) :
    m.units = nearest n (d * spacing (n / d)) * spacing (n / d) := by
  simp only [ofRatio?] at h
  split at h
  · rw [← Option.some.inj h]
  · exact absurd h (by simp)

/-- No magnitude at all. -/
def zero : Magnitude := ⟨0, limit_pos, Nat.zero_mod _⟩

end Magnitude

/-- A number of the binary64 format. -/
inductive Binary64 where
  | nan
  | infinite (negative : Bool)
  | finite (negative : Bool) (magnitude : Magnitude)
deriving DecidableEq

namespace Binary64

/-- The number nearest to `n / d` units with the given sign. -/
def ofRatio (negative : Bool) (n d : Nat) : Binary64 :=
  match Magnitude.ofRatio? n d with
  | some m => finite negative m
  | none => infinite negative

/-- The number nearest to an integer. -/
def ofInt (i : Int) : Binary64 := ofRatio (i < 0) (i.natAbs * Magnitude.one) 1

/-- Zero with a sign. -/
def zero (negative : Bool) : Binary64 := finite negative Magnitude.zero

/-- The signed number of units of a finite number. -/
def signed (negative : Bool) (m : Magnitude) : Int :=
  if negative then -(m.units : Int) else m.units

/-! ### Order -/

/-- Where a number stands on the line: both zeros at one place, the
infinities beyond every finite number, a NaN nowhere. -/
def rank : Binary64 → Option Int
  | nan => none
  | infinite negative => some (if negative then -(Magnitude.limit : Int) else Magnitude.limit)
  | finite negative m => some (signed negative m)

/-- The order of two numbers, undefined if one is a NaN. -/
def compare? (x y : Binary64) : Option Ordering :=
  match x.rank, y.rank with
  | some a, some b => some (compare a b)
  | _, _ => none

/-! ### Arithmetic -/

def neg : Binary64 → Binary64
  | nan => nan
  | infinite s => infinite (!s)
  | finite s m => finite (!s) m

/-- The sum, rounded once. A sum of zero is positive unless both terms are
negative. -/
def add : Binary64 → Binary64 → Binary64
  | nan, _ => nan
  | _, nan => nan
  | infinite s, infinite t => if s = t then infinite s else nan
  | infinite s, finite _ _ => infinite s
  | finite _ _, infinite t => infinite t
  | finite s a, finite t b =>
    let total := signed s a + signed t b
    if total = 0 then zero (s && t) else ofRatio (total < 0) total.natAbs 1

def sub (x y : Binary64) : Binary64 := add x (neg y)

/-- The product, rounded once; an infinity times zero is undefined. -/
def mul : Binary64 → Binary64 → Binary64
  | nan, _ => nan
  | _, nan => nan
  | infinite s, infinite t => infinite (s != t)
  | infinite s, finite t b => if b.units = 0 then nan else infinite (s != t)
  | finite s a, infinite t => if a.units = 0 then nan else infinite (s != t)
  | finite s a, finite t b => ofRatio (s != t) (a.units * b.units) Magnitude.one

/-- The quotient, rounded once; a nonzero number over zero is infinite. -/
def div : Binary64 → Binary64 → Binary64
  | nan, _ => nan
  | _, nan => nan
  | infinite _, infinite _ => nan
  | infinite s, finite t _ => infinite (s != t)
  | finite s _, infinite t => zero (s != t)
  | finite s a, finite t b =>
    if b.units = 0 then
      if a.units = 0 then nan else infinite (s != t)
    else ofRatio (s != t) (a.units * Magnitude.one) b.units

/-- `x ^ k * acc` by repeated squaring, each product rounded. -/
def powAux (acc x : Binary64) (k : Nat) : Binary64 :=
  if h : k = 0 then acc
  else powAux (if k % 2 = 1 then mul acc x else acc) (mul x x) (k / 2)
termination_by k
decreasing_by omega

/-- A whole power; a negative one is the reciprocal of the positive one. -/
def pow (x : Binary64) (k : Int) : Binary64 :=
  let p := powAux (ofInt 1) x k.natAbs
  if k < 0 then div (ofInt 1) p else p

/-! ### Whole numbers -/

/-- The nearest whole number, a tie to the even one; the sign stays. -/
def roundWhole : Binary64 → Binary64
  | nan => nan
  | infinite s => infinite s
  | finite s m => ofRatio s (nearest m.units Magnitude.one * Magnitude.one) 1

/-- The number with `places` decimals nearest to `x`: scaled up, rounded to a
whole number and scaled down again, each step rounded as it stands. -/
def roundPlaces (x : Binary64) (places : Int) : Binary64 :=
  let scale := (ofInt 10).pow places
  ((x.mul scale).roundWhole).div scale

/-- The integer nearest to `i` that 64 bits hold. -/
def clamp (i : Int) : Int64 :=
  Int64.ofInt (max Int64.minValue.toInt (min i Int64.maxValue.toInt))

/-- The integer part, held to 64 bits; zero for a NaN. -/
def truncate : Binary64 → Int64
  | nan => 0
  | infinite negative => if negative then Int64.minValue else Int64.maxValue
  | finite negative m =>
    let whole : Int := (m.units / Magnitude.one : Nat)
    clamp (if negative then -whole else whole)

end Binary64
end Columnar
