/-
# The whole number nearest to a quotient

Every rounding of the library goes through one function: `nearest n d` is the
whole number nearest to `n / d`, and a tie goes to the even neighbour. Binary
spacing, whole values, two decimals and any other grid are obtained by
scaling `n` and `d`.

Key definitions: `nearest`.
Key theorems: `le_nearest`, `nearest_le`, `nearest_mul`.
-/

namespace Columnar

/-- The whole number nearest to `n / d`; halfway between two, the even one. -/
def nearest (n d : Nat) : Nat :=
  if 2 * (n % d) < d then n / d
  else if d < 2 * (n % d) then n / d + 1
  else n / d + n / d % 2

theorem le_nearest (n d : Nat) : n / d ≤ nearest n d := by
  unfold nearest
  split
  · exact Nat.le_refl _
  · split <;> omega

theorem nearest_le (n d : Nat) : nearest n d ≤ n / d + 1 := by
  unfold nearest
  split
  · omega
  · split <;> omega

/-- A whole quotient is not moved. -/
theorem nearest_mul (q : Nat) {d : Nat} (hd : 0 < d) : nearest (q * d) d = q := by
  unfold nearest
  rw [Nat.mul_mod_left, Nat.mul_div_cancel q hd, if_pos (by omega)]

end Columnar
