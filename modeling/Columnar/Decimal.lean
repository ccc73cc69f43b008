/-
# Decimal text of natural numbers

Digits with leading zeros up to a width, and digits with a point in front of
the last few: `pointed 2 510` is `5.10`. All other decimal text is built from
these and the plain digits of a number.

Key definitions: `zeroPadded`, `pointed`.
Key theorems: `toList_zeroPadded`.
-/

namespace Columnar

/-- The digits of `n`, with zeros in front to at least `width` digits. -/
def zeroPadded (width n : Nat) : String :=
  let digits := Nat.toDigits 10 n
  String.ofList (List.replicate (width - digits.length) '0' ++ digits)

/-- The text of `n / 10 ^ places`, with exactly `places` digits after the
point and no point if there are none. -/
def pointed (places n : Nat) : String :=
  if places = 0 then n.repr
  else (n / Nat.pow 10 places).repr ++ "." ++ zeroPadded places (n % Nat.pow 10 places)

theorem toList_zeroPadded (width n : Nat) :
    (zeroPadded width n).toList =
      List.replicate (width - (Nat.toDigits 10 n).length) '0' ++ Nat.toDigits 10 n := by
  simp [zeroPadded]

/-- Padding adds no character other than a digit. -/
theorem isDigit_of_mem_zeroPadded {width n : Nat} {c : Char}
    (h : c ∈ (zeroPadded width n).toList) : c.isDigit := by
  rw [toList_zeroPadded, List.mem_append] at h
  rcases h with h | h
  · rw [List.eq_of_mem_replicate h]
    decide
  · exact Nat.isDigit_of_mem_toDigits (by decide) (by decide) h

end Columnar
