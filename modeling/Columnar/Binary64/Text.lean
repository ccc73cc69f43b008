/-
# Decimal text of binary64 numbers

Two forms. `Binary64.text` writes the fewest digits that read back as the
same number, with a point but never an exponent: among the decimal grids
`10 ^ k`, from coarse to fine, the first one on which a neighbour of the
number reads back. Of two such neighbours the nearer is written, halfway the
larger. `Binary64.twoPlaces` writes the exact value rounded to hundredths, a
tie to the even hundredth.

A negative number keeps its sign also where its digits are all zero.

Key definitions: `Magnitude.readsBack`, `Magnitude.shortest`, `Binary64.text`,
`Binary64.twoPlaces`.
Key theorems: `Magnitude.readsBack_steps`.
-/
import Columnar.Binary64
import Columnar.Decimal

namespace Columnar
namespace Magnitude

def fiveToThe (k : Nat) : Nat := Nat.pow 5 k

/-- One unit is `5 ^ 1074` steps of the grid `10 ^ -1074`, the grid on which
every magnitude is a whole number of steps. -/
def stepsPerUnit : Nat := fiveToThe 1074

/-- The magnitude in steps of `10 ^ -1074`. -/
def steps (m : Magnitude) : Nat := m.units * stepsPerUnit

/-- Whether `n` steps of `10 ^ -1074` round to the magnitude. -/
def readsBack (m : Magnitude) (n : Nat) : Bool :=
  ofRatio? n stepsPerUnit = some m

/-- The multiple of `10 ^ grid` steps to write for the magnitude: one of its
two neighbours, if any reads back. -/
def neighbour? (m : Magnitude) (grid : Nat) : Option Nat :=
  let width := Nat.pow 10 grid
  let below := m.steps / width
  let rest := m.steps % width
  if m.readsBack (below * width) then
    if m.readsBack ((below + 1) * width) && width ≤ 2 * rest then some (below + 1)
    else some below
  else if m.readsBack ((below + 1) * width) then some (below + 1)
  else none

/-- What is found on the coarsest grid on which something is found, and that
grid; `finest` on the last one. -/
def coarsest (find? : Nat → Option Nat) (finest : Nat) : Nat → Nat × Nat
  | 0 => (finest, 0)
  | grid + 1 =>
    match find? (grid + 1) with
    | some count => (count, grid + 1)
    | none => coarsest find? finest grid

/-- Count and grid of the coarsest multiple that reads back, no coarser than
`10 ^ grid` steps. -/
def shortest (m : Magnitude) (grid : Nat) : Nat × Nat := coarsest m.neighbour? m.steps grid

/-- A bound for the number of decimal digits of `n`. -/
def digitBound (n : Nat) : Nat := (n.log2 + 1) * 30103 / 100000 + 1

/-- The shortest positional text of a magnitude. -/
def text (m : Magnitude) : String :=
  if m.units = 0 then "0"
  else
    let (count, grid) := m.shortest (digitBound m.steps)
    if 1074 ≤ grid then (count * Nat.pow 10 (grid - 1074)).repr
    else pointed (1074 - grid) count

/-- The magnitude in hundredths, rounded. -/
def hundredths (m : Magnitude) : Nat := nearest (m.units * 100) one

theorem fiveToThe_pos (k : Nat) : 0 < fiveToThe k := Nat.pow_pos (by decide)

theorem stepsPerUnit_pos : 0 < stepsPerUnit := fiveToThe_pos 1074

/-- On the finest grid the magnitude is itself a neighbour that reads back. -/
theorem readsBack_steps (m : Magnitude) : m.readsBack m.steps = true := by
  have hd := stepsPerUnit_pos
  have hdiv : m.steps / stepsPerUnit = m.units := Nat.mul_div_cancel _ hd
  have hdvd : m.units / spacing m.units * spacing m.units = m.units :=
    Nat.div_mul_cancel (Nat.dvd_of_mod_eq_zero m.spaced)
  have hn : nearest m.steps (stepsPerUnit * spacing m.units) * spacing m.units = m.units := by
    rw [show m.steps = m.units / spacing m.units * (stepsPerUnit * spacing m.units) by
      rw [Nat.mul_comm stepsPerUnit, ← Nat.mul_assoc, hdvd]; rfl,
      nearest_mul _ (Nat.mul_pos hd (spacing_pos _)), hdvd]
  simp only [readsBack, ofRatio?, hdiv, hn, decide_eq_true_eq]
  rw [dif_pos m.lt_limit]

end Magnitude

namespace Binary64

/-- The sign in front of the digits. -/
def minus (negative : Bool) : String := if negative then "-" else ""

/-- The shortest text that reads back as the number. -/
def text : Binary64 → String
  | nan => "NaN"
  | infinite negative => minus negative ++ "inf"
  | finite negative m => minus negative ++ m.text

/-- The number with two decimals. -/
def twoPlaces : Binary64 → String
  | nan => "NaN"
  | infinite negative => minus negative ++ "inf"
  | finite negative m => minus negative ++ pointed 2 m.hundredths

end Binary64
end Columnar
