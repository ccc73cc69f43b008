/-
# Sampled windows

A window is a half-open range of integers of a given width, placed at random
inside the values of a column that is uniform on `[-rows / 2, rows / 2)`. Its
low end is drawn from an interval that is computed in binary64 and truncated
toward zero at both ends.

The drawing function is a parameter, so what holds of a window holds whatever
the integers are drawn with.

Key definitions: `Window`, `Window.interval`, `Window.sample`, `widthFor`.
-/
import Columnar.Random.Draw
import Columnar.Range

namespace Columnar

/-- The integers from `low` up to but without `high`. -/
structure Window where
  low : Int64
  high : Int64
deriving DecidableEq

/-- The width that keeps about the given share of a uniform column. -/
def widthFor (rows : Nat) (share : Binary64) : Int64 :=
  (share.mul (Binary64.ofInt rows)).truncate

namespace Window

/-- The window as a range of values. -/
def range (w : Window) : Range := ⟨.at (.int w.low), .at (.int w.high)⟩

/-- The ends of the interval that the low end is drawn from. -/
def interval (rows : Nat) (width : Int64) : Int64 × Int64 :=
  let half := (Binary64.ofInt rows).div (Binary64.ofInt 2)
  (half.neg.truncate, (half.sub (Binary64.ofInt width.toInt)).truncate)

/-- A window of a width, its low end drawn with `draw`. -/
def sample {m : Type → Type} [Monad m] (draw : Int64 → Int64 → m Int64) (rows : Nat)
    (width : Int64) : m Window := do
  let low ← draw (interval rows width).1 (interval rows width).2
  return ⟨low, low + width⟩

end Window
end Columnar
