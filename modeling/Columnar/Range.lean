/-
# Half-open ranges of values

A range has a lower bound, which it contains, and an upper bound, which it
does not; either may be missing. A NaN is neither above nor below anything,
so only the range without bounds contains it.

Key definitions: `Bound`, `Range`, `Range.contains`.
-/
import Columnar.Value

namespace Columnar

/-- One side of a range. -/
inductive Bound where
  | unbounded
  | at (v : Value)
deriving DecidableEq

namespace Bound

/-- Whether `v` is at or above the bound. -/
def admitsAsLow (b : Bound) (v : Value) : Bool :=
  match b with
  | unbounded => true
  | .at low => v.compare? low == some .gt || v.compare? low == some .eq

/-- Whether `v` is below the bound. -/
def admitsAsHigh (b : Bound) (v : Value) : Bool :=
  match b with
  | unbounded => true
  | .at high => v.compare? high == some .lt

/-- The text of a bound in scripts. -/
def text : Bound → String
  | unbounded => "null"
  | .at v => v.text

end Bound

/-- The values from `low` up to but without `high`. -/
structure Range where
  low : Bound
  high : Bound
deriving DecidableEq

namespace Range

/-- The range that leaves nothing out. -/
def full : Range := ⟨.unbounded, .unbounded⟩

def contains (r : Range) (v : Value) : Bool :=
  r.low.admitsAsLow v && r.high.admitsAsHigh v

theorem contains_full (v : Value) : full.contains v = true := rfl

end Range
end Columnar
