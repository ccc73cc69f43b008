/-
# Aggregates of a vector

Sum, average, least and greatest value of a vector of values. A sum is exact
as long as all values so far are integers, and binary64 from the first float
on. An average is rounded once to two decimals; that of nothing is a NaN. The
least value is what a scan ends with that gives up the value it holds for
each later one below it, and of nothing there is none.

An average is kept apart from the other results, since it is written in
another way.

Key definitions: `Scalar`, `sumOf`, `averageOf`, `leastOf`, `greatestOf`,
`Aggregate.apply`.
Key theorems: `sumOf_nil`, `extreme_eq_error_iff`.
-/
import Columnar.Value

namespace Columnar

/-- What an aggregate gives. -/
inductive Scalar where
  | value (v : Value)
  | average (x : Binary64)
deriving DecidableEq

/-- The sum from left to right, starting from the integer zero. -/
def sumOf (values : List Value) : Except Fault Value := values.foldlM Value.add (.int 0)

/-- The integer of a value; a float has none and counts as zero. -/
def Value.whole : Value → Int
  | int n => n.toInt
  | float _ => 0

/-- The sum that an average divides: exact for integers alone, otherwise
binary64 from left to right, starting from the negative zero. -/
def total (values : List Value) : Binary64 :=
  if values.all fun v => !v.isFloat then
    Binary64.ofInt (values.foldl (fun acc v => acc + v.whole) 0)
  else values.foldl (fun acc v => acc.add v.toBinary64) (Binary64.zero true)

/-- The mean with two decimals. -/
def averageOf (values : List Value) : Binary64 :=
  if values.isEmpty then .nan
  else ((total values).div (Binary64.ofInt values.length)).roundPlaces 2

/-- The value kept by a scan that takes a later one whenever it stands to the
one kept as `wins` says. -/
def keep (wins : Ordering) : Value → List Value → Value
  | best, [] => best
  | best, v :: vs => keep wins (if v.compare? best = some wins then v else best) vs

def extreme (function : Aggregate) (wins : Ordering) : List Value → Except Fault Value
  | [] => .error (.emptyAggregate function)
  | v :: vs => .ok (keep wins v vs)

/-- The smallest value. -/
def leastOf (values : List Value) : Except Fault Value := extreme .least .lt values

/-- The largest value. -/
def greatestOf (values : List Value) : Except Fault Value := extreme .greatest .gt values

/-- The result of an aggregate on a vector. -/
def Aggregate.apply (function : Aggregate) (values : List Value) : Except Fault Scalar :=
  match function with
  | .sum => (sumOf values).map .value
  | .average => .ok (.average (averageOf values))
  | .least => (leastOf values).map .value
  | .greatest => (greatestOf values).map .value

theorem sumOf_nil : sumOf [] = .ok (.int 0) := rfl

/-- Only a vector without values has no extreme. -/
theorem extreme_eq_error_iff {function : Aggregate} {wins : Ordering} {values : List Value}
    {fault : Fault} :
    extreme function wins values = .error fault ↔
      values = [] ∧ fault = .emptyAggregate function := by
  cases values with
  | nil => simp [extreme, eq_comm]
  | cons v vs => simp [extreme]

end Columnar
