/-
# Elementwise arithmetic

The sum or difference of two vectors, value by value. Integers stay exact,
and one that 64 bits do not hold fails the whole vector.

Key definitions: `Arithmetic.onValues`, `Arithmetic.apply`.
Key theorems: `Arithmetic.apply_of_length_ne`.
-/
import Columnar.Value

namespace Columnar
namespace Arithmetic

def onValues : Arithmetic → Value → Value → Except Fault Value
  | add => Value.add
  | subtract => Value.subtract

/-- The vector of the results at each index. -/
def apply (op : Arithmetic) (left right : List Value) : Except Fault (List Value) :=
  if left.length = right.length then (left.zip right).mapM fun p => op.onValues p.1 p.2
  else .error (.lengthMismatch left.length right.length)

theorem apply_of_length_ne {op : Arithmetic} {left right : List Value}
    (h : left.length ≠ right.length) :
    op.apply left right = .error (.lengthMismatch left.length right.length) :=
  if_neg h

end Arithmetic
end Columnar
