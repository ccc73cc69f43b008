/-
# Values of a cell

A value is a 64-bit integer or a binary64 number. Two integers are compared
and added exactly; as soon as one side is a number of the other kind both
are taken as binary64. An exact integer result that 64 bits do not hold is a
fault and never wraps.

A vector of values, detached from the rows it came from, is a `List Value`.

Key definitions: `Value`, `Value.compare?`, `Value.add`, `Value.subtract`,
`Value.text`.
-/
import Columnar.Fault
import Columnar.Binary64.Text

namespace Columnar

/-- The integers of 64 bits. -/
def InInt64 (i : Int) : Prop := -9223372036854775808 ≤ i ∧ i < 9223372036854775808

instance (i : Int) : Decidable (InInt64 i) :=
  inferInstanceAs (Decidable (_ ∧ _))

/-- The content of one cell. -/
inductive Value where
  | int (n : Int64)
  | float (x : Binary64)
deriving DecidableEq

namespace Value

def isFloat : Value → Bool
  | int _ => false
  | float _ => true

/-- The value as a binary64 number; an integer is rounded to the nearest. -/
def toBinary64 : Value → Binary64
  | int n => Binary64.ofInt n.toInt
  | float x => x

/-- The order of two values, undefined if one is a NaN. -/
def compare? : Value → Value → Option Ordering
  | int a, int b => some (compare a.toInt b.toInt)
  | a, b => a.toBinary64.compare? b.toBinary64

/-- Whether two values are of one kind and equal as numbers: a NaN agrees
with nothing, the two zeros agree. -/
def agrees : Value → Value → Bool
  | int a, int b => a == b
  | float x, float y => x.compare? y == some .eq
  | _, _ => false

/-- An exact integer as a value. -/
def exact (i : Int) : Except Fault Value :=
  if InInt64 i then .ok (int (Int64.ofInt i)) else .error .overflow

def add : Value → Value → Except Fault Value
  | int a, int b => exact (a.toInt + b.toInt)
  | a, b => .ok (float (a.toBinary64.add b.toBinary64))

def subtract : Value → Value → Except Fault Value
  | int a, int b => exact (a.toInt - b.toInt)
  | a, b => .ok (float (a.toBinary64.sub b.toBinary64))

/-- The text of a value in scripts and data files. -/
def text : Value → String
  | int n => n.toInt.repr
  | float x => x.text

theorem toInt_ofInt {i : Int} (h : InInt64 i) : (Int64.ofInt i).toInt = i := by
  obtain ⟨h₁, h₂⟩ := h
  exact Int64.toInt_ofInt_of_le (by omega) (by omega)

/-- An exact result is the integer itself, or it does not fit. -/
theorem exact_eq_ok_iff {i : Int} {v : Value} :
    exact i = .ok v ↔ InInt64 i ∧ v = int (Int64.ofInt i) := by
  unfold exact
  split
  · rename_i h
    simp [h, eq_comm]
  · rename_i h
    simp [h]

end Value
end Columnar
