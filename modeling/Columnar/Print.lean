/-
# Printed results

A print takes columns of texts, a single result being a column of one, and
writes them side by side: one line for each row, the fields of a line joined
by commas, a newline after every line. Nothing is printed of an empty vector.

An average has two decimals, and an undefined one is printed as zero; any
other float has its shortest text. A negative zero is printed as zero.

Key definitions: `Printable`, `Printable.fields`, `printed`.
Key theorems: `printed_vector`.
-/
import Columnar.Aggregate
import Columnar.Table.Csv

namespace Columnar

namespace Binary64

/-- The number without the sign of a negative zero. -/
def unsignedZero : Binary64 → Binary64
  | finite negative m => if m.units = 0 then zero false else finite negative m
  | x => x

end Binary64

/-- The field of a value. -/
def Value.field : Value → String
  | int n => n.toInt.repr
  | float x => x.unsignedZero.text

/-- The field of an average. -/
def averageField (x : Binary64) : String :=
  match x with
  | .nan => (Binary64.zero false).twoPlaces
  | x => x.unsignedZero.twoPlaces

/-- The field of a single result. -/
def Scalar.field : Scalar → String
  | value v => v.field
  | average x => averageField x

/-- What a variable can hand to a print. -/
inductive Printable where
  | scalar (s : Scalar)
  | vector (values : List Value)
deriving DecidableEq

/-- The column of fields of an argument. -/
def Printable.fields : Printable → Array String
  | scalar s => #[s.field]
  | vector values => (values.map Value.field).toArray

/-- A vector alone: one value to a line. -/
def vectorText (values : List Value) : String := unlines (values.map Value.field)

/-- The fields at one row. -/
def fieldsAt (columns : List (Array String)) (row : Nat) : List String :=
  columns.map fun c => c.getD row ""

/-- Columns of one length side by side; the first that differs from the first
of all is a fault. -/
def sideBySide : List (Array String) → Except Fault String
  | [] => .ok ""
  | first :: rest =>
    match rest.find? fun c => c.size ≠ first.size with
    | some c => .error (.lengthMismatch first.size c.size)
    | none =>
      .ok (unlines ((List.range first.size).map fun row =>
        ",".intercalate (fieldsAt (first :: rest) row)))

/-- The text of a print with the given arguments. -/
def printed : List Printable → Except Fault String
  | [.vector values] => .ok (vectorText values)
  | args => sideBySide (args.map Printable.fields)

theorem printed_vector (values : List Value) : printed [.vector values] = .ok (vectorText values) :=
  rfl

end Columnar
