/-
# The operations of the query language

The aggregates over one vector of values and the elementwise operations on
two, with the names they have in a script and in a message.

Key definitions: `Aggregate`, `Arithmetic`.
-/

namespace Columnar

/-- A function from a vector of values to one result. -/
inductive Aggregate where
  | sum | average | least | greatest
deriving DecidableEq

/-- A function from two vectors of one length to a vector of that length. -/
inductive Arithmetic where
  | add | subtract
deriving DecidableEq

/-- The name in a script. -/
def Aggregate.word : Aggregate → String
  | sum => "sum"
  | average => "avg"
  | least => "min"
  | greatest => "max"

/-- The name in a message. -/
def Aggregate.title : Aggregate → String
  | sum => "Sum"
  | average => "Avg"
  | least => "Min"
  | greatest => "Max"

/-- The name in a script. -/
def Arithmetic.word : Arithmetic → String
  | add => "add"
  | subtract => "sub"

end Columnar
