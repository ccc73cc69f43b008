/-
# The faults that an operation can end in

Each operation that a command is made of fails for few reasons: a name that
stands for nothing or for something else (`Fault.OfName`), things of
different lengths (`Fault.OfShape`), or a number that there is not
(`Fault.OfNumber`). `FailsOnly P x` says that `x` succeeds or ends in a fault
of which `P` holds; it is built up as the computation is.

Key definitions: `FailsOnly`, `Fault.OfName`, `Fault.OfShape`,
`Fault.OfNumber`, `Aggregate.hazards`.
Key theorems: `FailsOnly.bind`, `Aggregate.failsOnly_hazards`,
`Arithmetic.failsOnly_overflow`, `failsOnly_printed`.
-/
import Columnar.Session

namespace Columnar

/-- A computation succeeds or ends in a fault of a kind. -/
def FailsOnly {α : Type} (P : Fault → Prop) (x : Except Fault α) : Prop :=
  ∀ fault, x = .error fault → P fault

namespace Fault

/-- A name that stands for nothing, or for a thing of another kind. -/
def OfName : Fault → Prop
  | unknownTable _ | unknownColumn _ | unknownVariable _ | wrongKind _ _ => True
  | _ => False

/-- Things of different lengths. -/
def OfShape : Fault → Prop
  | lengthMismatch _ _ | rowWidth _ _ _ | columnCount _ _ _ => True
  | _ => False

/-- A least or greatest value of nothing. -/
def OfExtreme : Fault → Prop
  | emptyAggregate _ => True
  | _ => False

/-- A number that 64 bits do not hold, or an extreme of nothing. -/
def OfNumber : Fault → Prop
  | overflow | emptyAggregate _ => True
  | _ => False

end Fault

/-! ### How computations are put together -/

namespace FailsOnly

variable {α β : Type} {P Q : Fault → Prop}

theorem ok {a : α} : FailsOnly P (.ok a) := fun _ h => by cases h

theorem error {fault : Fault} (h : P fault) : FailsOnly P (.error fault : Except Fault α) := by
  intro f hf
  cases hf
  exact h

/-- What has no fault to fail in succeeds. -/
theorem exists_ok {x : Except Fault α} (h : FailsOnly P x) (hP : ∀ f, ¬ P f) :
    ∃ a, x = .ok a := by
  cases x with
  | error fault => exact absurd (h fault rfl) (hP fault)
  | ok a => exact ⟨a, rfl⟩

theorem mono {x : Except Fault α} (h : FailsOnly P x) (hPQ : ∀ f, P f → Q f) : FailsOnly Q x :=
  fun f hf => hPQ f (h f hf)

theorem bind {x : Except Fault α} {f : α → Except Fault β} (hx : FailsOnly P x)
    (hf : ∀ a, x = .ok a → FailsOnly P (f a)) : FailsOnly P (x >>= f) := by
  intro fault h
  cases x with
  | error e =>
    cases h
    exact hx _ rfl
  | ok a => exact hf a rfl fault h

theorem map {x : Except Fault α} {f : α → β} (hx : FailsOnly P x) : FailsOnly P (x.map f) := by
  cases x with
  | error e => exact error (hx e rfl)
  | ok a => exact ok

theorem mapM {f : α → Except Fault β} (hf : ∀ a, FailsOnly P (f a)) :
    ∀ as : List α, FailsOnly P (as.mapM f)
  | [] => ok
  | a :: as => by
    rw [List.mapM_cons]
    exact bind (hf a) fun _ _ => bind (mapM hf as) fun _ _ => ok

theorem foldlM {f : β → α → Except Fault β} (hf : ∀ b a, FailsOnly P (f b a)) :
    ∀ (as : List α) (b : β), FailsOnly P (as.foldlM f b)
  | [], _ => ok
  | a :: as, b => by
    rw [List.foldlM_cons]
    exact bind (hf b a) fun b' _ => foldlM hf as b'

end FailsOnly

open FailsOnly Fault

/-! ### Numbers -/

namespace Value

theorem failsOnly_exact (i : Int) : FailsOnly (· = overflow) (exact i) := by
  unfold exact
  split
  · exact ok
  · exact error rfl

theorem failsOnly_add : ∀ a b : Value, FailsOnly (· = overflow) (a.add b)
  | int _, int _ => failsOnly_exact _
  | int _, float _ => ok
  | float _, int _ => ok
  | float _, float _ => ok

theorem failsOnly_subtract : ∀ a b : Value, FailsOnly (· = overflow) (a.subtract b)
  | int _, int _ => failsOnly_exact _
  | int _, float _ => ok
  | float _, int _ => ok
  | float _, float _ => ok

end Value

theorem failsOnly_extreme (function : Aggregate) (wins : Ordering) (values : List Value) :
    FailsOnly (· = emptyAggregate function) (extreme function wins values) := by
  cases values with
  | nil => exact error rfl
  | cons v vs => exact ok

namespace Aggregate

/-- The faults that an aggregate can end in. -/
def hazards : Aggregate → List Fault
  | sum => [overflow]
  | average => []
  | least => [emptyAggregate least]
  | greatest => [emptyAggregate greatest]

theorem ofNumber_of_mem_hazards {function : Aggregate} {fault : Fault}
    (h : fault ∈ function.hazards) : fault.OfNumber := by
  cases function with
  | average => cases h
  | sum | least | greatest =>
    rw [List.mem_singleton.mp h]
    exact trivial

theorem failsOnly_hazards (function : Aggregate) (values : List Value) :
    FailsOnly (· ∈ function.hazards) (function.apply values) := by
  cases function with
  | average => exact ok
  | sum =>
    have hsum : FailsOnly (· = overflow) (sumOf values) := foldlM Value.failsOnly_add values _
    exact (map hsum).mono fun _ => List.mem_singleton.mpr
  | least =>
    exact (map (failsOnly_extreme .least .lt values)).mono fun _ => List.mem_singleton.mpr
  | greatest =>
    exact (map (failsOnly_extreme .greatest .gt values)).mono fun _ => List.mem_singleton.mpr

theorem failsOnly_apply (function : Aggregate) (values : List Value) :
    FailsOnly OfNumber (function.apply values) :=
  (function.failsOnly_hazards values).mono fun _ => ofNumber_of_mem_hazards

end Aggregate

namespace Arithmetic

/-- Vectors of one length leave nothing but an overflow. -/
theorem failsOnly_overflow (op : Arithmetic) {left right : List Value}
    (h : left.length = right.length) : FailsOnly (· = overflow) (op.apply left right) := by
  unfold Arithmetic.apply
  rw [if_pos h]
  apply mapM
  intro p
  cases op with
  | add => exact Value.failsOnly_add p.1 p.2
  | subtract => exact Value.failsOnly_subtract p.1 p.2

theorem failsOnly_apply (op : Arithmetic) (left right : List Value) :
    FailsOnly (fun f => OfShape f ∨ OfNumber f) (op.apply left right) := by
  by_cases h : left.length = right.length
  · refine (op.failsOnly_overflow h).mono fun fault hfault => ?_
    rw [hfault]
    exact .inr trivial
  · rw [apply_of_length_ne h]
    exact error (.inl trivial)

end Arithmetic

/-! ### Shapes -/

theorem Table.failsOnly_insert (t : Table) (row : List Value) :
    FailsOnly OfShape (t.insert row) := by
  unfold Table.insert
  split
  · exact ok
  · exact error trivial

theorem PositionSet.failsOnly_selectPaired (s : PositionSet) (values : List Value) (r : Range) :
    FailsOnly OfShape (s.selectPaired values r) := by
  unfold selectPaired
  split
  · exact ok
  · exact error trivial

theorem failsOnly_sideBySide (columns : List (Array String)) :
    FailsOnly OfShape (sideBySide columns) := by
  unfold sideBySide
  split
  · exact ok
  · split
    · exact error trivial
    · exact ok

theorem failsOnly_printed (args : List Printable) : FailsOnly OfShape (printed args) := by
  unfold printed
  split
  · exact ok
  · exact failsOnly_sideBySide _

/-! ### Names -/

theorem failsOnly_splitQualified (name : String) : FailsOnly OfName (splitQualified name) := by
  unfold splitQualified
  split
  · exact ok
  · exact error trivial

theorem Table.failsOnly_column (t : Table) (name : String) : FailsOnly OfName (t.column name) := by
  unfold Table.column
  split
  · exact ok
  · exact error trivial

namespace Catalog

theorem failsOnly_table (c : Catalog) (name : String) : FailsOnly OfName (c.table name) := by
  unfold Catalog.table
  split
  · exact ok
  · exact error trivial

theorem failsOnly_resolve (c : Catalog) (name : String) : FailsOnly OfName (c.resolve name) :=
  bind (failsOnly_splitQualified name) fun _ _ =>
    bind (c.failsOnly_table _) fun t _ => t.failsOnly_column _

end Catalog

namespace Session

variable (s : Session) (name : String)

theorem failsOnly_lookup : FailsOnly OfName (s.lookup name) := by
  unfold lookup
  split
  · exact ok
  · exact error trivial

theorem failsOnly_selection : FailsOnly OfName (s.selection name) := by
  refine bind (s.failsOnly_lookup name) fun b _ => ?_
  cases b with
  | selection sel => exact ok
  | vector | scalar => exact error trivial

theorem failsOnly_vector : FailsOnly OfName (s.vector name) := by
  refine bind (s.failsOnly_lookup name) fun b _ => ?_
  cases b with
  | vector values source => exact ok
  | selection | scalar => exact error trivial

theorem failsOnly_printable : FailsOnly OfName (s.printable name) := by
  refine bind (s.failsOnly_lookup name) fun b _ => ?_
  cases b with
  | vector | scalar => exact ok
  | selection => exact error trivial

theorem failsOnly_operand (source : Source) : FailsOnly OfName (s.operand source) := by
  cases source with
  | stored name => exact bind (s.catalog.failsOnly_resolve name) fun _ _ => ok
  | assigned name => exact bind (s.failsOnly_vector name) fun _ _ => ok

end Session
end Columnar
