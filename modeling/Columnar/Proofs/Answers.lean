/-
# Scripts on integers, command by command

The rows of a table can be told apart by anything, so they are a list of
whatever type here, and a column is a function on its members
(`Table.HasInts`). What a script does then is read off one command after
another: a selection holds the rows that pass a test, a fetch the integers of
these rows, and an aggregate fails where the integers do not fit.

`answer` is what a scenario gives from some command on, by what was printed
and assigned before. There is one equation for each command.

Key definitions: `Window.holds`, `Table.HasInts`, `Table.HasIntegers`,
`Table.integer`, `positionsWhere`, `Scenario.answer`.
Key theorems: `map_cell_positionsWhere`, `Scenario.evaluate_eq_answer`,
`Scenario.answer_select`, `Scenario.answer_fetch`, `Scenario.answer_selectFrom`,
`Scenario.answer_arithmetic`.
-/
import Columnar.Proofs.Continuation
import Columnar.Proofs.Integers
import Columnar.Proofs.Printing

namespace Columnar

/-! ### Windows -/

/-- Whether an integer lies in the window. -/
def Window.holds (w : Window) (n : Int64) : Bool := w.low ≤ n && n < w.high

theorem Window.contains_range (w : Window) (n : Int64) : w.range.contains (.int n) = w.holds n := by
  rw [Bool.eq_iff_iff]
  simp only [range, Range.contains, Bound.admitsAsLow, Bound.admitsAsHigh, Value.compare?, holds,
    Bool.and_eq_true, Bool.or_eq_true, beq_iff_eq, Option.some.injEq, Int.compare_eq_gt,
    Int.compare_eq_lt, Int.compare_eq_eq, decide_eq_true_eq, Int64.le_iff_toInt_le,
    Int64.lt_iff_toInt_lt]
  omega

/-! ### Rows under any names -/

section

variable {ρ : Type}

/-- The column of a field holds these integers, row by row. -/
def Table.HasInts (t : Table) (rows : List ρ) (field : String) (f : ρ → Int64) : Prop :=
  t.column? field = some (Column.ofInts field (rows.map f))

/-- The rows whose integer lies in the window. -/
def Window.rowsIn (w : Window) (f : ρ → Int64) (rows : List ρ) : List ρ :=
  rows.filter fun r => w.holds (f r)

/-- The positions of the rows that pass a test. -/
def positionsWhere (rows : List ρ) (p : ρ → Bool) : PositionSet :=
  (PositionSet.all rows.length).filter fun i => rows[i]?.any p

/-- What is read at the positions is read off the rows that pass the test. -/
theorem map_filter_range {β : Type} {p : ρ → Bool} {g : ρ → β} : ∀ {rows : List ρ} {f : Nat → β},
    (∀ i r, rows[i]? = some r → f i = g r) →
    ((List.range rows.length).filter fun i => rows[i]?.any p).map f = (rows.filter p).map g
  | [], _, _ => rfl
  | r :: rows, f, h => by
    have hrest : ∀ i r', rows[i]? = some r' → f (i + 1) = g r' := fun i r' hr' =>
      h (i + 1) r' (by simpa using hr')
    have ih := map_filter_range (p := p) hrest
    have htail : (((List.range rows.length).map Nat.succ).filter
        fun i => (r :: rows)[i]?.any p).map f = (rows.filter p).map g := by
      rw [List.filter_map, List.map_map, ← ih]
      simp [Function.comp_def]
    rw [List.length_cons, List.range_succ_eq_map, List.filter_cons, List.filter_cons]
    simp only [List.getElem?_cons_zero, Option.any_some]
    split
    · rw [List.map_cons, List.map_cons, htail, h 0 r rfl]
    · exact htail

theorem getElem?_ofInts (field : String) (rows : List ρ) (f : ρ → Int64) (i : Nat) :
    (Column.ofInts field (rows.map f)).values[i]? = rows[i]?.map fun r => .int (f r) := by
  simp [Column.ofInts, Function.comp_def]

theorem inRange_ofInts (field : String) (rows : List ρ) (f : ρ → Int64) (range : Range) (i : Nat) :
    (Column.ofInts field (rows.map f)).inRange range i =
      rows[i]?.any fun r => range.contains (.int (f r)) := by
  rw [Column.inRange, getElem?_ofInts]
  cases rows[i]? <;> rfl

theorem size_ofInts (field : String) (rows : List ρ) (f : ρ → Int64) :
    (Column.ofInts field (rows.map f)).size = rows.length := by
  simp [Column.size, Column.ofInts]

theorem select_ofInts (field : String) (rows : List ρ) (f : ρ → Int64) (range : Range) :
    (Column.ofInts field (rows.map f)).select range =
      positionsWhere rows fun r => range.contains (.int (f r)) := by
  rw [Column.select, size_ofInts, positionsWhere]
  congr 1
  exact funext (inRange_ofInts field rows f range)

theorem filter_positionsWhere (field : String) (rows : List ρ) (f : ρ → Int64) (w : Window)
    (p : ρ → Bool) :
    (positionsWhere rows p).filter ((Column.ofInts field (rows.map f)).inRange w.range) =
      positionsWhere rows fun r => p r && w.holds (f r) := by
  refine PositionSet.ext ?_
  simp only [positionsWhere, PositionSet.filter, List.filter_filter]
  refine List.filter_congr fun i _ => ?_
  rw [inRange_ofInts]
  cases rows[i]? with
  | none => rfl
  | some r =>
    rw [Option.any_some, Option.any_some, Option.any_some, w.contains_range, Bool.and_comm]

/-- The integers of the rows that pass a test. -/
theorem map_cell_positionsWhere (field : String) (rows : List ρ) (f : ρ → Int64) (p : ρ → Bool) :
    (positionsWhere rows p).positions.map (Column.ofInts field (rows.map f)).cell =
      ints (integersOf f (rows.filter p)) := by
  rw [ints, integersOf, List.map_map]
  refine map_filter_range fun i r hr => ?_
  simp [Column.cell, Array.getD_eq_getD_getElem?, getElem?_ofInts, hr, Value.int_eq_ofInt]

theorem scan_ofInts (field : String) (rows : List ρ) (f : ρ → Int64) :
    (Column.ofInts field (rows.map f)).scan = ints (integersOf f rows) := by
  simp [Column.scan, Column.ofInts, ints, integersOf, Function.comp_def, Value.int_eq_ofInt]

/-- The table has the field, and all its values are integers. -/
def Table.HasIntegers (t : Table) (field : String) : Prop :=
  ∃ col, t.column? field = some col ∧ ∀ v ∈ col.values, v.isFloat = false

/-- The integer of a field at a row; where there is none, zero. -/
def Table.integer (t : Table) (field : String) (row : Nat) : Int64 :=
  match t.column? field with
  | some col =>
    match col.cell row with
    | .int n => n
    | .float _ => 0
  | none => 0

/-- Told apart by their positions, the rows have the integers that stand
there. -/
theorem Table.HasIntegers.hasInts {t : Table} {field : String} (h : t.HasIntegers field) :
    t.HasInts (List.range t.rowCount) field (t.integer field) := by
  obtain ⟨col, hcol, hints⟩ := h
  have hname : col.name = field := by simpa using List.find?_some hcol
  have hsize : col.values.size = t.rowCount := size_column? hcol
  have hvalues : col.values =
      (((List.range t.rowCount).map (t.integer field)).map Value.int).toArray := by
    refine Array.ext (by simpa using hsize) fun i hi _ => ?_
    have hcell : col.cell i = col.values[i] := by simp [Column.cell, Array.getD, hi]
    cases hv : col.values[i] with
    | float x => exact absurd (hints _ (Array.getElem_mem hi)) (by simp [hv, Value.isFloat])
    | int n => simp [integer, hcol, hcell, hv]
  rw [HasInts, hcol, Column.ofInts, ← hvalues, ← hname]

theorem Table.HasInts.rowCount {t : Table} {rows : List ρ} {field : String} {f : ρ → Int64}
    (h : t.HasInts rows field f) : t.rowCount = rows.length := by
  rw [← size_column? h, size_ofInts]

end

/-! ### What is assigned -/

/-- What variables hold, the latest first. -/
abbrev Bindings := List (String × Binding)

/-- An assignment hides nothing but what its target held. -/
theorem lookup_cons_of_ne {Γ : Bindings} {name target : String} {b c : Binding}
    (hne : (name == target) = false) (h : Γ.lookup name = some b) :
    ((target, c) :: Γ).lookup name = some b := by
  rw [List.lookup_cons, hne]
  exact h

namespace Session

/-- A session in which nothing was inserted, by what its variables hold. -/
def holding (catalog : Catalog) (Γ : Bindings) : Session :=
  ⟨catalog, fun _ => 0, fun name => Γ.lookup name⟩

theorem after_assign_holding (catalog : Catalog) (Γ : Bindings) (target : String) (b : Binding) :
    (holding catalog Γ).after (.assign target b) = holding catalog ((target, b) :: Γ) := by
  refine Session.ext rfl rfl (funext fun name => ?_)
  show (if name = target then some b else Γ.lookup name) = ((target, b) :: Γ).lookup name
  by_cases hname : name = target
  · rw [if_pos hname, hname, List.lookup_cons_self]
  · rw [if_neg hname, List.lookup_cons, beq_false_of_ne hname]

end Session

section

variable {ρ : Type}

/-- The rows that pass a test, in a variable. -/
def Binding.rowsWhere (table : String) (rows : List ρ) (p : ρ → Bool) : Binding :=
  .selection ⟨positionsWhere rows p, table, 0⟩

/-- Integers that were fetched from a field at positions. -/
def Binding.fetched (table : String) (positions : PositionSet) (field : String) (xs : List Int) :
    Binding :=
  .vector (ints xs) (some ⟨qualify table field, positions⟩)

end

namespace Scenario

open Session

/-! ### One equation for each command -/

/-- What a scenario gives, by what was printed and what the variables hold
before its last commands. -/
def answer (catalog : Catalog) (printed : String) (Γ : Bindings) (cs : List Command) :
    Except Fault (String × Catalog) :=
  report (runFrom printed (holding catalog Γ) cs)

theorem evaluate_eq_answer (s : Scenario) (catalog : Catalog) :
    s.evaluate catalog = answer catalog "" [] s.commands := by
  have hstart : holding catalog [] = start catalog := rfl
  unfold evaluate answer run
  rw [hstart]
  rcases runFrom "" (start catalog) s.commands with ⟨fault | text, last⟩ <;> rfl

section

variable {catalog : Catalog} {printed : String} {Γ : Bindings} {cs : List Command} {c : Command}

theorem answer_nil : answer catalog printed Γ [] = .ok (printed, catalog) := rfl

theorem answer_assign {target : String} {b : Binding}
    (h : (holding catalog Γ).effect c = .ok (.assign target b)) :
    answer catalog printed Γ (c :: cs) = answer catalog printed ((target, b) :: Γ) cs := by
  unfold answer
  rw [runFrom, h]
  show report (runFrom (printed ++ "") ((holding catalog Γ).after (.assign target b)) cs) = _
  rw [after_assign_holding, String.append_empty]

theorem answer_output {text : String} (h : (holding catalog Γ).effect c = .ok (.output text)) :
    answer catalog printed Γ (c :: cs) = answer catalog (printed ++ text) Γ cs := by
  unfold answer
  rw [runFrom, h]
  rfl

theorem answer_fault {fault : Fault} (h : (holding catalog Γ).effect c = .error fault) :
    answer catalog printed Γ (c :: cs) = .error fault := by
  unfold answer
  rw [runFrom, h]
  rfl

theorem answer_nothing (h : (holding catalog Γ).effect c = .ok .nothing) :
    answer catalog printed Γ (c :: cs) = answer catalog printed Γ cs := by
  unfold answer
  rw [runFrom, h]
  show report (runFrom (printed ++ "") (holding catalog Γ) cs) = _
  rw [String.append_empty]

theorem answer_comment {text : String} :
    answer catalog printed Γ (.comment text :: cs) = answer catalog printed Γ cs :=
  answer_nothing rfl

theorem answer_blank :
    answer catalog printed Γ (.blank :: cs) = answer catalog printed Γ cs :=
  answer_nothing rfl

section

variable {ρ : Type} {table field : String} {t : Table} {rows : List ρ} {f : ρ → Int64}
  (ht : catalog.find? table = some t) (hdot : '.' ∉ field.toList) (h : t.HasInts rows field f)

include ht hdot h

/-- A selection by a range, which is a test of integers. -/
theorem answer_selectRange {target : String} {range : Range} {p : ρ → Bool}
    (hp : ∀ r, range.contains (.int (f r)) = p r) :
    answer catalog printed Γ (.select target (qualify table field) range :: cs) =
      answer catalog printed ((target, .rowsWhere table rows p) :: Γ) cs := by
  obtain rfl := Catalog.name_of_find? ht
  obtain rfl : (fun r => range.contains (.int (f r))) = p := funext hp
  refine answer_assign ?_
  rw [effect_select_of_table ht hdot h, select_ofInts]
  rfl

theorem answer_select {target : String} {w : Window} :
    answer catalog printed Γ (.select target (qualify table field) w.range :: cs) =
      answer catalog printed
        ((target, .rowsWhere table rows fun r => w.holds (f r)) :: Γ) cs :=
  answer_selectRange ht hdot h fun r => w.contains_range (f r)

omit hdot in
theorem holdsRows_holding {name : String} {p : ρ → Bool}
    (hname : Γ.lookup name = some (.rowsWhere t.name rows p)) (htable : table = t.name) :
    (holding catalog Γ).HoldsRows t name (positionsWhere rows p) where
  registered := htable ▸ ht
  binding := hname
  inBounds i hi := by
    rw [h.rowCount]
    exact PositionSet.mem_all.mp (PositionSet.mem_filter.mp hi).1

theorem answer_fetch {target positions : String} {p : ρ → Bool} {kept : List ρ}
    (hkept : rows.filter p = kept)
    (hpositions : Γ.lookup positions = some (.rowsWhere table rows p)) :
    answer catalog printed Γ (.fetch target (qualify table field) positions :: cs) =
      answer catalog printed
        ((target, .fetched table (positionsWhere rows p) field (integersOf f kept)) :: Γ) cs := by
  obtain rfl := Catalog.name_of_find? ht
  have hrows := holdsRows_holding ht h hpositions rfl
  refine answer_assign ?_
  rw [effect_fetch_of_rows hrows hdot h, map_cell_positionsWhere, hkept]
  rfl

/-- A selection from what was fetched narrows it by a second window. -/
theorem answer_selectFrom {target positions vector : String} {p : ρ → Bool} {w : Window}
    (hpositions : Γ.lookup positions = some (.rowsWhere table rows p))
    (hvector : Γ.lookup vector =
      some (.fetched table (positionsWhere rows p) field (integersOf f (rows.filter p)))) :
    answer catalog printed Γ (.selectFrom target positions vector w.range :: cs) =
      answer catalog printed
        ((target, .rowsWhere table rows fun r => p r && w.holds (f r)) :: Γ) cs := by
  obtain rfl := Catalog.name_of_find? ht
  have hrows := holdsRows_holding ht h hpositions rfl
  have hbinding : (holding catalog Γ).bindings vector = some (.vector
      ((positionsWhere rows p).positions.map (Column.ofInts field (rows.map f)).cell)
      (some ⟨qualify t.name field, positionsWhere rows p⟩)) := by
    rw [map_cell_positionsWhere]
    exact hvector
  refine answer_assign ?_
  rw [effect_selectFrom_of_rows hrows hdot h hbinding, filter_positionsWhere]
  rfl

theorem operand_stored : (holding catalog Γ).operand (.stored (qualify table field)) =
    .ok (ints (integersOf f rows)) := by
  rw [operand, show (holding catalog Γ).catalog = catalog from rfl,
    Catalog.resolve_qualify ht hdot h, ok_bind, scan_ofInts]
  rfl

end

theorem operand_assigned {name : String} {values : List Value} {source : Option Provenance}
    (h : Γ.lookup name = some (.vector values source)) :
    (holding catalog Γ).operand (.assigned name) = .ok values := by
  rw [operand, vector_eq_ok_iff.mpr (show (holding catalog Γ).bindings name = _ from h), ok_bind]
  rfl

section

variable {target : String} {source : Source} {xs : List Int}
  (h : (holding catalog Γ).operand source = .ok (ints xs)) (hxs : ∀ x ∈ xs, InInt64 x)

include h hxs

theorem answer_sum : answer catalog printed Γ (.aggregate target .sum source :: cs) =
    if PrefixesFit xs then
      answer catalog printed ((target, .scalar (.value (.ofInt xs.sum))) :: Γ) cs
    else .error .overflow := by
  have hsum := sumOf_ints hxs
  by_cases hfit : PrefixesFit xs
  · rw [if_pos hfit] at hsum ⊢
    refine answer_assign ?_
    rw [effect, h, ok_bind, Aggregate.apply, hsum]
    rfl
  · rw [if_neg hfit] at hsum ⊢
    refine answer_fault ?_
    rw [effect, h, ok_bind, Aggregate.apply, hsum]
    rfl

theorem answer_average : answer catalog printed Γ (.aggregate target .average source :: cs) =
    answer catalog printed ((target, .scalar (.average (meanOf xs))) :: Γ) cs := by
  refine answer_assign ?_
  rw [effect, h, ok_bind, Aggregate.apply, averageOf_ints hxs]
  rfl

theorem answer_extreme {function : Aggregate} {m : Int} (hm : function.extreme? xs = some m) :
    answer catalog printed Γ (.aggregate target function source :: cs) =
      answer catalog printed ((target, .scalar (.value (.ofInt m))) :: Γ) cs := by
  refine answer_assign ?_
  rw [effect, h, ok_bind, Aggregate.apply_extreme hm hxs]
  rfl

end

/-- There is no least value of nothing. -/
theorem answer_least_nil {target : String} {source : Source}
    (h : (holding catalog Γ).operand source = .ok []) :
    answer catalog printed Γ (.aggregate target .least source :: cs) =
      .error (.emptyAggregate .least) := by
  refine answer_fault ?_
  rw [effect, h]
  rfl

theorem answer_arithmetic {ρ : Type} {rows : List ρ} {f g : ρ → Int64}
    {target left right : String} {op : Arithmetic} {s s' : Option Provenance}
    (hleft : Γ.lookup left = some (.vector (ints (integersOf f rows)) s))
    (hright : Γ.lookup right = some (.vector (ints (integersOf g rows)) s')) :
    answer catalog printed Γ (.arithmetic target op left right :: cs) =
      if ∀ x ∈ op.results f g rows, InInt64 x then
        answer catalog printed ((target, .vector (ints (op.results f g rows)) none) :: Γ) cs
      else .error .overflow := by
  have hx : (holding catalog Γ).vector left = .ok (ints (integersOf f rows), s) :=
    vector_eq_ok_iff.mpr hleft
  have hy : (holding catalog Γ).vector right = .ok (ints (integersOf g rows), s') :=
    vector_eq_ok_iff.mpr hright
  have hresult := op.apply_ints f g rows
  by_cases hfit : ∀ x ∈ op.results f g rows, InInt64 x
  · rw [if_pos hfit] at hresult ⊢
    refine answer_assign ?_
    simp only [effect, hx, hy, ok_bind, hresult]
  · rw [if_neg hfit] at hresult ⊢
    refine answer_fault ?_
    simp only [effect, hx, hy, ok_bind, hresult]
    rfl

theorem answer_print_ints {name : String} {xs : List Int} {source : Option Provenance}
    (h : Γ.lookup name = some (.vector (ints xs) source)) (hxs : ∀ x ∈ xs, InInt64 x) :
    answer catalog printed Γ (.print [name] :: cs) =
      answer catalog (printed ++ unlines (xs.map Int.repr)) Γ cs := by
  have hfields : (ints xs).map Value.field = xs.map Int.repr := by
    rw [ints, List.map_map]
    exact List.map_congr_left fun x hx => Value.field_ofInt (hxs x hx)
  refine answer_output ?_
  rw [effect_print_vector (show (holding catalog Γ).bindings name = _ from h), vectorText, hfields]

theorem mapM_printable_scalars : ∀ {names : List String} {xs : List Scalar},
    names.map (Γ.lookup ·) = xs.map (fun x => some (.scalar x)) →
    names.mapM (holding catalog Γ).printable = .ok (xs.map .scalar)
  | [], [], _ => rfl
  | [], _ :: _, h => by simp at h
  | _ :: _, [], h => by simp at h
  | name :: names, x :: xs, h => by
    obtain ⟨hname, hnames⟩ := List.cons.inj h
    rw [List.mapM_cons, printable_of_scalar (show (holding catalog Γ).bindings name = _ from hname),
      ok_bind, mapM_printable_scalars hnames]
    rfl

theorem answer_print_scalars {names : List String} (xs : List Scalar) (hne : xs ≠ [])
    (h : names.map (Γ.lookup ·) = xs.map (fun x => some (.scalar x))) :
    answer catalog printed Γ (.print names :: cs) =
      answer catalog (printed ++ rowsText [xs.map Scalar.field]) Γ cs := by
  refine answer_output ?_
  rw [effect, mapM_printable_scalars h, ok_bind, printed_scalars hne]
  rfl

theorem answer_print_value {name : String} {i : Int} (hi : InInt64 i)
    (h : Γ.lookup name = some (.scalar (.value (.ofInt i)))) :
    answer catalog printed Γ (.print [name] :: cs) =
      answer catalog (printed ++ unlines [i.repr]) Γ cs := by
  have hline : rowsText [[(Value.ofInt i).field]] = unlines [i.repr] := by
    rw [Value.field_ofInt hi]
    simp [rowsText]
  refine .trans (answer_print_scalars [.value (.ofInt i)] (List.cons_ne_nil _ _) ?_) ?_
  · rw [List.map_singleton, h, List.map_singleton]
  · exact congrArg (fun text => answer catalog (printed ++ text) Γ cs) hline

end

end Scenario
end Columnar
