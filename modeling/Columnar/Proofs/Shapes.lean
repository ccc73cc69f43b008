/-
# Scripts whose faults are known beforehand

A script on one table of integers can be gone through without the table. Of
every variable it is known what shape its content has: rows that meet some
conditions, integers for these rows within a bound, or a single result
(`Shape`). The rules say which commands may follow and what is known then
(`Typed`). They keep the bounds so low that nothing overflows, and take note of
every least or greatest value that is asked for (`TypedScript`).

Whatever the table, such a script ends in no fault but one: a least or
greatest value of the rows that meet the conditions, of which there are none.
The first one in the script decides (`Session.run_of_typedScript`).

Key definitions: `Schema`, `Shape`, `Typed`, `TypedScript`,
`Session.HasShapes`.
Key theorems: `Session.effect_of_typed`, `Session.run_of_typedScript`.
-/
import Columnar.Proofs.Bounds
import Columnar.Proofs.Narrowing

namespace Columnar

/-! ### The table -/

/-- What is known of a table beforehand: its name, a bound on its rows, and
for some fields a bound on the distance of their integers from zero. -/
structure Schema where
  table : String
  rows : Nat
  fields : List (String × Nat)

/-- The table has the field, of integers no further than `b` from zero. -/
def Table.HasWithin (t : Table) (field : String) (b : Nat) : Prop :=
  ∃ col, t.column? field = some col ∧ ∀ v ∈ col.values, v.Within b

structure Table.Conforms (t : Table) (σ : Schema) : Prop where
  name : t.name = σ.table
  rowCount : t.rowCount ≤ σ.rows
  fields : ∀ f ∈ σ.fields, '.' ∉ f.1.toList ∧ t.HasWithin f.1 f.2

theorem Table.Conforms.field {t : Table} {σ : Schema} (h : t.Conforms σ) {field : String} {b : Nat}
    (hfield : σ.fields.lookup field = some b) : '.' ∉ field.toList ∧ t.HasWithin field b := by
  obtain ⟨before, after, heq, -⟩ := List.lookup_eq_some_iff.mp hfield
  exact h.fields (field, b) (heq ▸ List.mem_append_right before List.mem_cons_self)

/-- The rows that meet all conditions. -/
def Table.rowsMeeting (t : Table) (conditions : List Condition) : PositionSet :=
  (PositionSet.all t.rowCount).filter (t.meets conditions)

theorem Table.rowsMeeting_nil (t : Table) : t.rowsMeeting [] = PositionSet.all t.rowCount :=
  PositionSet.ext (by simp [rowsMeeting, PositionSet.filter, meets])

/-- A condition more leaves those of the rows that meet it too. -/
theorem Table.rowsMeeting_cons {t : Table} {c : Condition} {col : Column}
    (hcol : t.column? c.column = some col) (conditions : List Condition) :
    t.rowsMeeting (c :: conditions) = (t.rowsMeeting conditions).filter (col.inRange c.range) := by
  refine PositionSet.ext ?_
  simp only [rowsMeeting, PositionSet.filter, List.filter_filter]
  refine List.filter_congr fun row _ => ?_
  simp only [meets, List.all_cons, hcol]

/-- A least or greatest value that is asked for, of values at the rows that
meet the conditions. -/
structure Demand where
  function : Aggregate
  conditions : List Condition

/-- Whether there is no row for a demand. -/
def Table.lacks (t : Table) (d : Demand) : Bool := (t.rowsMeeting d.conditions).positions.isEmpty

theorem Table.lacks_eq_false_iff {t : Table} {d : Demand} :
    t.lacks d = false ↔ ∃ row < t.rowCount, t.meets d.conditions row = true := by
  simp [lacks, rowsMeeting, PositionSet.filter, PositionSet.all]

/-! ### The rules -/

/-- What is known of the content of a variable. -/
inductive Shape where
  /-- The rows that meet the conditions, of the table as it is now. -/
  | rows (conditions : List Condition)
  /-- Integers within the bound, one for each of these rows; the values of the
  field there, if one is given. -/
  | vector (conditions : List Condition) (field : Option String) (bound : Nat)
  | scalar

/-- What is known of the variables, the latest first. -/
abbrev Shapes := List (String × Shape)

/-- What is known of a target hides what was known of it before and of nothing
else. -/
theorem Shapes.forall_lookup_cons {P : String → Shape → Prop} {Γ : Shapes} {target : String}
    {shape : Shape} (hnew : P target shape)
    (hold : ∀ name known, name ≠ target → Γ.lookup name = some known → P name known) :
    ∀ name known, ((target, shape) :: Γ).lookup name = some known → P name known := by
  intro name known hlookup
  by_cases hname : name = target
  · subst hname
    rw [List.lookup_cons_self, Option.some.injEq] at hlookup
    exact hlookup ▸ hnew
  · rw [List.lookup_cons, beq_false_of_ne hname] at hlookup
    exact hold name known hname hlookup

/-- What an aggregate is taken of: integers within the bound, one for each row
that meets the conditions. -/
inductive TypedSource (σ : Schema) (Γ : Shapes) : Source → List Condition → Nat → Prop where
  | stored {field : String} {b : Nat} :
    σ.fields.lookup field = some b → TypedSource σ Γ (.stored (qualify σ.table field)) [] b
  | assigned {name : String} {conditions : List Condition} {field : Option String} {b : Nat} :
    Γ.lookup name = some (.vector conditions field b) →
    TypedSource σ Γ (.assigned name) conditions b

/-- The command cannot fail, and what is known after it. -/
inductive Typed (σ : Schema) (Γ : Shapes) : Command → Shapes → Prop where
  | comment {text : String} : Typed σ Γ (.comment text) Γ
  | blank : Typed σ Γ .blank Γ
  | select {target field : String} {b : Nat} {range : Range} :
    σ.fields.lookup field = some b →
    Typed σ Γ (.select target (qualify σ.table field) range)
      ((target, .rows [⟨field, range⟩]) :: Γ)
  | selectFrom {target positions vector field : String} {conditions : List Condition} {b : Nat}
      {range : Range} :
    Γ.lookup positions = some (.rows conditions) →
    Γ.lookup vector = some (.vector conditions (some field) b) →
    Typed σ Γ (.selectFrom target positions vector range)
      ((target, .rows (⟨field, range⟩ :: conditions)) :: Γ)
  | fetch {target field positions : String} {conditions : List Condition} {b : Nat} :
    Γ.lookup positions = some (.rows conditions) → σ.fields.lookup field = some b →
    Typed σ Γ (.fetch target (qualify σ.table field) positions)
      ((target, .vector conditions (some field) b) :: Γ)
  | average {target : String} {source : Source} {conditions : List Condition} {b : Nat} :
    TypedSource σ Γ source conditions b →
    Typed σ Γ (.aggregate target .average source) ((target, .scalar) :: Γ)
  | sum {target : String} {source : Source} {conditions : List Condition} {b : Nat} :
    TypedSource σ Γ source conditions b → σ.rows * b < 2 ^ 63 →
    Typed σ Γ (.aggregate target .sum source) ((target, .scalar) :: Γ)
  | arithmetic {target left right : String} {operation : Arithmetic}
      {conditions : List Condition} {f g : Option String} {a b : Nat} :
    Γ.lookup left = some (.vector conditions f a) →
    Γ.lookup right = some (.vector conditions g b) → a + b < 2 ^ 63 →
    Typed σ Γ (.arithmetic target operation left right)
      ((target, .vector conditions none (a + b)) :: Γ)
  | printVector {name : String} {conditions : List Condition} {field : Option String} {b : Nat} :
    Γ.lookup name = some (.vector conditions field b) → Typed σ Γ (.print [name]) Γ
  | printScalars {names : List String} :
    names.map (Γ.lookup ·) = names.map (fun _ => some Shape.scalar) → Typed σ Γ (.print names) Γ

/-- A script of such commands and of least and greatest values, all of these
noted in order. -/
inductive TypedScript (σ : Schema) : Shapes → List Command → Shapes → List Demand → Prop where
  | nil {Γ : Shapes} : TypedScript σ Γ [] Γ []
  | cons {Γ Δ Θ : Shapes} {c : Command} {cs : List Command} {demands : List Demand} :
    Typed σ Γ c Δ → TypedScript σ Δ cs Θ demands → TypedScript σ Γ (c :: cs) Θ demands
  | extreme {Γ Θ : Shapes} {target : String} {function : Aggregate} {source : Source}
      {conditions : List Condition} {b : Nat} {cs : List Command} {demands : List Demand} :
    TypedSource σ Γ source conditions b → function = .least ∨ function = .greatest →
    TypedScript σ ((target, .scalar) :: Γ) cs Θ demands →
    TypedScript σ Γ (.aggregate target function source :: cs) Θ (⟨function, conditions⟩ :: demands)

theorem TypedScript.append {σ : Schema} {Γ Δ Θ : Shapes} {cs ds : List Command}
    {first second : List Demand} (h : TypedScript σ Γ cs Δ first)
    (h' : TypedScript σ Δ ds Θ second) : TypedScript σ Γ (cs ++ ds) Θ (first ++ second) := by
  induction h with
  | nil => exact h'
  | cons hc _ ih => exact .cons hc (ih h')
  | extreme hsource hfunction _ ih => exact .extreme hsource hfunction (ih h')

/-! ### What the shapes mean -/

namespace Session

/-- The variable holds integers within the bound, one for each row that meets
the conditions. -/
structure HoldsVector (s : Session) (t : Table) (name : String) (conditions : List Condition)
    (field : Option String) (b : Nat) (values : List Value) (source : Option Provenance) :
    Prop where
  binding : s.bindings name = some (.vector values source)
  length : values.length = (t.rowsMeeting conditions).positions.length
  within : ∀ v ∈ values, v.Within b
  fetched : ∀ f, field = some f → ∃ col, t.column? f = some col ∧ '.' ∉ f.toList ∧
    values = (t.rowsMeeting conditions).positions.map col.cell ∧
    source = some ⟨qualify t.name f, t.rowsMeeting conditions⟩

def HasShape (s : Session) (t : Table) (name : String) : Shape → Prop
  | .rows conditions =>
    s.bindings name =
      some (.selection ⟨t.rowsMeeting conditions, t.name, s.generation t.name⟩)
  | .vector conditions field b =>
    ∃ values source, s.HoldsVector t name conditions field b values source
  | .scalar => ∃ x, s.bindings name = some (.scalar x)

/-- The table is registered, and the variables have the shapes. -/
structure HasShapes (s : Session) (t : Table) (Γ : Shapes) : Prop where
  registered : s.catalog.find? t.name = some t
  shape : ∀ name shape, Γ.lookup name = some shape → s.HasShape t name shape

theorem HasShape.after_assign {s : Session} {t : Table} {name target : String} {shape : Shape}
    (h : s.HasShape t name shape) (b : Binding) (hne : name ≠ target) :
    (s.after (.assign target b)).HasShape t name shape := by
  have hbinding := bindings_after_assign_of_ne s b hne
  cases shape with
  | rows conditions => exact hbinding.trans h
  | vector conditions field bound =>
    obtain ⟨values, source, hv⟩ := h
    exact ⟨values, source, hbinding.trans hv.binding, hv.length, hv.within, hv.fetched⟩
  | scalar =>
    obtain ⟨x, hx⟩ := h
    exact ⟨x, hbinding.trans hx⟩

/-- An assignment hides what was known of its target and of nothing else. -/
theorem HasShapes.after_assign {s : Session} {t : Table} {Γ : Shapes} (h : s.HasShapes t Γ)
    {target : String} {b : Binding} {shape : Shape}
    (hshape : (s.after (.assign target b)).HasShape t target shape) :
    (s.after (.assign target b)).HasShapes t ((target, shape) :: Γ) where
  registered := h.registered
  shape := Shapes.forall_lookup_cons hshape fun name known hname hlookup =>
    (h.shape name known hlookup).after_assign b hname

theorem HasShapes.holdsRows {s : Session} {t : Table} {Γ : Shapes} (h : s.HasShapes t Γ)
    {name : String} {conditions : List Condition}
    (hlookup : Γ.lookup name = some (.rows conditions)) :
    s.HoldsRows t name (t.rowsMeeting conditions) where
  registered := h.registered
  binding := h.shape name _ hlookup
  inBounds _ hp := PositionSet.mem_all.mp (PositionSet.mem_filter.mp hp).1

/-! ### A typed command succeeds -/

section

variable {σ : Schema} {t : Table} {s : Session} {Γ Δ : Shapes}

theorem within_of_typed {field : String} {b : Nat} (ht : t.Conforms σ)
    (h : σ.fields.lookup field = some b) :
    '.' ∉ field.toList ∧ ∃ col, t.column? field = some col ∧ col.size = t.rowCount ∧
      ∀ row < t.rowCount, (col.cell row).Within b := by
  obtain ⟨hdot, col, hcol, hwithin⟩ := ht.field h
  have hsize := Table.size_column? hcol
  refine ⟨hdot, col, hcol, hsize, fun row hrow => ?_⟩
  have hlt : row < col.size := hsize ▸ hrow
  exact hwithin _ (Array.mem_of_getElem? (Column.getElem?_eq_cell hlt))

/-- A selection holds the rows that meet its condition. -/
theorem effect_select_meeting {field : String} {col : Column}
    (ht : s.catalog.find? t.name = some t) (hdot : '.' ∉ field.toList)
    (hcol : t.column? field = some col) (target : String) (range : Range) :
    s.effect (.select target (qualify t.name field) range) =
      .ok (.assign target
        (.selection ⟨t.rowsMeeting [⟨field, range⟩], t.name, s.generation t.name⟩)) := by
  have hrows : col.select range = t.rowsMeeting [⟨field, range⟩] := by
    rw [Table.rowsMeeting_cons hcol, t.rowsMeeting_nil, Column.select, Table.size_column? hcol]
  rw [effect_select_of_table ht hdot hcol, hrows]

/-- A selection from values that were fetched holds the rows that meet its
condition too. -/
theorem effect_selectFrom_meeting {positions vector field : String} {col : Column}
    {conditions : List Condition} (h : s.HoldsRows t positions (t.rowsMeeting conditions))
    (hdot : '.' ∉ field.toList) (hcol : t.column? field = some col)
    (hvector : s.bindings vector = some (.vector
      ((t.rowsMeeting conditions).positions.map col.cell)
      (some ⟨qualify t.name field, t.rowsMeeting conditions⟩)))
    (target : String) (range : Range) :
    s.effect (.selectFrom target positions vector range) =
      .ok (.assign target
        (.selection ⟨t.rowsMeeting (⟨field, range⟩ :: conditions), t.name,
          s.generation t.name⟩)) := by
  have hrows := Table.rowsMeeting_cons (c := ⟨field, range⟩) hcol conditions
  rw [effect_selectFrom_of_rows h hdot hcol hvector, hrows]

theorem operand_of_typed (ht : t.Conforms σ) (hs : s.HasShapes t Γ) {source : Source}
    {conditions : List Condition} {b : Nat} (h : TypedSource σ Γ source conditions b) :
    ∃ values, s.operand source = .ok values ∧
      values.length = (t.rowsMeeting conditions).positions.length ∧ ∀ v ∈ values, v.Within b := by
  cases h with
  | assigned hlookup =>
    obtain ⟨values, source, hv⟩ := hs.shape _ _ hlookup
    refine ⟨values, ?_, hv.length, hv.within⟩
    rw [operand, vector_eq_ok_iff.mpr hv.binding]
    rfl
  | @stored field b hfield =>
    obtain ⟨hdot, col, hcol, hwithin⟩ := ht.field hfield
    refine ⟨col.scan, ?_, ?_, ?_⟩
    · rw [operand, ← ht.name, Catalog.resolve_qualify hs.registered hdot hcol]
      rfl
    · rw [t.rowsMeeting_nil, ← Table.size_column? hcol]
      simp [Column.scan, Column.size, PositionSet.all]
    · intro v hv
      exact hwithin v (Array.mem_toList_iff.mp hv)

theorem length_rowsMeeting_le (ht : t.Conforms σ) (conditions : List Condition) :
    (t.rowsMeeting conditions).positions.length ≤ σ.rows := by
  have hfilter : (t.rowsMeeting conditions).positions.length ≤ (List.range t.rowCount).length :=
    List.length_filter_le _ _
  rw [List.length_range] at hfilter
  exact Nat.le_trans hfilter ht.rowCount

theorem effect_aggregate_of_typed (ht : t.Conforms σ) (hs : s.HasShapes t Γ) {source : Source}
    {conditions : List Condition} {b : Nat} (h : TypedSource σ Γ source conditions b)
    {function : Aggregate} {target : String}
    (hfunction : ∀ values : List Value,
      values.length = (t.rowsMeeting conditions).positions.length → (∀ v ∈ values, v.Within b) →
      ∃ x, function.apply values = .ok x) :
    ∃ e, s.effect (.aggregate target function source) = .ok e ∧
      (s.after e).HasShapes t ((target, .scalar) :: Γ) := by
  obtain ⟨values, hvalues, hlength, hwithin⟩ := operand_of_typed ht hs h
  obtain ⟨x, hx⟩ := hfunction values hlength hwithin
  exact ⟨_, effect_of_performs (.aggregate hvalues hx),
    hs.after_assign ⟨x, bindings_after_assign ..⟩⟩

theorem exists_scalars : ∀ {names : List String},
    (∀ name ∈ names, ∃ x, s.bindings name = some (.scalar x)) →
    ∃ xs : List Scalar, names.mapM s.printable = .ok (xs.map .scalar)
  | [], _ => ⟨[], rfl⟩
  | name :: names, h => by
    obtain ⟨⟨x, hx⟩, hnames⟩ := List.forall_mem_cons.mp h
    obtain ⟨xs, hxs⟩ := exists_scalars hnames
    refine ⟨x :: xs, ?_⟩
    rw [List.mapM_cons, printable_of_scalar hx, ok_bind, hxs]
    rfl

theorem exists_printed_scalars : ∀ xs : List Scalar, ∃ text, printed (xs.map .scalar) = .ok text
  | [] => ⟨_, rfl⟩
  | x :: xs => by
    have heven : ((xs.map Printable.scalar).map Printable.fields).find?
        (fun c => c.size ≠ (Printable.scalar x).fields.size) = none := by
      simp [Printable.fields]
    change ∃ text, sideBySide (((x :: xs).map Printable.scalar).map Printable.fields) = .ok text
    rw [List.map_cons, List.map_cons, sideBySide, heven]
    exact ⟨_, rfl⟩

/-- **A typed command succeeds**, and the variables have the shapes that are
known after it. -/
theorem effect_of_typed (ht : t.Conforms σ) (hs : s.HasShapes t Γ) {c : Command}
    (h : Typed σ Γ c Δ) : ∃ e, s.effect c = .ok e ∧ (s.after e).HasShapes t Δ := by
  cases h with
  | comment | blank => exact ⟨.nothing, rfl, hs⟩
  | @select target field b range hfield =>
    obtain ⟨hdot, col, hcol, -⟩ := within_of_typed ht hfield
    have heffect := effect_select_meeting hs.registered hdot hcol target range
    rw [← ht.name]
    exact ⟨_, heffect, hs.after_assign (bindings_after_assign ..)⟩
  | @selectFrom target positions vector field conditions b range hpositions hvector =>
    obtain ⟨values, source, hv⟩ := hs.shape _ _ hvector
    obtain ⟨col, hcol, hdot, rfl, rfl⟩ := hv.fetched field rfl
    have heffect := effect_selectFrom_meeting (hs.holdsRows hpositions) hdot hcol hv.binding
      target range
    exact ⟨_, heffect, hs.after_assign (bindings_after_assign ..)⟩
  | @fetch target field positions conditions b hpositions hfield =>
    obtain ⟨hdot, col, hcol, -, hwithin⟩ := within_of_typed ht hfield
    have hrows := hs.holdsRows hpositions
    rw [← ht.name]
    refine ⟨_, effect_fetch_of_rows hrows hdot hcol target, ?_⟩
    refine hs.after_assign ⟨_, _, bindings_after_assign .., List.length_map _, ?_, ?_⟩
    · intro v hv
      obtain ⟨row, hrow, rfl⟩ := List.mem_map.mp hv
      exact hwithin row (hrows.inBounds row hrow)
    · rintro f ⟨⟩
      exact ⟨col, hcol, hdot, rfl, rfl⟩
  | average hsource =>
    exact effect_aggregate_of_typed ht hs hsource fun values _ _ => ⟨_, rfl⟩
  | @sum target source conditions b hsource hlt =>
    refine effect_aggregate_of_typed ht hs hsource fun values hlength hwithin => ?_
    have hle : values.length ≤ σ.rows := hlength ▸ length_rowsMeeting_le ht conditions
    obtain ⟨v, hv⟩ := exists_sumOf hwithin (Nat.lt_of_le_of_lt (Nat.mul_le_mul_right b hle) hlt)
    refine ⟨.value v, ?_⟩
    rw [Aggregate.apply, hv]
    rfl
  | @arithmetic target left right operation conditions f g a b hleft hright hlt =>
    obtain ⟨xs, xsource, hx⟩ := hs.shape _ _ hleft
    obtain ⟨ys, ysource, hy⟩ := hs.shape _ _ hright
    obtain ⟨zs, hzs, hlength, hwithin⟩ :=
      Arithmetic.exists_apply operation (hx.length.trans hy.length.symm) hx.within hy.within hlt
    refine ⟨_, effect_of_performs (.arithmetic hx.binding hy.binding hzs), ?_⟩
    refine hs.after_assign
      ⟨zs, none, bindings_after_assign .., hlength.trans hx.length, hwithin, ?_⟩
    intro f hf
    cases hf
  | printVector hname =>
    obtain ⟨values, source, hv⟩ := hs.shape _ _ hname
    exact ⟨_, effect_print_vector hv.binding, hs⟩
  | printScalars hnames =>
    obtain ⟨xs, hxs⟩ := exists_scalars fun name hname =>
      hs.shape name _ (List.map_inj_left.mp hnames name hname)
    obtain ⟨text, htext⟩ := exists_printed_scalars xs
    exact ⟨_, effect_of_performs (.print hxs htext), hs⟩

/-! ### A typed script -/

/-- A least or greatest value of the rows of a demand fails if there are none,
and in no other case. -/
theorem effect_extreme_of_typed (ht : t.Conforms σ) (hs : s.HasShapes t Γ) {source : Source}
    {conditions : List Condition} {b : Nat} (h : TypedSource σ Γ source conditions b)
    {function : Aggregate} (hfunction : function = .least ∨ function = .greatest)
    (target : String) :
    if t.lacks ⟨function, conditions⟩ then
      s.effect (.aggregate target function source) = .error (.emptyAggregate function)
    else ∃ e, s.effect (.aggregate target function source) = .ok e ∧
      (s.after e).HasShapes t ((target, .scalar) :: Γ) := by
  obtain ⟨values, hvalues, hlength, -⟩ := operand_of_typed ht hs h
  have hempty : t.lacks ⟨function, conditions⟩ = values.isEmpty := by
    rw [Bool.eq_iff_iff, Table.lacks, List.isEmpty_iff_length_eq_zero,
      List.isEmpty_iff_length_eq_zero, hlength]
  rw [hempty]
  cases values with
  | nil =>
    have hfails : function.apply [] = .error (.emptyAggregate function) := by
      rcases hfunction with rfl | rfl <;> rfl
    rw [effect, hvalues, ok_bind, hfails]
    rfl
  | cons v vs =>
    have hfinds : ∃ x, function.apply (v :: vs) = .ok x := by
      rcases hfunction with rfl | rfl <;> exact ⟨_, rfl⟩
    obtain ⟨x, hx⟩ := hfinds
    exact ⟨_, effect_of_performs (.aggregate hvalues hx),
      hs.after_assign ⟨x, bindings_after_assign ..⟩⟩

end

/-- How a script ends: in the fault of a demand, or in a session in which the
variables have the shapes. -/
def EndsAs (s : Session) (t : Table) (cs : List Command) (Γ : Shapes) : Option Demand → Prop
  | none => ∃ text last, s.run cs = (.ok text, last) ∧ last.HasShapes t Γ
  | some d => (s.run cs).1 = .error (.emptyAggregate d.function)

theorem EndsAs.cons {s : Session} {t : Table} {c : Command} {e : Effect} {cs : List Command}
    {Γ : Shapes} (he : s.effect c = .ok e) :
    ∀ {o : Option Demand}, (s.after e).EndsAs t cs Γ o → s.EndsAs t (c :: cs) Γ o
  | none, ⟨text, last, hrun, hlast⟩ => by
    refine ⟨e.text ++ text, last, ?_, hlast⟩
    rw [run_cons_ok he, hrun]
    rfl
  | some d, hrun => by
    rw [EndsAs, run_cons_ok he]
    have hfails : ((s.after e).run cs).1 = .error (.emptyAggregate d.function) := hrun
    simp only [hfails, Except.map]

/-- **A typed script fails at its first demand that the table has no row
for**, and succeeds if there is none. -/
theorem run_of_typedScript {σ : Schema} {t : Table} (ht : t.Conforms σ) {Γ Δ : Shapes}
    {cs : List Command} {demands : List Demand} (h : TypedScript σ Γ cs Δ demands) :
    ∀ {s : Session}, s.HasShapes t Γ → s.EndsAs t cs Δ (demands.find? t.lacks) := by
  induction h with
  | nil => exact fun hs => ⟨"", _, rfl, hs⟩
  | cons hc _ ih =>
    intro s hs
    obtain ⟨e, he, hs'⟩ := effect_of_typed ht hs hc
    exact (ih hs').cons he
  | @extreme Γ Δ target function source conditions b cs demands hsource hfunction _ ih =>
    intro s hs
    have heffect := effect_extreme_of_typed ht hs hsource hfunction target
    rw [List.find?_cons]
    split at heffect
    · rename_i hlacks
      rw [hlacks, EndsAs, run_cons_error heffect]
    · rename_i hlacks
      obtain ⟨e, he, hs'⟩ := heffect
      rw [Bool.not_eq_true] at hlacks
      rw [hlacks]
      exact (ih hs').cons he

end Session
end Columnar
