/-
# Scripts on values of any kind

The rules for scripts (`Typed`, `TypedScript`) keep integers within bounds, so
that nothing overflows on a table of such integers. A table may as well hold
floats, NaNs or integers of any size, and the same script be run on it. Of the
bounds nothing is left then. But the rules still say that every name stands
for what its command needs, and that what is taken together belongs to the
same rows and so has one length. What remains are the hazards of the commands:
a sum or a difference may overflow, and an extreme may be of nothing
(`Command.hazards`).

So the hazards of a script can be read off it, and it fails in no other way,
whatever the table (`Session.failsOnly_run_of_typedScript`).

Key definitions: `Command.hazards`, `scriptHazards`, `Table.HasFields`,
`Session.HasForms`, `Session.Safe`.
Key theorems: `Session.safe_of_typed`, `Session.failsOnly_run_of_typedScript`,
`Scenario.failsOnly_of_typedScript`.
-/
import Columnar.Proofs.Elementwise
import Columnar.Proofs.Faults
import Columnar.Proofs.Shapes
import Columnar.Scenario

namespace Columnar

/-! ### Hazards -/

/-- The faults that a command can end in although all its names stand for what
it needs. -/
def Command.hazards : Command → List Fault
  | .aggregate _ function _ => function.hazards
  | .arithmetic _ _ _ _ => [.overflow]
  | _ => []

/-- The hazards of all commands of a script, in order. -/
def scriptHazards (cs : List Command) : List Fault := cs.flatMap Command.hazards

theorem scriptHazards_append (cs ds : List Command) :
    scriptHazards (cs ++ ds) = scriptHazards cs ++ scriptHazards ds :=
  List.flatMap_append

theorem scriptHazards_flatMap {α : Type} (as : List α) (f : α → List Command) :
    scriptHazards (as.flatMap f) = as.flatMap fun a => scriptHazards (f a) :=
  List.flatMap_assoc

theorem Command.ofNumber_of_mem_hazards {c : Command} {fault : Fault} (h : fault ∈ c.hazards) :
    fault.OfNumber := by
  cases c with
  | aggregate target function source => exact Aggregate.ofNumber_of_mem_hazards h
  | arithmetic target operation left right =>
    rw [List.mem_singleton.mp h]
    exact trivial
  | _ => cases h

theorem ofNumber_of_mem_scriptHazards {cs : List Command} {fault : Fault}
    (h : fault ∈ scriptHazards cs) : fault.OfNumber := by
  obtain ⟨c, -, hc⟩ := List.mem_flatMap.mp h
  exact Command.ofNumber_of_mem_hazards hc

/-! ### The table -/

/-- The table has the name and the fields of a schema. Nothing is said of its
values and of how many there are. -/
structure Table.HasFields (t : Table) (σ : Schema) : Prop where
  name : t.name = σ.table
  fields : ∀ f ∈ σ.fields, '.' ∉ f.1.toList ∧ f.1 ∈ t.columns.map Column.name

theorem Table.HasFields.field {t : Table} {σ : Schema} (h : t.HasFields σ) {field : String}
    {b : Nat} (hfield : σ.fields.lookup field = some b) :
    '.' ∉ field.toList ∧ ∃ col, t.column? field = some col := by
  obtain ⟨before, after, heq, -⟩ := List.lookup_eq_some_iff.mp hfield
  have hmem : (field, b) ∈ σ.fields := heq ▸ List.mem_append_right before List.mem_cons_self
  obtain ⟨hdot, hname⟩ := h.fields _ hmem
  exact ⟨hdot, column?_isSome_iff.mpr hname⟩

namespace Session

/-! ### What the shapes mean without the bounds -/

/-- The variable holds a value for each row that meets the conditions. -/
structure HoldsValues (s : Session) (t : Table) (name : String) (conditions : List Condition)
    (field : Option String) (values : List Value) (source : Option Provenance) : Prop where
  binding : s.bindings name = some (.vector values source)
  length : values.length = (t.rowsMeeting conditions).positions.length
  fetched : ∀ f, field = some f → ∃ col, t.column? f = some col ∧ '.' ∉ f.toList ∧
    values = (t.rowsMeeting conditions).positions.map col.cell ∧
    source = some ⟨qualify t.name f, t.rowsMeeting conditions⟩

/-- The variable has the shape, but for the bound of a vector. -/
def HasForm (s : Session) (t : Table) (name : String) : Shape → Prop
  | .vector conditions field _ =>
    ∃ values source, s.HoldsValues t name conditions field values source
  | shape => s.HasShape t name shape

/-- The table is registered, and the variables have the shapes, but for the
bounds. -/
structure HasForms (s : Session) (t : Table) (Γ : Shapes) : Prop where
  registered : s.catalog.find? t.name = some t
  form : ∀ name shape, Γ.lookup name = some shape → s.HasForm t name shape

theorem HasForm.after_assign {s : Session} {t : Table} {name target : String} {shape : Shape}
    (h : s.HasForm t name shape) (b : Binding) (hne : name ≠ target) :
    (s.after (.assign target b)).HasForm t name shape := by
  cases shape with
  | vector conditions field bound =>
    obtain ⟨values, source, hv⟩ := h
    have hbinding := bindings_after_assign_of_ne s b hne
    exact ⟨values, source, hbinding.trans hv.binding, hv.length, hv.fetched⟩
  | rows conditions =>
    have hshape : s.HasShape t name (.rows conditions) := h
    exact hshape.after_assign b hne
  | scalar =>
    have hshape : s.HasShape t name .scalar := h
    exact hshape.after_assign b hne

theorem HasForms.after_assign {s : Session} {t : Table} {Γ : Shapes} (h : s.HasForms t Γ)
    {target : String} {b : Binding} {shape : Shape}
    (hform : (s.after (.assign target b)).HasForm t target shape) :
    (s.after (.assign target b)).HasForms t ((target, shape) :: Γ) where
  registered := h.registered
  form := Shapes.forall_lookup_cons hform fun name known hname hlookup =>
    (h.form name known hlookup).after_assign b hname

theorem HasForms.holdsRows {s : Session} {t : Table} {Γ : Shapes} (h : s.HasForms t Γ)
    {name : String} {conditions : List Condition}
    (hlookup : Γ.lookup name = some (.rows conditions)) :
    s.HoldsRows t name (t.rowsMeeting conditions) where
  registered := h.registered
  binding := h.form name _ hlookup
  inBounds _ hp := PositionSet.mem_all.mp (PositionSet.mem_filter.mp hp).1

/-! ### A typed command fails in its hazards only -/

/-- The command fails in its hazards only, and if it does not fail the
variables have the shapes, but for the bounds. -/
structure Safe (s : Session) (t : Table) (c : Command) (Γ : Shapes) : Prop where
  fails : FailsOnly (· ∈ c.hazards) (s.effect c)
  keeps : ∀ e, s.effect c = .ok e → (s.after e).HasForms t Γ

section

variable {σ : Schema} {t : Table} {s : Session} {Γ Δ : Shapes}

theorem Safe.of_ok {c : Command} {e : Effect} (he : s.effect c = .ok e)
    (h : (s.after e).HasForms t Γ) : s.Safe t c Γ := by
  constructor
  · rw [he]
    exact FailsOnly.ok
  · intro e' he'
    rw [he] at he'
    cases he'
    exact h

/-- An assignment whose value may fail to exist. -/
theorem Safe.of_bind {c : Command} {target : String} {α : Type} {x : Except Fault α}
    {binding : α → Binding} (heffect : s.effect c = x >>= fun a => .ok (.assign target (binding a)))
    (hfails : FailsOnly (· ∈ c.hazards) x)
    (hkeeps : ∀ a, x = .ok a →
      (s.after (.assign target (binding a))).HasForms t Γ) : s.Safe t c Γ := by
  constructor
  · rw [heffect]
    exact hfails.bind fun _ _ => FailsOnly.ok
  · intro e he
    rw [heffect, bind_eq_ok_iff] at he
    obtain ⟨a, ha, he⟩ := he
    cases he
    exact hkeeps a ha

theorem exists_operand (ht : t.HasFields σ) (hs : s.HasForms t Γ) {source : Source}
    {conditions : List Condition} {b : Nat} (h : TypedSource σ Γ source conditions b) :
    ∃ values, s.operand source = .ok values := by
  cases h with
  | assigned hlookup =>
    obtain ⟨values, provenance, hv⟩ := hs.form _ _ hlookup
    refine ⟨values, ?_⟩
    rw [operand, vector_eq_ok_iff.mpr hv.binding]
    rfl
  | stored hfield =>
    obtain ⟨hdot, col, hcol⟩ := ht.field hfield
    refine ⟨col.scan, ?_⟩
    rw [operand, ← ht.name, Catalog.resolve_qualify hs.registered hdot hcol]
    rfl

theorem safe_aggregate (ht : t.HasFields σ) (hs : s.HasForms t Γ) {source : Source}
    {conditions : List Condition} {b : Nat} (h : TypedSource σ Γ source conditions b)
    (function : Aggregate) (target : String) :
    s.Safe t (.aggregate target function source) ((target, .scalar) :: Γ) := by
  obtain ⟨values, hvalues⟩ := exists_operand ht hs h
  have heffect : s.effect (.aggregate target function source) =
      function.apply values >>= fun x => .ok (.assign target (.scalar x)) := by
    rw [effect, hvalues, ok_bind]
  refine Safe.of_bind heffect (function.failsOnly_hazards values) fun x _ => ?_
  exact hs.after_assign ⟨x, bindings_after_assign ..⟩

/-- **A typed command fails in its hazards only**, whatever the values of the
table are. -/
theorem safe_of_typed (ht : t.HasFields σ) (hs : s.HasForms t Γ) {c : Command}
    (h : Typed σ Γ c Δ) : s.Safe t c Δ := by
  cases h with
  | comment | blank => exact Safe.of_ok rfl hs
  | @select target field b range hfield =>
    obtain ⟨hdot, col, hcol⟩ := ht.field hfield
    have heffect := effect_select_meeting hs.registered hdot hcol target range
    rw [← ht.name]
    exact Safe.of_ok heffect (hs.after_assign (bindings_after_assign ..))
  | @selectFrom target positions vector field conditions b range hpositions hvector =>
    obtain ⟨values, source, hv⟩ := hs.form _ _ hvector
    obtain ⟨col, hcol, hdot, rfl, rfl⟩ := hv.fetched field rfl
    have heffect := effect_selectFrom_meeting (hs.holdsRows hpositions) hdot hcol hv.binding
      target range
    exact Safe.of_ok heffect (hs.after_assign (bindings_after_assign ..))
  | @fetch target field positions conditions b hpositions hfield =>
    obtain ⟨hdot, col, hcol⟩ := ht.field hfield
    have heffect := effect_fetch_of_rows (hs.holdsRows hpositions) hdot hcol target
    rw [← ht.name]
    refine Safe.of_ok heffect (hs.after_assign ?_)
    refine ⟨_, _, bindings_after_assign .., List.length_map _, ?_⟩
    rintro f ⟨⟩
    exact ⟨col, hcol, hdot, rfl, rfl⟩
  | average hsource => exact safe_aggregate ht hs hsource .average _
  | sum hsource => exact safe_aggregate ht hs hsource .sum _
  | @arithmetic target left right operation conditions f g a b hleft hright =>
    obtain ⟨xs, xsource, hx⟩ := hs.form _ _ hleft
    obtain ⟨ys, ysource, hy⟩ := hs.form _ _ hright
    have hlength : xs.length = ys.length := hx.length.trans hy.length.symm
    have heffect : s.effect (.arithmetic target operation left right) =
        operation.apply xs ys >>= fun zs => .ok (.assign target (.vector zs none)) := by
      rw [effect, vector_eq_ok_iff.mpr hx.binding, vector_eq_ok_iff.mpr hy.binding]
      rfl
    have hfails : FailsOnly (· ∈ [Fault.overflow]) (operation.apply xs ys) :=
      (operation.failsOnly_overflow hlength).mono fun _ => List.mem_singleton.mpr
    refine Safe.of_bind heffect hfails fun zs hzs => hs.after_assign ?_
    -- the result belongs to the same rows, but to no column
    have hrows := (Arithmetic.length_of_apply hzs).trans hx.length
    exact ⟨zs, none, bindings_after_assign .., hrows, fun _ hf => by cases hf⟩
  | printVector hname =>
    obtain ⟨values, source, hv⟩ := hs.form _ _ hname
    exact Safe.of_ok (effect_print_vector hv.binding) hs
  | printScalars hnames =>
    obtain ⟨xs, hxs⟩ := exists_scalars fun name hname =>
      hs.form name _ (List.map_inj_left.mp hnames name hname)
    obtain ⟨text, htext⟩ := exists_printed_scalars xs
    exact Safe.of_ok (effect_of_performs (.print hxs htext)) hs

/-! ### A typed script -/

theorem Safe.run_cons {c : Command} {cs : List Command} (h : s.Safe t c Γ)
    (hrest : ∀ s' : Session, s'.HasForms t Γ → FailsOnly (· ∈ scriptHazards cs) (s'.run cs).1) :
    FailsOnly (· ∈ scriptHazards (c :: cs)) (s.run (c :: cs)).1 := by
  cases he : s.effect c with
  | error fault =>
    rw [run_cons_error he]
    exact FailsOnly.error (List.mem_append_left _ (h.fails fault he))
  | ok e =>
    rw [run_cons_ok he]
    exact ((hrest _ (h.keeps e he)).mono fun _ => List.mem_append_right _).map

end

/-- **A typed script fails in its hazards only**, whatever the values of the
table are. -/
theorem failsOnly_run_of_typedScript {σ : Schema} {t : Table} (ht : t.HasFields σ) {Γ Δ : Shapes}
    {cs : List Command} {demands : List Demand} (h : TypedScript σ Γ cs Δ demands) :
    ∀ s : Session, s.HasForms t Γ → FailsOnly (· ∈ scriptHazards cs) (s.run cs).1 := by
  induction h with
  | nil => exact fun _ _ => FailsOnly.ok
  | cons hc _ ih => exact fun s hs => (safe_of_typed ht hs hc).run_cons ih
  | @extreme Γ Δ target function source conditions b cs demands hsource _ _ ih =>
    exact fun s hs => (safe_aggregate ht hs hsource function target).run_cons ih

end Session

theorem Scenario.failsOnly_of_typedScript {σ : Schema} {t : Table} (ht : t.HasFields σ)
    {catalog : Catalog} (hfind : catalog.find? σ.table = some t) {sc : Scenario} {Γ : Shapes}
    {demands : List Demand} (h : TypedScript σ [] sc.commands Γ demands) :
    FailsOnly (· ∈ scriptHazards sc.commands) (sc.evaluate catalog) := by
  have hforms : (Session.start catalog).HasForms t [] :=
    ⟨ht.name ▸ hfind, fun name shape hlookup => by simp at hlookup⟩
  have hrun := Session.failsOnly_run_of_typedScript ht h _ hforms
  unfold evaluate
  split
  · exact FailsOnly.ok
  · rename_i fault last heq
    rw [heq] at hrun
    exact FailsOnly.error (hrun fault rfl)

end Columnar
