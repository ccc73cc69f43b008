/-
# Tables with their rows in another order

The rows of a table can be put in another order, the same for every column
(`Table.reorder`). Of a table of integers the rows that a window keeps are then
the same ones in another order, and so are sums and differences taken row by row.
A sum, a mean, a minimum and a maximum do not depend on the order; only whether
the sum of a prefix fits does.

So the scenarios that print nothing but such results print the same, whenever
both evaluations succeed (`Scenario.evaluate_reorder`). If they did, the columns
that were read are there (`Scenario.exists_column_of_evaluate`).

Key definitions: `Table.reorder`, `Table.IntegersOnly`.
Key theorems: `Table.HasInts.reorder`, `meanOf_eq_of_perm`,
`Scenario.summation_of_perm`, `Scenario.leastGreatest_of_perm`,
`Scenario.conjunction_of_perm`, `Scenario.evaluate_reorder`.
-/
import Columnar.Proofs.Frame
import Columnar.Proofs.RowWise
import Mathlib.Algebra.BigOperators.Group.List.Basic

namespace Columnar

/-! ### Another order -/

/-- The column with the row `order[i]` at position `i`. -/
def Column.reorder (c : Column) (order : List Nat) : Column := ⟨c.name, (order.map c.cell).toArray⟩

namespace Table

/-- The table with its rows in another order, the same for every column. -/
def reorder (t : Table) (order : List Nat) (h : order.Perm (List.range t.rowCount)) : Table where
  name := t.name
  columns := t.columns.map (·.reorder order)
  rowCount := t.rowCount
  distinct := by
    rw [List.map_map]
    exact t.distinct
  even := by
    intro c hc
    obtain ⟨col, -, rfl⟩ := List.mem_map.mp hc
    simpa [Column.reorder, Column.size] using h.length_eq

/-- All values of the table are integers. -/
def IntegersOnly (t : Table) : Prop := ∀ col ∈ t.columns, ∀ v ∈ col.values, v.isFloat = false

section

variable {t : Table} {order : List Nat} {h : order.Perm (List.range t.rowCount)} {field : String}

theorem column?_reorder :
    (t.reorder order h).column? field = (t.column? field).map (·.reorder order) := by
  rw [column?, reorder, List.find?_map, column?]
  rfl

theorem IntegersOnly.hasIntegers (hints : t.IntegersOnly)
    (hcol : ∃ col, t.column? field = some col) : t.HasIntegers field := by
  obtain ⟨col, hcol⟩ := hcol
  exact ⟨col, hcol, hints col (List.mem_of_find?_eq_some hcol)⟩

/-- The rows in the other order have the integers that they had before. -/
theorem HasInts.reorder {f : Nat → Int64} (hf : t.HasInts (List.range t.rowCount) field f) :
    (t.reorder order h).HasInts order field f := by
  have hcells : order.map (Column.ofInts field ((List.range t.rowCount).map f)).cell =
      (order.map f).map Value.int := by
    rw [List.map_map]
    refine List.map_congr_left fun r hr => ?_
    have hlt : r < t.rowCount := List.mem_range.mp (h.mem_iff.mp hr)
    simp [Column.cell, Array.getD_eq_getD_getElem?, getElem?_ofInts, hlt]
  rw [HasInts, column?_reorder, hf, Option.map_some, Column.reorder, hcells]
  rfl

end
end Table

/-! ### What does not depend on the order -/

section

variable {xs ys : List Int} (h : xs.Perm ys)

include h

theorem min?_eq_of_perm : xs.min? = ys.min? := by
  refine Option.ext fun m => ?_
  simp only [List.min?_eq_some_iff, h.mem_iff]

theorem max?_eq_of_perm : xs.max? = ys.max? := by
  refine Option.ext fun m => ?_
  simp only [List.max?_eq_some_iff, h.mem_iff]

theorem meanOf_eq_of_perm : meanOf xs = meanOf ys := by
  rw [meanOf, meanOf, h.isEmpty_eq, h.sum_eq, h.length_eq]

end

section

variable {ρ : Type} {rows rows' : List ρ} (h : rows.Perm rows')

include h

theorem integersOf_perm (f : ρ → Int64) : (integersOf f rows).Perm (integersOf f rows') := h.map _

theorem results_perm (op : Arithmetic) (f g : ρ → Int64) :
    (op.results f g rows).Perm (op.results f g rows') := h.map _

end

/-! ### What a success says of the columns -/

/-- Whether a command is no insert. -/
def Command.keepsTables : Command → Bool
  | .insert _ _ => false
  | _ => true

/-- Whether a command reads a column, to select or to fetch. -/
def Command.readsColumn (column : String) : Command → Bool
  | .select _ name _ | .fetch _ name _ => name == column
  | _ => false

namespace Session

/-- In a script without inserts that succeeds, every command does something on
the tables as they were. -/
theorem exists_effect_of_mem : ∀ {cs : List Command} {s last : Session} {output : String},
    cs.all Command.keepsTables = true → s.run cs = (.ok output, last) →
    ∀ c ∈ cs, ∃ (mid : Session) (e : Effect), mid.catalog = s.catalog ∧ mid.effect c = .ok e
  | [], _, _, _, _, _, _, hc => by cases hc
  | d :: cs, s, last, output, hkeeps, hrun, c, hc => by
    rw [List.all_cons, Bool.and_eq_true] at hkeeps
    obtain ⟨hd, hcs⟩ := hkeeps
    obtain ⟨e, below, he, hrest, -⟩ := exists_effect_of_run hrun
    have hcatalog : (s.after e).catalog = s.catalog := by
      cases performs_of_effect he with
      | insert => cases hd
      | _ => rfl
    rcases List.mem_cons.mp hc with rfl | hc
    · exact ⟨s, e, rfl, he⟩
    · obtain ⟨mid, e', hmid, he'⟩ := exists_effect_of_mem hcs hrest c hc
      exact ⟨mid, e', hmid.trans hcatalog, he'⟩

end Session

namespace Scenario

open Session

theorem exists_column_of_evaluate (field : String) {sc : Scenario} {catalog last : Catalog}
    {text : String} (hsc : sc.evaluate catalog = .ok (text, last)) {table : String} {t : Table}
    (ht : catalog.find? table = some t) (hdot : '.' ∉ field.toList)
    (hkeeps : sc.commands.all Command.keepsTables = true)
    (hreads : sc.commands.any (Command.readsColumn (qualify table field)) = true) :
    ∃ col, t.column? field = some col := by
  obtain ⟨s, hrun, -⟩ := exists_run_of_evaluate hsc
  obtain ⟨c, hc, hcolumn⟩ := List.any_eq_true.mp hreads
  obtain ⟨mid, e, hmid, he⟩ := exists_effect_of_mem hkeeps hrun c hc
  have hfound {name : String} {col : Column} (hname : name = qualify table field)
      (hcol : mid.catalog.resolve name = .ok col) : ∃ col, t.column? field = some col := by
    subst hname
    obtain ⟨u, hu, hcol⟩ := Catalog.find?_of_resolve (splitQualified_qualify hdot) hcol
    rw [hmid] at hu
    cases hu.symm.trans ht
    exact ⟨_, hcol⟩
  cases performs_of_effect he with
  | select hsplit hcol => exact hfound (beq_iff_eq.mp hcolumn) hcol
  | fetch hsel hsplit hcurrent hcol hvalues => exact hfound (beq_iff_eq.mp hcolumn) hcol
  | _ => cases hcolumn

/-! ### Two runs -/

theorem eq_of_ite_ok {α : Type} {p : Prop} [Decidable p] {a b : α} {fault : Fault}
    (h : (if p then Except.ok a else .error fault) = .ok b) : a = b := by
  split at h
  · exact Except.ok.inj h
  · cases h

theorem exists_ok_of_map {α β : Type} {x : Except Fault α} {f : α → β} {b : β}
    (h : x.map f = .ok b) : ∃ a, x = .ok a := by
  cases x with
  | error fault => cases h
  | ok a => exact ⟨a, rfl⟩

section

variable {c d : Catalog} {t u : Table} (hc : c.find? Fixture.wideName = some t)
  (hd : d.find? Fixture.wideName = some u) {ρ : Type} {rows rows' : List ρ}
  (hperm : rows.Perm rows') {f₁ f₂ f₃ : ρ → Int64} (h₁ : t.HasInts rows "col1" f₁)
  (h₁' : u.HasInts rows' "col1" f₁) {text text' : String} {last last' : Catalog}

include hc hd hperm h₁ h₁'

theorem summation_of_perm (h₃ : t.HasInts rows "col3" f₃) (h₃' : u.HasInts rows' "col3" f₃)
    {w : Window} (hfirst : (summation w).evaluate c = .ok (text, last))
    (hsecond : (summation w).evaluate d = .ok (text', last')) : text = text' := by
  have hkept : (w.rowsIn f₁ rows).Perm (w.rowsIn f₁ rows') := hperm.filter _
  have hpart := (integersOf_perm hkept f₃).sum_eq
  have hwhole := (integersOf_perm hperm f₁).sum_eq
  rw [summation_of_ints hc h₁ h₃ rfl] at hfirst
  rw [summation_of_ints hd h₁' h₃' rfl, ← hpart, ← hwhole] at hsecond
  obtain ⟨rfl, -⟩ := Prod.mk.inj (eq_of_ite_ok hfirst)
  obtain ⟨rfl, -⟩ := Prod.mk.inj (eq_of_ite_ok hsecond)
  rfl

variable (h₂ : t.HasInts rows "col2" f₂) (h₂' : u.HasInts rows' "col2" f₂)

include h₂ h₂'

/-- Least and greatest values are the same, and missing at the same time. -/
theorem leastGreatest_of_perm (w : Window) :
    ((leastGreatest w).evaluate c).map Prod.fst = ((leastGreatest w).evaluate d).map Prod.fst := by
  have hkept : (w.rowsIn f₁ rows).Perm (w.rowsIn f₁ rows') := hperm.filter _
  by_cases hnone : w.rowsIn f₁ rows = []
  · have hnone' : w.rowsIn f₁ rows' = [] := List.Perm.nil_eq (hnone ▸ hkept) |>.symm
    rw [leastGreatest_of_none hc h₁ hnone, leastGreatest_of_none hd h₁' hnone']
  · obtain ⟨a, b, c', d', e, f, ha, hb, hc', hd', he, hf, hfirst⟩ :=
      exists_leastGreatest hc h₁ h₂ rfl hnone
    rw [min?_eq_of_perm (integersOf_perm hperm f₁)] at ha
    rw [min?_eq_of_perm (integersOf_perm hkept f₁)] at hb
    rw [min?_eq_of_perm (integersOf_perm hkept f₂)] at hc'
    rw [max?_eq_of_perm (integersOf_perm hperm f₁)] at hd'
    rw [max?_eq_of_perm (integersOf_perm hkept f₁)] at he
    rw [max?_eq_of_perm (integersOf_perm hkept f₂)] at hf
    rw [hfirst, leastGreatest_of_ints hd h₁' h₂' rfl ha hb hc' hd' he hf]
    rfl

theorem conjunction_of_perm (h₃ : t.HasInts rows "col3" f₃) (h₃' : u.HasInts rows' "col3" f₃)
    {v w : Window} (hfirst : (conjunction v w).evaluate c = .ok (text, last))
    (hsecond : (conjunction v w).evaluate d = .ok (text', last')) : text = text' := by
  have hkept : (rows.filter (bothHold v w f₁ f₂)).Perm (rows'.filter (bothHold v w f₁ f₂)) :=
    hperm.filter _
  have hne : rows.filter (bothHold v w f₁ f₂) ≠ [] := by
    intro hnone
    rw [conjunction_of_none hc h₁ h₂ h₃ hnone] at hfirst
    cases hfirst
  obtain ⟨low, high, hlow, hhigh, hevaluate⟩ := exists_conjunction hc h₁ h₂ h₃ rfl hne
  rw [min?_eq_of_perm (integersOf_perm hkept f₂)] at hlow
  rw [max?_eq_of_perm (integersOf_perm hkept f₃)] at hhigh
  have hdiffs := results_perm hkept .subtract f₃ f₂
  have hsums := results_perm hkept .add f₁ f₂
  rw [hevaluate] at hfirst
  rw [conjunction_of_ints hd h₁' h₂' h₃' rfl hlow hhigh, ← hdiffs.sum_eq,
    ← meanOf_eq_of_perm hdiffs, ← meanOf_eq_of_perm hsums] at hsecond
  obtain ⟨rfl, -⟩ := Prod.mk.inj (eq_of_ite_ok hfirst)
  obtain ⟨rfl, -⟩ := Prod.mk.inj (eq_of_ite_ok hsecond)
  rfl

end

/-! ### Any order -/

section

variable {t : Table} {order : List Nat} {h : order.Perm (List.range t.rowCount)}

theorem exists_column_of_reorder {field : String}
    (hcol : ∃ col, (t.reorder order h).column? field = some col) :
    ∃ col, t.column? field = some col := by
  simp only [Table.column?_reorder, Option.map_eq_some_iff] at hcol
  obtain ⟨_, col, hcol, -⟩ := hcol
  exact ⟨col, hcol⟩

/-- **The order of the rows does not show.** Of a table of integers and the same
table with its rows in another order, a sum, the least and greatest values and the
results over two windows are printed alike, whenever both are printed. For the
least and greatest values one is printed if and only if the other is. -/
theorem evaluate_reorder (hints : t.IntegersOnly) {c d : Catalog}
    (hc : c.find? Fixture.wideName = some t)
    (hd : d.find? Fixture.wideName = some (t.reorder order h)) :
    (∀ sc, (∃ w, sc = summation w) ∨ (∃ w, sc = leastGreatest w) ∨ (∃ v w, sc = conjunction v w) →
      ∀ text text' last last', sc.evaluate c = .ok (text, last) →
        sc.evaluate d = .ok (text', last') → text = text') ∧
    ∀ w, (∃ result, (leastGreatest w).evaluate c = .ok result) ↔
      ∃ result, (leastGreatest w).evaluate d = .ok result := by
  have hperm : (List.range t.rowCount).Perm order := h.symm
  have hfield {field : String} (hcol : ∃ col, t.column? field = some col) :
      t.HasInts (List.range t.rowCount) field (t.integer field) ∧
        (t.reorder order h).HasInts order field (t.integer field) :=
    ⟨(hints.hasIntegers hcol).hasInts, (hints.hasIntegers hcol).hasInts.reorder⟩
  have hleastGreatest (w : Window) (hcol₁ : ∃ col, t.column? "col1" = some col)
      (hcol₂ : ∃ col, t.column? "col2" = some col) :
      ((leastGreatest w).evaluate c).map Prod.fst = ((leastGreatest w).evaluate d).map Prod.fst :=
    leastGreatest_of_perm hc hd hperm (hfield hcol₁).1 (hfield hcol₁).2 (hfield hcol₂).1
      (hfield hcol₂).2 w
  constructor
  · rintro sc (⟨w, rfl⟩ | ⟨w, rfl⟩ | ⟨v, w, rfl⟩) text text' last last' hfirst hsecond
    · obtain ⟨h₁, h₁'⟩ := hfield (exists_column_of_evaluate "col1" hfirst hc (by decide) rfl rfl)
      obtain ⟨h₃, h₃'⟩ := hfield (exists_column_of_evaluate "col3" hfirst hc (by decide) rfl rfl)
      exact summation_of_perm hc hd hperm h₁ h₁' h₃ h₃' hfirst hsecond
    · have hsame := hleastGreatest w
        (exists_column_of_evaluate "col1" hfirst hc (by decide) rfl rfl)
        (exists_column_of_evaluate "col2" hfirst hc (by decide) rfl rfl)
      rw [hfirst, hsecond] at hsame
      exact Except.ok.inj hsame
    · obtain ⟨h₁, h₁'⟩ := hfield (exists_column_of_evaluate "col1" hfirst hc (by decide) rfl rfl)
      obtain ⟨h₂, h₂'⟩ := hfield (exists_column_of_evaluate "col2" hfirst hc (by decide) rfl rfl)
      obtain ⟨h₃, h₃'⟩ := hfield (exists_column_of_evaluate "col3" hfirst hc (by decide) rfl rfl)
      exact conjunction_of_perm hc hd hperm h₁ h₁' h₂ h₂' h₃ h₃' hfirst hsecond
  · intro w
    constructor
    · rintro ⟨⟨text, last⟩, hfirst⟩
      have hsame := hleastGreatest w
        (exists_column_of_evaluate "col1" hfirst hc (by decide) rfl rfl)
        (exists_column_of_evaluate "col2" hfirst hc (by decide) rfl rfl)
      rw [hfirst] at hsame
      exact exists_ok_of_map hsame.symm
    · rintro ⟨⟨text, last⟩, hsecond⟩
      have hsame := hleastGreatest w
        (exists_column_of_reorder
          (exists_column_of_evaluate "col1" hsecond hd (by decide) rfl rfl))
        (exists_column_of_reorder
          (exists_column_of_evaluate "col2" hsecond hd (by decide) rfl rfl))
      rw [hsecond] at hsame
      exact exists_ok_of_map hsame

end

/-- The three rows, the last one first. -/
def shuffledWide : Table := smallWide.reorder [2, 0, 1] (by decide)

def shuffledCatalog : Catalog := .register .empty shuffledWide

/-- The least and greatest values of the shuffled rows, by those of the rows in
order. -/
theorem evaluate_reorder_smallWide :
    ∃ last, (leastGreatest ⟨1, 3⟩).evaluate shuffledCatalog =
      .ok ("1\n1\n4\n3\n2\n5\n", last) := by
  have hints : smallWide.IntegersOnly := by
    simp only [Table.IntegersOnly, smallWide, List.forall_mem_cons]
    exact ⟨by decide, by decide, by decide, fun _ h => by cases h⟩
  have hd : shuffledCatalog.find? Fixture.wideName =
      some (smallWide.reorder [2, 0, 1] (by decide)) := rfl
  have hfirst : (leastGreatest ⟨1, 3⟩).evaluate smallCatalog =
      .ok ("1\n1\n4\n3\n2\n5\n", smallCatalog) := by decide +kernel
  obtain ⟨hsame, hsucceeds⟩ := evaluate_reorder hints find?_smallCatalog hd
  obtain ⟨⟨text, last⟩, hsecond⟩ := (hsucceeds ⟨1, 3⟩).mp ⟨_, hfirst⟩
  obtain rfl := hsame _ (.inr (.inl ⟨_, rfl⟩)) _ _ _ _ hfirst hsecond
  exact ⟨last, hsecond⟩

end Scenario
end Columnar
