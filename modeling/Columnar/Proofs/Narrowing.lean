/-
# Conditions one after another

A script selects the rows of a table that meet one condition and narrows them
by others, each tested on values fetched at the rows that are left
(`conjunctive`). At every step the variable holds, in row order, the rows
that meet all conditions so far, and the last fetch still finds the table as
it was. So the script prints a line for every row that meets all conditions
(`Session.run_conjunctive`), and the order of the conditions does not matter.

The names of the columns must be free of dots: the last dot of a qualified
name ends the table's name, and a dot in a column's name would move it
(`Session.run_conjunctive_dotted`).

Key definitions: `Condition`, `Narrowing`, `Table.meets`, `conjunctive`.
Key theorems: `Session.run_narrowings`, `Session.run_conjunctive`.
-/
import Columnar.Proofs.Script

namespace Columnar

/-- A range for the values of a column. -/
structure Condition where
  column : String
  range : Range
deriving DecidableEq

/-- A further condition, with the variables for the values that it is tested
on and for the rows that are left. -/
structure Narrowing where
  condition : Condition
  vector : String
  target : String

/-- Whether a row meets all conditions. -/
def Table.meets (t : Table) (conditions : List Condition) (row : Nat) : Bool :=
  conditions.all fun c =>
    match t.column? c.column with
    | some col => col.inRange c.range row
    | none => false

/-- Narrows the rows in the variable `rows` by one condition after another. -/
def narrowings (table : String) : String → List Narrowing → List Command
  | _, [] => []
  | rows, n :: ns =>
    .fetch n.vector (qualify table n.condition.column) rows ::
      .selectFrom n.target rows n.vector n.condition.range ::
      narrowings table n.target ns

/-- The variable that holds the rows after all narrowings. -/
def lastTarget : String → List Narrowing → String
  | rows, [] => rows
  | _, n :: ns => lastTarget n.target ns

/-- The conditions of a script with a first one and others. -/
def allConditions (first : Condition) (others : List Narrowing) : List Condition :=
  first :: others.map Narrowing.condition

/-- The variables of a script, each once for every assignment. -/
def allTargets (rows result : String) (others : List Narrowing) : List String :=
  rows :: result :: others.flatMap fun n => [n.vector, n.target]

/-- Prints the values of a column at the rows that meet the conditions. -/
def conjunctive (table : String) (first : Condition) (rows : String) (others : List Narrowing)
    (column result : String) : List Command :=
  .select rows (qualify table first.column) first.range ::
    (narrowings table rows others ++
      [.fetch result (qualify table column) (lastTarget rows others), .print [result]])

/-- The conditions name columns of the table, and no name has a dot. -/
def Table.HasColumns (t : Table) (conditions : List Condition) : Prop :=
  ∀ c ∈ conditions, '.' ∉ c.column.toList ∧ ∃ col, t.column? c.column = some col

/-! ### The rows that are left -/

theorem Table.filter_meets_cons {t : Table} {c : Condition} {col : Column}
    (hcol : t.column? c.column = some col) (rows : PositionSet) (conditions : List Condition) :
    (rows.filter (col.inRange c.range)).filter (t.meets conditions) =
      rows.filter (t.meets (c :: conditions)) := by
  refine PositionSet.ext ?_
  simp only [PositionSet.filter, List.filter_filter]
  refine List.filter_congr fun row _ => ?_
  simp only [meets, List.all_cons, hcol, Bool.and_comm]

theorem Table.meets_perm {t : Table} {cs ds : List Condition} (h : cs.Perm ds) :
    t.meets cs = t.meets ds := by
  funext row
  exact h.all_eq

namespace Session

/-- Each narrowing leaves the rows that meet its condition too. -/
theorem run_narrowings {t : Table} : ∀ {others : List Narrowing} {s : Session} {name : String}
    {rows : PositionSet}, s.HoldsRows t name rows →
    t.HasColumns (others.map Narrowing.condition) →
    (name :: others.flatMap fun n => [n.vector, n.target]).Nodup →
    ∃ last, s.run (narrowings t.name name others) = (.ok "", last) ∧
      last.HoldsRows t (lastTarget name others)
        (rows.filter (t.meets (others.map Narrowing.condition)))
  | [], s, name, rows, h, _, _ => by
    have hall : rows.filter (t.meets []) = rows :=
      PositionSet.ext (by simp [PositionSet.filter, Table.meets])
    refine ⟨s, rfl, ?_⟩
    rw [List.map_nil, hall]
    exact h
  | n :: ns, s, name, rows, h, hcols, hnames => by
    obtain ⟨⟨hdot, col, hcol⟩, hrest⟩ := List.forall_mem_cons.mp hcols
    simp only [List.flatMap_cons, List.cons_append, List.nil_append, List.nodup_cons,
      List.mem_cons, not_or] at hnames
    obtain ⟨⟨hne, -, -⟩, -, hnames⟩ := hnames
    -- the fetched values go into another variable than the rows that they belong to
    have hfetch := effect_fetch_of_rows h hdot hcol n.vector
    have h₁ := h.after_assign (.vector (rows.positions.map col.cell)
      (some ⟨qualify t.name n.condition.column, rows⟩)) hne
    have hselect := effect_selectFrom_of_rows h₁ hdot hcol (bindings_after_assign ..) n.target
      n.condition.range
    have hbounds : ∀ p ∈ rows.filter (col.inRange n.condition.range), p < t.rowCount :=
      fun p hp => h.inBounds p (PositionSet.mem_filter.mp hp).1
    obtain ⟨last, hrun, hlast⟩ := run_narrowings
      (holdsRows_assigned h₁.registered n.target hbounds) hrest (List.nodup_cons.mpr hnames)
    refine ⟨last, ?_, ?_⟩
    · rw [narrowings, run_cons_ok hfetch, run_cons_ok hselect, hrun]
      rfl
    · rw [Table.filter_meets_cons hcol] at hlast
      exact hlast

/-- The rows that meet all conditions, in order. -/
theorem run_select_narrowings {s : Session} {t : Table} (ht : s.catalog.find? t.name = some t)
    {first : Condition} {others : List Narrowing} {rows : String}
    (hcols : t.HasColumns (allConditions first others))
    (hnames : (rows :: others.flatMap fun n => [n.vector, n.target]).Nodup) :
    ∃ last, s.run (.select rows (qualify t.name first.column) first.range ::
        narrowings t.name rows others) = (.ok "", last) ∧
      last.HoldsRows t (lastTarget rows others)
        ((PositionSet.all t.rowCount).filter (t.meets (allConditions first others))) := by
  obtain ⟨⟨hdot, col, hcol⟩, hrest⟩ := List.forall_mem_cons.mp hcols
  have hselect := effect_select_of_table ht hdot hcol rows first.range
  have hrows : col.select first.range =
      (PositionSet.all t.rowCount).filter (col.inRange first.range) := by
    rw [Column.select, Table.size_column? hcol]
  have hbounds : ∀ p ∈ col.select first.range, p < t.rowCount := by
    intro p hp
    rw [hrows] at hp
    exact PositionSet.mem_all.mp (PositionSet.mem_filter.mp hp).1
  obtain ⟨last, hrun, hlast⟩ :=
    run_narrowings (holdsRows_assigned ht rows hbounds) hrest hnames
  refine ⟨last, ?_, ?_⟩
  · rw [run_cons_ok hselect, hrun]
    rfl
  · rw [hrows, Table.filter_meets_cons hcol] at hlast
    exact hlast

theorem run_fetch_print {s : Session} {t : Table} {name : String} {rows : PositionSet}
    (h : s.HoldsRows t name rows) {field : String} {col : Column} (hdot : '.' ∉ field.toList)
    (hcol : t.column? field = some col) (result : String) :
    ∃ last, s.run [.fetch result (qualify t.name field) name, .print [result]] =
      (.ok (unlines (rows.positions.map fun row => (col.cell row).field)), last) := by
  have hfetch := effect_fetch_of_rows h hdot hcol result
  have hprint := effect_print_vector (bindings_after_assign s result
    (.vector (rows.positions.map col.cell) (some ⟨qualify t.name field, rows⟩)))
  rw [run_cons_ok hfetch, run_cons_ok hprint, run_nil]
  refine ⟨_, Prod.ext ?_ rfl⟩
  simp only [Except.map, Effect.text, Effect.printed?, Option.getD, String.empty_append,
    String.append_empty, vectorText, List.map_map, Function.comp_def]

/-- The lines of a column at the rows that meet the conditions. -/
def linesMeeting (t : Table) (conditions : List Condition) (col : Column) : String :=
  unlines (((List.range t.rowCount).filter (t.meets conditions)).map fun row =>
    (col.cell row).field)

theorem run_conjunctive_eq {s : Session} {t : Table} (ht : s.catalog.find? t.name = some t)
    {first : Condition} {others : List Narrowing} {rows field result : String} {col : Column}
    (hcols : t.HasColumns (allConditions first others)) (hdot : '.' ∉ field.toList)
    (hcol : t.column? field = some col) (hnames : (allTargets rows result others).Nodup) :
    ∃ last, s.run (conjunctive t.name first rows others field result) =
      (.ok (linesMeeting t (allConditions first others) col), last) := by
  have hrows : (rows :: others.flatMap fun n => [n.vector, n.target]).Nodup :=
    hnames.sublist ((List.sublist_cons_self _ _).cons_cons _)
  obtain ⟨mid, hselect, hmid⟩ := run_select_narrowings ht hcols hrows
  obtain ⟨last, hprint⟩ := run_fetch_print hmid hdot hcol result
  refine ⟨last, ?_⟩
  rw [conjunctive, ← List.cons_append, run_append hselect, hprint]
  simp only [Except.map, String.empty_append]
  rfl

/-- **Conditions one after another are a conjunction.** In every session a
script that selects by a first condition and narrows by the others, with
variables that differ, succeeds and prints the value of a column for every
row that meets all conditions, in row order, a line for each. So conditions
in another order print the same. -/
theorem run_conjunctive (s : Session) {t : Table} (ht : s.catalog.find? t.name = some t)
    (first : Condition) (others : List Narrowing) (rows field result : String) {col : Column}
    (hcols : t.HasColumns (allConditions first others)) (hdot : '.' ∉ field.toList)
    (hcol : t.column? field = some col) (hnames : (allTargets rows result others).Nodup) :
    (∃ last, s.run (conjunctive t.name first rows others field result) =
      (.ok (linesMeeting t (allConditions first others) col), last)) ∧
    ∀ (first' : Condition) (others' : List Narrowing) (rows' result' : String),
      (allConditions first' others').Perm (allConditions first others) →
      (allTargets rows' result' others').Nodup →
      (s.run (conjunctive t.name first' rows' others' field result')).1 =
        (s.run (conjunctive t.name first rows others field result)).1 := by
  obtain ⟨last, hrun⟩ := run_conjunctive_eq ht hcols hdot hcol hnames
  refine ⟨⟨last, hrun⟩, fun first' others' rows' result' hperm hnames' => ?_⟩
  have hcols' : t.HasColumns (allConditions first' others') :=
    fun c hc => hcols c (hperm.mem_iff.mp hc)
  obtain ⟨last', hrun'⟩ := run_conjunctive_eq ht hcols' hdot hcol hnames'
  rw [hrun, hrun', linesMeeting, linesMeeting, Table.meets_perm hperm]

/-- Four rows, one of them with a NaN. -/
def fourRows : Table :=
  ⟨"db.t", [Column.ofInts "a" [3, 5, 1, 9],
    ⟨"b", #[.int 10, .float .nan, .int 30, .int 20]⟩], 4, by decide, by decide⟩

/-- The first row and the last are above one in the one column and below
thirty in the other, which the NaN is not. -/
theorem run_conjunctive_fourRows :
    (Catalog.empty.register fourRows).find? fourRows.name = some fourRows ∧
      (allTargets "s1" "f" [⟨⟨"b", ⟨.unbounded, .at (.int 30)⟩⟩, "v2", "s2"⟩]).Nodup ∧
      ∃ last, (start (Catalog.empty.register fourRows)).run
          (conjunctive "db.t" ⟨"a", ⟨.at (.int 2), .unbounded⟩⟩ "s1"
            [⟨⟨"b", ⟨.unbounded, .at (.int 30)⟩⟩, "v2", "s2"⟩] "a" "f") =
        (.ok "3\n9\n", last) := by
  have hcols : fourRows.HasColumns
      (allConditions ⟨"a", ⟨.at (.int 2), .unbounded⟩⟩
        [⟨⟨"b", ⟨.unbounded, .at (.int 30)⟩⟩, "v2", "s2"⟩]) := by
    intro c hc
    simp only [allConditions, List.map_cons, List.map_nil, List.mem_cons, List.not_mem_nil,
      or_false] at hc
    rcases hc with rfl | rfl
    · exact ⟨by decide, _, rfl⟩
    · exact ⟨by decide, _, rfl⟩
  obtain ⟨last, hrun⟩ := (run_conjunctive (start (Catalog.empty.register fourRows)) (t := fourRows)
    rfl _ _ "s1" "a" "f" hcols (by decide) rfl (by decide)).1
  exact ⟨rfl, by decide, last, hrun⟩

/-- A column with a dot in its name. -/
def dottedColumn : Table := ⟨"t", [Column.ofInts "a.b" [1]], 1, by decide, by decide⟩

/-- The column is there, but its qualified name is taken for one of another
table, and the script ends in a fault. -/
theorem run_conjunctive_dotted :
    (Catalog.empty.register dottedColumn).find? "t" = some dottedColumn ∧
      dottedColumn.column? "a.b" = some (Column.ofInts "a.b" [1]) ∧
      (allTargets "s" "f" []).Nodup ∧
      ((start (Catalog.empty.register dottedColumn)).run
          (conjunctive "t" ⟨"a.b", .full⟩ "s" [] "a.b" "f")).1 =
        .error (.unknownTable "t.a") :=
  ⟨rfl, rfl, by decide, rfl⟩

end Session
end Columnar
