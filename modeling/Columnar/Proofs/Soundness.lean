/-
# Selections and vectors stay true of the tables

At every time of a session the positions of a selection are rows of a
registered table, and a vector that was fetched is what a fetch from the
same column at the same positions would give again (`Session.Sound`). Rows
are never lost and never move, so inserts do not change that; nor does the
assignment of variables, as no operation makes up positions.

So a selection from fetched values may read the column again
(`selectFrom_eq_selectPaired`), and no command in any session ever meets a
position past the end of a column (`selections_in_bounds`).

Key definitions: `Binding.Sound`, `Session.Sound`.
Key theorems: `Session.sound_visit`, `Session.selectFrom_eq_selectPaired`,
`Session.selections_in_bounds`.
-/
import Columnar.Proofs.Faults
import Columnar.Proofs.Fetch
import Columnar.Proofs.Step

namespace Columnar

/-- What a variable holds agrees with the tables of the session. -/
def Binding.Sound (s : Session) : Binding → Prop
  | selection sel => ∃ t, s.catalog.find? sel.table = some t ∧
      (∀ p ∈ sel.positions, p < t.rowCount) ∧ sel.generation ≤ s.generation sel.table
  | vector values (some origin) => ∃ col, s.catalog.resolve origin.column = .ok col ∧
      col.fetch origin.positions = .ok values
  | _ => True

namespace Session

/-- All variables agree with the tables. -/
def Sound (s : Session) : Prop :=
  ∀ (name : String) (b : Binding), s.bindings name = some b → b.Sound s

theorem sound_start (c : Catalog) : (start c).Sound := fun _ _ h => by cases h

/-! ### One command -/

/-- A binding remains true as tables grow. -/
theorem sound_binding_after {s : Session} {c : Command} {e : Effect} (h : Performs s c e)
    {b : Binding} (hb : b.Sound s) : b.Sound (s.after e) := by
  cases b with
  | selection sel =>
    obtain ⟨t, ht, hrows, hgen⟩ := hb
    obtain ⟨u, hu, hext⟩ := extends_after h _ t ht
    refine ⟨u, hu, fun p hp => Nat.lt_of_lt_of_le (hrows p hp) hext.rowCount, ?_⟩
    rw [generation_after h]
    exact Nat.le_add_right_of_le hgen
  | vector values source =>
    cases source with
    | none => trivial
    | some origin =>
      obtain ⟨col, hcol, hvalues⟩ := hb
      obtain ⟨col', hcol', hext⟩ := (extends_after h).resolve hcol
      exact ⟨col', hcol', hext.fetch hvalues⟩
  | scalar x => trivial

theorem mem_of_narrowed {s : Session} {sel : Selection} {values : List Value}
    {source : Option Provenance} {range : Range} {kept : PositionSet}
    (h : s.narrowed sel values source range = .ok kept) {p : Nat} (hp : p ∈ kept) :
    p ∈ sel.positions := by
  unfold narrowed at h
  split at h
  · split at h
    · obtain ⟨col, -, hcol⟩ := bind_eq_ok_iff.mp h
      exact Column.mem_of_selectAmong hcol hp
    · exact PositionSet.mem_of_selectPaired h hp
  · exact PositionSet.mem_of_selectPaired h hp

/-- What a command assigns is true of the tables it was computed from. -/
theorem sound_assigned {s : Session} (hs : s.Sound) {c : Command} {target : String} {b : Binding}
    (h : Performs s c (.assign target b)) : b.Sound s := by
  cases h with
  | select hsplit hcol =>
    obtain ⟨t, ht, hfield⟩ := Catalog.find?_of_resolve hsplit hcol
    refine ⟨t, ht, fun p hp => ?_, Nat.le_refl _⟩
    obtain ⟨v, hv, -⟩ := Column.mem_select.mp hp
    rw [← Table.size_column? hfield]
    exact (Array.getElem?_eq_some_iff.mp hv).1
  | selectFrom hsel _ hkept =>
    obtain ⟨t, ht, hrows, hgen⟩ := hs _ _ hsel
    exact ⟨t, ht, fun p hp => hrows p (mem_of_narrowed hkept hp), hgen⟩
  | fetch _ _ _ hcol hvalues => exact ⟨_, hcol, hvalues⟩
  | aggregate | arithmetic => trivial

theorem sound_after {s : Session} (hs : s.Sound) {c : Command} {e : Effect} (h : Performs s c e) :
    (s.after e).Sound := by
  intro name b hb
  cases e with
  | nothing | grow | output => exact sound_binding_after h (hs name b hb)
  | assign target b' =>
    by_cases hname : name = target
    · simp only [after, hname, if_true, Option.some.injEq] at hb
      subst hb
      exact sound_binding_after h (sound_assigned hs h)
    · simp only [after, hname, if_false] at hb
      exact sound_binding_after h (hs name b hb)

/-! ### Every run -/

theorem sound_visit {s : Session} (hs : s.Sound) (cs : List Command) : (s.visit cs).2.Sound :=
  @visit_induction (fun _ s => s.Sound) (fun hs h => sound_after hs h) cs [] s hs

/-! ### Selections from fetched values -/

/-- To read the column again gives what the fetched values give. -/
theorem narrowed_eq_selectPaired {s : Session} (hs : s.Sound) {name : String} {values : List Value}
    {source : Option Provenance} (hvec : s.bindings name = some (.vector values source))
    (sel : Selection) (range : Range) :
    s.narrowed sel values source range = sel.positions.selectPaired values range := by
  unfold narrowed
  cases source with
  | none => rfl
  | some origin =>
    obtain ⟨col, hcol, hvalues⟩ := hs name _ hvec
    by_cases heq : origin.positions = sel.positions
    · -- the selection may be one of another table, but its positions are those of the fetch
      rw [heq] at hvalues
      simp only [heq, if_true, hcol]
      exact (Column.selectAmong_of_fetch hvalues range).trans
        (PositionSet.selectPaired_of_fetch hvalues range).symm
    · simp only [heq, if_false]

/-- **A selection from a vector depends on the vector alone.** In every
session a selection from a position set and a vector pairs the two, or finds
that their lengths differ, wherever the vector came from. If it was fetched,
its column is still there, still holds the vector's values at its positions,
and selects just what they select. -/
theorem selectFrom_eq_selectPaired (c : Catalog) (cs : List Command)
    (target positions vector : String) (range : Range) {sel : Selection} {values : List Value}
    {source : Option Provenance}
    (hsel : ((start c).visit cs).2.bindings positions = some (.selection sel))
    (hvec : ((start c).visit cs).2.bindings vector = some (.vector values source)) :
    ((start c).visit cs).2.effect (.selectFrom target positions vector range) =
      (sel.positions.selectPaired values range).map (fun kept =>
        .assign target (.selection ⟨kept, sel.table, sel.generation⟩)) ∧
    ∀ origin, source = some origin → ∃ col kept,
      ((start c).visit cs).2.catalog.resolve origin.column = .ok col ∧
      col.fetch origin.positions = .ok values ∧
      col.selectAmong range origin.positions = .ok kept ∧
      origin.positions.selectPaired values range = .ok kept := by
  have hs := sound_visit (sound_start c) cs
  generalize ((start c).visit cs).2 = s at hsel hvec hs
  constructor
  · have hn := narrowed_eq_selectPaired hs hvec sel range
    rw [effect, selection_eq_ok_iff.mpr hsel, vector_eq_ok_iff.mpr hvec]
    change s.narrowed sel values source range >>= _ = _
    rw [hn]
    cases sel.positions.selectPaired values range <;> rfl
  · rintro origin rfl
    obtain ⟨col, hcol, hvalues⟩ := hs vector _ hvec
    exact ⟨col, _, hcol, hvalues, Column.selectAmong_of_fetch hvalues range,
      PositionSet.selectPaired_of_fetch hvalues range⟩

/-- Two columns of three rows. -/
def threeRows : Catalog :=
  Catalog.empty.register
    ⟨"db.t", [Column.ofInts "a" [3, 5, 1], Column.ofInts "b" [10, 20, 30]], 3, by decide, by decide⟩

/-- Selects two rows and fetches them, before a third such row comes in. -/
def fetchThenInsert : List Command :=
  [.select "s" "db.t.a" ⟨.at (.int 2), .unbounded⟩, .fetch "v" "db.t.b" "s",
   .insert "db.t" [.int 9, .int 40]]

/-- The column has grown since the fetch, and the one position in range is
the one that the vector gives. -/
theorem selectFrom_after_insert :
    ((start threeRows).visit fetchThenInsert).2.bindings "s" =
        some (.selection ⟨⟨[0, 1], by decide⟩, "db.t", 0⟩) ∧
      ((start threeRows).visit fetchThenInsert).2.bindings "v" =
        some (.vector [.int 10, .int 20] (some ⟨"db.t.b", ⟨[0, 1], by decide⟩⟩)) ∧
      ((start threeRows).visit fetchThenInsert).2.effect
          (.selectFrom "r" "s" "v" ⟨.at (.int 15), .unbounded⟩) =
        .ok (.assign "r" (.selection ⟨⟨[1], by decide⟩, "db.t", 0⟩)) :=
  ⟨rfl, rfl,
    (selectFrom_eq_selectPaired threeRows fetchThenInsert "r" "s" "v"
      ⟨.at (.int 15), .unbounded⟩ rfl rfl).1⟩

/-! ### The faults of a command -/

/-- What a script can do wrong: a position is not among it. -/
def OfScript (f : Fault) : Prop :=
  f.OfName ∨ f.OfShape ∨ f.OfNumber ∨ ∃ selection column, f = .staleSelection selection column

theorem failsOnly_narrowed {s : Session} (hs : s.Sound) {name : String} {values : List Value}
    {source : Option Provenance} (hvec : s.bindings name = some (.vector values source))
    (sel : Selection) (range : Range) :
    FailsOnly Fault.OfShape (s.narrowed sel values source range) := by
  rw [narrowed_eq_selectPaired hs hvec]
  exact PositionSet.failsOnly_selectPaired _ _ _

/-- The rows of a selection that is not stale can be fetched from every
column of its table. -/
theorem exists_fetch_of_sound {s : Session} (hs : s.Sound) {name column field : String}
    {sel : Selection} {col : Column} (hsel : s.bindings name = some (.selection sel))
    (hsplit : splitQualified column = .ok (sel.table, field))
    (hcol : s.catalog.resolve column = .ok col) : ∃ values, col.fetch sel.positions = .ok values := by
  obtain ⟨t, ht, hrows, -⟩ := hs name _ hsel
  obtain ⟨t', ht', hfield⟩ := Catalog.find?_of_resolve hsplit hcol
  obtain rfl := Option.some.inj (ht.symm.trans ht')
  refine Column.exists_fetch fun p hp => ?_
  rw [Table.size_column? hfield]
  exact hrows p hp

theorem failsOnly_effect {s : Session} (hs : s.Sound) (c : Command) :
    FailsOnly OfScript (s.effect c) := by
  have hname : ∀ {α : Type} {x : Except Fault α}, FailsOnly Fault.OfName x → FailsOnly OfScript x :=
    fun h => h.mono fun _ => .inl
  have hshape : ∀ {α : Type} {x : Except Fault α},
      FailsOnly Fault.OfShape x → FailsOnly OfScript x :=
    fun h => h.mono fun _ hf => .inr (.inl hf)
  cases c with
  | comment | blank | createDatabase | load | shutdown => exact .ok
  | createTable name database columns =>
    refine .bind (hname (Catalog.failsOnly_table _ _)) fun t _ => ?_
    split
    · exact .ok
    · exact .error (.inr (.inl trivial))
  | createColumn name table =>
    refine .bind (hname (Catalog.failsOnly_table _ _)) fun t _ => ?_
    exact .bind (hname (Table.failsOnly_column _ _)) fun _ _ => .ok
  | insert table row =>
    refine .bind (hname (Catalog.failsOnly_table _ _)) fun t _ => ?_
    exact .bind (hshape (Table.failsOnly_insert _ _)) fun _ _ => .ok
  | select target column range =>
    refine .bind (hname (failsOnly_splitQualified _)) fun p _ => ?_
    exact .bind (hname (Catalog.failsOnly_resolve _ _)) fun _ _ => .ok
  | selectFrom target positions vector range =>
    refine .bind (hname (failsOnly_selection _ _)) fun sel _ => ?_
    refine .bind (hname (failsOnly_vector _ _)) fun p hvec => ?_
    exact .bind (hshape (failsOnly_narrowed hs (vector_eq_ok_iff.mp hvec) _ _)) fun _ _ => .ok
  | fetch target column positions =>
    refine .bind (hname (failsOnly_selection _ _)) fun sel hsel => ?_
    refine .bind (hname (failsOnly_splitQualified _)) fun p hsplit => ?_
    obtain ⟨table, field⟩ := p
    dsimp only
    split
    · rename_i hcur
      -- the selection is of this table, whose rows are those of each column
      obtain ⟨rfl, -⟩ := hcur
      refine .bind (hname (Catalog.failsOnly_resolve _ _)) fun col hcol => ?_
      obtain ⟨values, hvalues⟩ :=
        exists_fetch_of_sound hs (selection_eq_ok_iff.mp hsel) hsplit hcol
      rw [hvalues]
      exact .ok
    · exact .error (.inr (.inr (.inr ⟨_, _, rfl⟩)))
  | aggregate target function source =>
    refine .bind (hname (failsOnly_operand _ _)) fun values _ => ?_
    refine .bind ((Aggregate.failsOnly_apply _ _).mono fun _ hf => ?_) fun _ _ => .ok
    exact .inr (.inr (.inl hf))
  | arithmetic target operation left right =>
    refine .bind (hname (failsOnly_vector _ _)) fun _ _ => ?_
    refine .bind (hname (failsOnly_vector _ _)) fun _ _ => ?_
    refine .bind ((Arithmetic.failsOnly_apply _ _ _).mono fun _ hf => ?_) fun _ _ => .ok
    exact .inr (hf.imp_right .inl)
  | print names =>
    refine .bind (hname (.mapM (failsOnly_printable _) _)) fun args _ => ?_
    exact .bind (hshape (failsOnly_printed _)) fun _ _ => .ok

/-- **Positions are always in bounds.** In every session, after any commands,
each selection is strictly ascending, its table is registered, its positions
are rows of that table, and its generation is none to come; and no command
ever fails for a position that is out of range. -/
theorem selections_in_bounds (c : Catalog) (cs : List Command) :
    (∀ name sel, ((start c).visit cs).2.bindings name = some (.selection sel) →
      sel.positions.positions.Pairwise (· < ·) ∧
      ∃ t, ((start c).visit cs).2.catalog.find? sel.table = some t ∧
        (∀ p ∈ sel.positions, p < t.rowCount) ∧
        sel.generation ≤ ((start c).visit cs).2.generation sel.table) ∧
    ∀ command position rows,
      ((start c).visit cs).2.effect command ≠ .error (.positionOutOfRange position rows) := by
  have hs := sound_visit (sound_start c) cs
  constructor
  · intro name sel hsel
    exact ⟨sel.positions.ascending, hs name _ hsel⟩
  · intro command position rows h
    rcases failsOnly_effect hs command _ h with hf | hf | hf | ⟨_, _, hf⟩
    · exact hf
    · exact hf
    · exact hf
    · cases hf

end Session
end Columnar
