/-
# Inserts into tables that a command does not name

A command names tables in its text: by the qualified names of columns, or in
a create or an insert (`Command.tables`). The variables that it reads may hold
positions of other tables and values from them. Still an insert into a table
that it does not name can come before it or after it: the two give the same
results in both orders and leave the same session
(`Session.visit_insert_comm`).

A selection from fetched values names no table but may read a column again,
one of the very table that is inserted into. In a session that commands have
led to this makes no difference, since the column gives there what the vector
holds (`Session.narrowed_eq_selectPaired`), and no insert changes a vector.

Key definitions: `tableOf?`, `Command.tables`.
Key theorems: `Session.effect_after_insert`, `Session.effect_insert_after`,
`Session.after_comm`, `Session.visit_insert_comm`.
-/
import Columnar.Proofs.Atomicity
import Columnar.Proofs.History
import Columnar.Proofs.Soundness

namespace Columnar

/-- The table that the qualified name of a column names. -/
def tableOf? (column : String) : Option String := (splitQualified column).toOption.map (·.1)

/-- The tables that the text of a command names. -/
def Command.tables : Command → List String
  | .createTable name database _ => [qualify database name]
  | .createColumn _ table => [table]
  | .insert table _ => [table]
  | .select _ column _ => (tableOf? column).toList
  | .fetch _ column _ => (tableOf? column).toList
  | .aggregate _ _ (.stored column) => (tableOf? column).toList
  | _ => []

theorem ne_of_tableOf? {column name : String} {p : String × String}
    (h : tableOf? column ≠ some name) (hsplit : splitQualified column = .ok p) : name ≠ p.1 := by
  intro heq
  apply h
  unfold tableOf?
  rw [hsplit, heq]
  rfl

/-! ### Two tables of a catalog -/

theorem putTable_comm {t u : Table} (hne : t.name ≠ u.name) {us : List Table}
    (ht : t.name ∈ us.map Table.name) (hu : u.name ∈ us.map Table.name) :
    putTable t (putTable u us) = putTable u (putTable t us) := by
  induction us with
  | nil => simp at ht
  | cons v us ih =>
    rw [List.map_cons, List.mem_cons] at ht hu
    by_cases hvt : v.name = t.name
    · have hvu : v.name ≠ u.name := fun heq => hne (hvt.symm.trans heq)
      simp only [putTable, if_neg hvu, if_pos hvt, if_neg hne]
    · by_cases hvu : v.name = u.name
      · simp only [putTable, if_pos hvu, if_neg hvt, if_neg (Ne.symm hne)]
      · have ht' : t.name ∈ us.map Table.name := ht.resolve_left (Ne.symm hvt)
        have hu' : u.name ∈ us.map Table.name := hu.resolve_left (Ne.symm hvu)
        simp only [putTable, if_neg hvu, if_neg hvt, ih ht' hu']

namespace Catalog

theorem register_comm {c : Catalog} {t u : Table} (hne : t.name ≠ u.name)
    (ht : t.name ∈ c.tables.map Table.name) (hu : u.name ∈ c.tables.map Table.name) :
    (c.register u).register t = (c.register t).register u :=
  Catalog.ext (putTable_comm hne ht hu)

theorem table_register_of_ne (c : Catalog) {u : Table} {name : String} (h : u.name ≠ name) :
    (c.register u).table name = c.table name := by
  unfold table
  rw [find?_register, if_neg h]

theorem resolve_register_of_ne (c : Catalog) {u : Table} {column : String}
    (h : tableOf? column ≠ some u.name) : (c.register u).resolve column = c.resolve column := by
  unfold resolve
  cases hsplit : splitQualified column with
  | error fault => rfl
  | ok p =>
    have hne : u.name ≠ p.1 := ne_of_tableOf? h hsplit
    simp only [ok_bind, table_register_of_ne c hne]

end Catalog

namespace Session

variable {s : Session} {c : Command} {table : String} {row : List Value} {u : Table}

/-- The table that an insert puts in its place has the name that it was
inserted into, and it was there before. -/
theorem name_of_insert (h : Performs s (.insert table row) (.grow u)) :
    u.name = table ∧ table ∈ s.catalog.tables.map Table.name := by
  cases h with
  | insert ht hu =>
    exact ⟨Catalog.name_inserted ht hu, Catalog.name_mem_of_find? ht⟩

/-! ### The command after the insert -/

theorem generation_after_grow_of_ne {name : String} (h : u.name ≠ name) :
    (s.after (.grow u)).generation name = s.generation name := by
  unfold after
  exact if_neg (Ne.symm h)

/-- The paired values decide in both sessions, whatever the column holds. -/
theorem narrowed_after_insert (hs : s.Sound) (h : Performs s (.insert table row) (.grow u))
    {vector : String} {values : List Value} {source : Option Provenance}
    (hvec : s.bindings vector = some (.vector values source)) (sel : Selection) (range : Range) :
    (s.after (.grow u)).narrowed sel values source range = s.narrowed sel values source range := by
  have hs' : (s.after (.grow u)).Sound := sound_after hs h
  have hvec' : (s.after (.grow u)).bindings vector = some (.vector values source) := hvec
  rw [narrowed_eq_selectPaired hs hvec, narrowed_eq_selectPaired hs' hvec']

/-- A command has the same effect, or the same fault, after an insert into a
table that it does not name. -/
theorem effect_after_insert (hs : s.Sound) (h : Performs s (.insert table row) (.grow u))
    (hc : table ∉ c.tables) : (s.after (.grow u)).effect c = s.effect c := by
  have hname : u.name = table := (name_of_insert h).1
  subst hname
  have hcatalog : (s.after (.grow u)).catalog = s.catalog.register u := rfl
  cases c with
  | comment | blank | createDatabase | load | shutdown | arithmetic | print => rfl
  | createTable name database columns =>
    have hne : u.name ≠ qualify database name := List.ne_of_not_mem_cons hc
    simp only [effect, hcatalog, Catalog.table_register_of_ne _ hne]
  | createColumn name other =>
    have hne : u.name ≠ other := List.ne_of_not_mem_cons hc
    simp only [effect, hcatalog, Catalog.table_register_of_ne _ hne]
  | insert other values =>
    have hne : u.name ≠ other := List.ne_of_not_mem_cons hc
    simp only [effect, hcatalog, Catalog.table_register_of_ne _ hne]
  | select target column range =>
    have hne : tableOf? column ≠ some u.name := fun heq => hc (Option.mem_toList.mpr heq)
    simp only [effect]
    cases hsplit : splitQualified column with
    | error fault => rfl
    | ok p =>
      have hp : u.name ≠ p.1 := ne_of_tableOf? hne hsplit
      simp only [ok_bind, hcatalog, Catalog.resolve_register_of_ne _ hne,
        generation_after_grow_of_ne hp]
  | selectFrom target positions vector range =>
    have hselection : (s.after (.grow u)).selection positions = s.selection positions := rfl
    have hvector : (s.after (.grow u)).vector vector = s.vector vector := rfl
    simp only [effect, hselection, hvector]
    cases s.selection positions with
    | error fault => rfl
    | ok sel =>
      cases hvec : s.vector vector with
      | error fault => rfl
      | ok p =>
        have hbinding := vector_eq_ok_iff.mp hvec
        simp only [ok_bind, narrowed_after_insert hs h hbinding]
  | fetch target column positions =>
    have hne : tableOf? column ≠ some u.name := fun heq => hc (Option.mem_toList.mpr heq)
    have hselection : (s.after (.grow u)).selection positions = s.selection positions := rfl
    simp only [effect, hselection]
    cases s.selection positions with
    | error fault => rfl
    | ok sel =>
      cases hsplit : splitQualified column with
      | error fault => rfl
      | ok p =>
        simp only [ok_bind, hcatalog, Catalog.resolve_register_of_ne _ hne]
        -- a selection of the inserted table is stale for this column in both sessions
        by_cases htable : p.1 = sel.table
        · have hp : u.name ≠ sel.table := htable ▸ ne_of_tableOf? hne hsplit
          rw [generation_after_grow_of_ne hp]
        · have hstale : ∀ g : Nat, ¬(p.1 = sel.table ∧ sel.generation = g) := fun _ h => htable h.1
          rw [if_neg (hstale _), if_neg (hstale _)]
  | aggregate target function source =>
    cases source with
    | assigned name => rfl
    | stored column =>
      have hne : tableOf? column ≠ some u.name := fun heq => hc (Option.mem_toList.mpr heq)
      simp only [effect, operand, hcatalog, Catalog.resolve_register_of_ne _ hne]

/-! ### The insert after the command -/

/-- An insert has the same effect, or the same fault, after a command that
does not name its table. -/
theorem effect_insert_after {e : Effect} (h : Performs s c e) (hc : table ∉ c.tables)
    (row : List Value) : (s.after e).effect (.insert table row) = s.effect (.insert table row) := by
  cases h with
  | @insert other values t v ht hv =>
    have hne : v.name ≠ table := by
      rw [Catalog.name_inserted ht hv]
      exact Ne.symm (List.ne_of_not_mem_cons hc)
    have hcatalog : (s.after (.grow v)).catalog = s.catalog.register v := rfl
    simp only [effect, hcatalog, Catalog.table_register_of_ne _ hne]
  | _ => rfl

theorem after_comm {e : Effect} (hu : Performs s (.insert table row) (.grow u))
    (h : Performs s c e) (hc : table ∉ c.tables) :
    (s.after (.grow u)).after e = (s.after e).after (.grow u) := by
  cases h with
  | @insert other values t v ht hv =>
    have hother : v.name = other ∧ other ∈ s.catalog.tables.map Table.name :=
      name_of_insert (.insert ht hv)
    have htable := name_of_insert hu
    have hne : v.name ≠ u.name := by
      rw [hother.1, htable.1]
      exact Ne.symm (List.ne_of_not_mem_cons hc)
    apply Session.ext
    · exact Catalog.register_comm hne (hother.1 ▸ hother.2) (htable.1 ▸ htable.2)
    · -- each of the two counts where it counted before
      funext name
      show (if name = v.name then (if name = u.name then s.generation name + 1
          else s.generation name) + 1
        else if name = u.name then s.generation name + 1 else s.generation name) =
        if name = u.name then (if name = v.name then s.generation name + 1
          else s.generation name) + 1
        else if name = v.name then s.generation name + 1 else s.generation name
      split <;> split <;> rfl
    · rfl
  | _ => rfl

/-! ### Both orders -/

theorem visit_pair (s : Session) (c d : Command) :
    s.visit [c, d] =
      let first := s.outcome (s.effect c)
      let second := first.2.outcome (first.2.effect d)
      ([first.1, second.1], second.2) := by
  simp only [visit]
  cases s.effect c with
  | error fault =>
    simp only [outcome]
    cases s.effect d <;> rfl
  | ok e =>
    simp only [outcome]
    cases (s.after e).effect d <;> rfl

/-- **An insert commutes with every command that does not name its table.**
In every session that commands have led to, to insert a row and then carry out
such a command gives the same two results, texts or faults, as to do the
command first, and leaves the same session. What the variables hold does not
matter, be it positions of that table or values from it. -/
theorem visit_insert_comm (catalog : Catalog) (cs : List Command) {table : String}
    (row : List Value) {c : Command} (hc : table ∉ c.tables) :
    ∃ inserted given last,
      ((start catalog).visit cs).2.visit [.insert table row, c] = ([inserted, given], last) ∧
      ((start catalog).visit cs).2.visit [c, .insert table row] = ([given, inserted], last) := by
  have hs := sound_visit (sound_start catalog) cs
  generalize ((start catalog).visit cs).2 = s at hs
  rw [visit_pair, visit_pair]
  refine ⟨(s.outcome (s.effect (.insert table row))).1, (s.outcome (s.effect c)).1, ?_⟩
  cases hinsert : s.effect (.insert table row) with
  | error fault =>
    -- nothing is inserted, and nothing is after the command either
    cases hcommand : s.effect c with
    | error other => exact ⟨s, by simp only [outcome, hcommand], by simp only [outcome, hinsert]⟩
    | ok e =>
      have hlater := effect_insert_after (performs_of_effect hcommand) hc row
      rw [hinsert] at hlater
      exact ⟨s.after e, by simp only [outcome, hcommand], by simp only [outcome, hlater]⟩
  | ok grown =>
    have hperforms := performs_of_effect hinsert
    obtain ⟨u, rfl⟩ : ∃ u, grown = .grow u := by
      cases hperforms with
      | insert ht hu => exact ⟨_, rfl⟩
    have hsame := effect_after_insert hs hperforms hc
    cases hcommand : s.effect c with
    | error other =>
      rw [hcommand] at hsame
      exact ⟨s.after (.grow u), by simp only [outcome, hsame], by simp only [outcome, hinsert]⟩
    | ok e =>
      rw [hcommand] at hsame
      have hlater := effect_insert_after (performs_of_effect hcommand) hc row
      rw [hinsert] at hlater
      have hswap := after_comm hperforms (performs_of_effect hcommand) hc
      exact ⟨(s.after (.grow u)).after e, by simp only [outcome, hsame],
        by simp only [outcome, hlater, hswap]⟩

/-- Selects again from the values that were fetched. -/
def selectAgain : Command := .selectFrom "r" "s" "v" ⟨.at (.int 15), .unbounded⟩

/-- The column that is read again has grown by one row or by two, and the one
position in range is the same. -/
theorem visit_insert_selectAgain :
    "db.t" ∉ selectAgain.tables ∧
      ∃ last,
        ((start threeRows).visit fetchThenInsert).2.visit
            [.insert "db.t" [.int 7, .int 70], selectAgain] = ([.ok none, .ok none], last) ∧
        ((start threeRows).visit fetchThenInsert).2.visit
            [selectAgain, .insert "db.t" [.int 7, .int 70]] = ([.ok none, .ok none], last) ∧
        last.bindings "r" = some (.selection ⟨⟨[1], by decide⟩, "db.t", 0⟩) := by
  have hc : "db.t" ∉ selectAgain.tables := List.not_mem_nil
  obtain ⟨inserted, given, last, hfirst, hsecond⟩ :=
    visit_insert_comm threeRows fetchThenInsert [.int 7, .int 70] hc
  obtain ⟨hresults, hlast⟩ := Prod.mk.inj hfirst
  have hinserted : Except.ok none = inserted := (List.cons.inj hresults).1
  have hgiven : Except.ok none = given := (List.cons.inj (List.cons.inj hresults).2).1
  subst hinserted hgiven
  refine ⟨hc, last, hfirst, hsecond, ?_⟩
  rw [← hlast]
  rfl

end Session
end Columnar
