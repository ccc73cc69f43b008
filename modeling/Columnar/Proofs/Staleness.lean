/-
# When a selection is stale

A selection may be fetched as long as its table is the one that the first
selection of its chain was made on, and has not grown since. That is said
here of the commands that were run, without generations: the log of the
commands that succeeded, the latest first, tells for every variable the
select that its positions go back to and the commands that came after it
(`rootOf`).

The generation in a selection and the one of its table differ by the number
of inserts into the table among those commands (`Tracked`). Every command
keeps that, so a fetch succeeds exactly if there was no such insert
(`fetch_succeeds_iff`).

Key definitions: `rootOf`, `Session.Rooted`, `Session.Tracked`.
Key theorems: `Session.tracked_visit`, `Session.fetch_succeeds_iff`.
-/
import Columnar.Proofs.Soundness

namespace Columnar

/-- The select that a variable's positions go back to, through any number of
selections from them: its column, and the commands since, the latest first.
A variable that holds no positions goes back to none. -/
def rootOf : List Command → String → Option (String × List Command)
  | [], _ => none
  | c :: earlier, name =>
    if c.target? = some name then
      match c with
      | .select _ column _ => some (column, [])
      | .selectFrom _ positions _ _ =>
        (rootOf earlier positions).map fun root => (root.1, c :: root.2)
      | _ => none
    else (rootOf earlier name).map fun root => (root.1, c :: root.2)

theorem rootOf_cons_of_ne {c : Command} {earlier : List Command} {name : String}
    (h : c.target? ≠ some name) :
    rootOf (c :: earlier) name = (rootOf earlier name).map fun root => (root.1, c :: root.2) := by
  simp only [rootOf, if_neg h]

theorem rootOf_select (target column : String) (range : Range) (earlier : List Command) :
    rootOf (.select target column range :: earlier) target = some (column, []) := by
  simp [rootOf, Command.target?]

theorem rootOf_selectFrom (target positions vector : String) (range : Range)
    (earlier : List Command) :
    rootOf (.selectFrom target positions vector range :: earlier) target =
      (rootOf earlier positions).map fun root =>
        (root.1, .selectFrom target positions vector range :: root.2) := by
  simp [rootOf, Command.target?]

/-- A table is inserted into if the count of its inserts says so. -/
theorem countP_insertsInto_eq_zero_iff {table : String} {cs : List Command} :
    cs.countP (·.insertsInto table) = 0 ↔ ∀ row, .insert table row ∉ cs := by
  rw [List.countP_eq_zero]
  constructor
  · intro h row hmem
    exact h _ hmem (by simp [Command.insertsInto])
  · intro h c hc hinto
    cases c with
    | insert name row =>
      have hname : name = table := by simpa [Command.insertsInto] using hinto
      exact h row (hname ▸ hc)
    | _ => cases hinto

namespace Session

/-- The variable goes back to a select on the selection's table, and the
inserts into the table since then are what its generation has gained. -/
def Rooted (log : List Command) (s : Session) (name : String) (sel : Selection) : Prop :=
  ∃ started since other, rootOf log name = some (started, since) ∧
    splitQualified started = .ok (sel.table, other) ∧
    s.generation sel.table = sel.generation + since.countP (·.insertsInto sel.table)

/-- The log tells of every variable where its positions come from. -/
structure Tracked (log : List Command) (s : Session) : Prop where
  selection : ∀ (name : String) (sel : Selection), s.bindings name = some (.selection sel) →
    Rooted log s name sel
  other : ∀ name : String, (∀ sel, s.bindings name ≠ some (.selection sel)) →
    rootOf log name = none

theorem tracked_start (c : Catalog) : Tracked [] (start c) where
  selection _ _ h := by cases h
  other _ _ := rfl

section Step

variable {log : List Command} {s : Session} {c : Command} {e : Effect}

/-- A variable that is not assigned keeps its root, one command further
back. -/
theorem tracked_of_ne (ht : Tracked log s) (hp : Performs s c e) {name : String} {sel : Selection}
    (hne : c.target? ≠ some name) (hsel : (s.after e).bindings name = some (.selection sel)) :
    Rooted (c :: log) (s.after e) name sel := by
  rw [bindings_after_of_ne hp hne] at hsel
  obtain ⟨started, since, other, hroot, hsplit, hgen⟩ := ht.selection name sel hsel
  refine ⟨started, c :: since, other, ?_, hsplit, ?_⟩
  · rw [rootOf_cons_of_ne hne, hroot, Option.map_some]
  · rw [generation_after hp, hgen, List.countP_cons, Nat.add_assoc]

/-- A selection that is assigned is rooted in its own select, or in the root
of the selection that it was made from. -/
theorem tracked_assigned (ht : Tracked log s) {target : String} {sel : Selection}
    (hp : Performs s c (.assign target (.selection sel))) : Rooted (c :: log) s target sel := by
  cases hp with
  | select hsplit _ => exact ⟨_, [], _, rootOf_select .., hsplit, rfl⟩
  | @selectFrom _ positions vector range _ _ _ _ hsel _ _ =>
    obtain ⟨started, since, other, hroot, hsplit, hgen⟩ := ht.selection positions _ hsel
    -- the command comes after the root as well, and inserts nothing
    refine ⟨started, .selectFrom target positions vector range :: since, other, ?_, hsplit, ?_⟩
    · rw [rootOf_selectFrom, hroot, Option.map_some]
    · rw [hgen, List.countP_cons_of_neg (by simp [Command.insertsInto])]

theorem rootOf_assigned {target : String} {b : Binding} (hp : Performs s c (.assign target b))
    (hb : ∀ sel, b ≠ .selection sel) : rootOf (c :: log) target = none := by
  cases hp with
  | select | selectFrom => exact absurd rfl (hb _)
  | fetch | aggregate | arithmetic => simp [rootOf, Command.target?]

theorem tracked_after (ht : Tracked log s) (hp : Performs s c e) :
    Tracked (c :: log) (s.after e) where
  selection name sel hsel := by
    by_cases hname : c.target? = some name
    · obtain ⟨b, rfl⟩ := exists_assign hp hname
      simp only [after, if_true, Option.some.injEq] at hsel
      subst hsel
      exact tracked_assigned ht hp
    · exact tracked_of_ne ht hp hname hsel
  other name hother := by
    by_cases hname : c.target? = some name
    · obtain ⟨b, rfl⟩ := exists_assign hp hname
      refine rootOf_assigned hp fun sel hb => hother sel ?_
      simp only [after, if_true, hb]
    · rw [rootOf_cons_of_ne hname, ht.other name, Option.map_none]
      rwa [bindings_after_of_ne hp hname] at hother

end Step

theorem tracked_visit (c : Catalog) (cs : List Command) :
    Tracked ((start c).successes cs).reverse ((start c).visit cs).2 := by
  have h := visit_induction (P := Tracked) tracked_after cs (tracked_start c)
  rwa [List.append_nil] at h

theorem Tracked.exists_selection {log : List Command} {s : Session} (ht : Tracked log s)
    {name started table other : String} {since : List Command}
    (hroot : rootOf log name = some (started, since))
    (hstarted : splitQualified started = .ok (table, other)) :
    ∃ sel, s.bindings name = some (.selection sel) ∧ sel.table = table ∧
      s.generation table = sel.generation + since.countP (·.insertsInto table) := by
  obtain ⟨sel, hsel⟩ : ∃ sel, s.bindings name = some (.selection sel) := by
    false_or_by_contra
    rename_i hno
    have hnone := ht.other name fun sel h => hno ⟨sel, h⟩
    rw [hroot] at hnone
    cases hnone
  obtain ⟨started', since', other', hroot', hsplit, hgen⟩ := ht.selection name sel hsel
  obtain ⟨rfl, rfl⟩ := Prod.mk.inj (Option.some.inj (hroot.symm.trans hroot'))
  obtain ⟨rfl, rfl⟩ := Prod.mk.inj (Except.ok.inj (hstarted.symm.trans hsplit))
  exact ⟨sel, hsel, rfl, hgen⟩

/-! ### Fetches -/

/-- A fetch succeeds if the selection is of the column's table as it is
now. -/
theorem fetch_succeeds_of_current {s : Session} (hs : s.Sound) {target column positions field : String}
    {sel : Selection} {t : Table} (hsel : s.bindings positions = some (.selection sel))
    (hsplit : splitQualified column = .ok (sel.table, field))
    (hgen : sel.generation = s.generation sel.table)
    (ht : s.catalog.find? sel.table = some t) (hfield : field ∈ t.columns.map Column.name) :
    ∃ e, s.effect (.fetch target column positions) = .ok e := by
  obtain ⟨col, hcol⟩ := Table.column?_isSome_iff.mpr hfield
  have hres : s.catalog.resolve column = .ok col :=
    Catalog.resolve_eq_ok_iff.mpr ⟨sel.table, field, t, hsplit, ht, hcol⟩
  obtain ⟨values, hvalues⟩ := exists_fetch_of_sound hs hsel hsplit hres
  exact ⟨_, effect_of_performs (.fetch hsel hsplit hgen hres hvalues)⟩

/-- A fetch that succeeds has a selection with a root, of the column's own
table, and that table was not inserted into since. -/
theorem root_of_fetch {log : List Command} {s : Session} (ht : Tracked log s)
    {target column positions : String} {e : Effect}
    (h : s.effect (.fetch target column positions) = .ok e) :
    ∃ started since table field other t, rootOf log positions = some (started, since) ∧
      splitQualified started = .ok (table, other) ∧ splitQualified column = .ok (table, field) ∧
      s.catalog.find? table = some t ∧ field ∈ t.columns.map Column.name ∧
      ∀ row, .insert table row ∉ since := by
  cases performs_of_effect h with
  | @fetch _ _ _ field sel col values hsel hsplit hgen hcol hvalues =>
    obtain ⟨started, since, other, hroot, hsplit', hcount⟩ := ht.selection positions sel hsel
    obtain ⟨t, hfind, hcol'⟩ := Catalog.find?_of_resolve hsplit hcol
    have hnone : since.countP (·.insertsInto sel.table) = 0 := by omega
    exact ⟨started, since, sel.table, field, other, t, hroot, hsplit', hsplit, hfind,
      Table.column?_isSome_iff.mp ⟨col, hcol'⟩, countP_insertsInto_eq_zero_iff.mp hnone⟩

/-- **When a fetch succeeds.** After any run a fetch succeeds if and only if
its variable holds positions, the select that they go back to was on the
table that the fetched column names, which has such a column, and no row was
inserted into that table after that select. In particular positions that go
back to before an insert into their table are never fetched again. -/
theorem fetch_succeeds_iff (c : Catalog) (cs : List Command) (target column positions : String) :
    ((∃ e, ((start c).visit cs).2.effect (.fetch target column positions) = .ok e) ↔
      ∃ started since table field other t,
        rootOf ((start c).successes cs).reverse positions = some (started, since) ∧
        splitQualified started = .ok (table, other) ∧
        splitQualified column = .ok (table, field) ∧
        ((start c).visit cs).2.catalog.find? table = some t ∧
        field ∈ t.columns.map Column.name ∧
        ∀ row, .insert table row ∉ since) ∧
    ∀ started since table other row,
      rootOf ((start c).successes cs).reverse positions = some (started, since) →
      splitQualified started = .ok (table, other) → .insert table row ∈ since →
      ∃ fault, ((start c).visit cs).2.effect (.fetch target column positions) = .error fault := by
  have hs := sound_visit (sound_start c) cs
  have ht := tracked_visit c cs
  generalize ((start c).visit cs).2 = s at hs ht
  generalize ((start c).successes cs).reverse = log at ht
  refine ⟨⟨fun ⟨e, he⟩ => root_of_fetch ht he, ?_⟩, ?_⟩
  · rintro ⟨started, since, table, field, other, t, hroot, hstarted, hcolumn, hfind, hfield, hnone⟩
    obtain ⟨sel, hsel, rfl, hgen⟩ := ht.exists_selection hroot hstarted
    rw [countP_insertsInto_eq_zero_iff.mpr hnone] at hgen
    exact fetch_succeeds_of_current hs hsel hcolumn hgen.symm hfind hfield
  · intro started since table other row hroot hstarted hrow
    cases he : s.effect (.fetch target column positions) with
    | error fault => exact ⟨fault, rfl⟩
    | ok e =>
      obtain ⟨_, _, _, _, _, _, hroot', hstarted', -, -, -, hnone⟩ := root_of_fetch ht he
      obtain ⟨rfl, rfl⟩ := Prod.mk.inj (Option.some.inj (hroot.symm.trans hroot'))
      obtain ⟨rfl, rfl⟩ := Prod.mk.inj (Except.ok.inj (hstarted.symm.trans hstarted'))
      exact absurd hrow (hnone row)

end Session
end Columnar
