/-
# What a command may do

`Session.effect` computes whether a command succeeds and what it does then.
`Performs` says the same by rules, one for each kind of command: all that
must hold in the session, and the effect (`effect_eq_ok_iff`). A proof about
every command that succeeds is a proof by cases on the rules.

A command has three ways to change a session: a table grows, a generation
with it, and the command's target is assigned. What it leaves alone is said
once here. What every successful command keeps, a whole run keeps, together
with the list of the commands that succeeded in it (`visit_induction`).

Key definitions: `Session.Performs`, `Session.successes`.
Key theorems: `Session.effect_eq_ok_iff`, `Session.visit_induction`.
-/
import Columnar.Proofs.Growth

namespace Columnar

/-- Whether a command adds a row to a table. -/
def Command.insertsInto (table : String) : Command → Bool
  | .insert name _ => name = table
  | _ => false

/-- The variable that an effect assigns. -/
def Effect.target? : Effect → Option String
  | assign target _ => some target
  | _ => none

namespace Session

/-- In the session `s` a command succeeds and has an effect. -/
inductive Performs (s : Session) : Command → Effect → Prop where
  | comment {text : String} : Performs s (.comment text) .nothing
  | blank : Performs s .blank .nothing
  | createDatabase {name : String} : Performs s (.createDatabase name) .nothing
  | load {path : String} : Performs s (.load path) .nothing
  | shutdown : Performs s .shutdown .nothing
  | createTable {name database : String} {t : Table} :
    s.catalog.find? (qualify database name) = some t →
    Performs s (.createTable name database t.columns.length) .nothing
  | createColumn {name table : String} {t : Table} {col : Column} :
    s.catalog.find? table = some t → t.column? name = some col →
    Performs s (.createColumn name table) .nothing
  | insert {table : String} {row : List Value} {t u : Table} :
    s.catalog.find? table = some t → t.insert row = .ok u →
    Performs s (.insert table row) (.grow u)
  | select {target column table field : String} {range : Range} {col : Column} :
    splitQualified column = .ok (table, field) → s.catalog.resolve column = .ok col →
    Performs s (.select target column range)
      (.assign target (.selection ⟨col.select range, table, s.generation table⟩))
  | selectFrom {target positions vector : String} {range : Range} {sel : Selection}
      {values : List Value} {source : Option Provenance} {kept : PositionSet} :
    s.bindings positions = some (.selection sel) →
    s.bindings vector = some (.vector values source) →
    s.narrowed sel values source range = .ok kept →
    Performs s (.selectFrom target positions vector range)
      (.assign target (.selection ⟨kept, sel.table, sel.generation⟩))
  | fetch {target column positions field : String} {sel : Selection} {col : Column}
      {values : List Value} :
    s.bindings positions = some (.selection sel) →
    splitQualified column = .ok (sel.table, field) →
    sel.generation = s.generation sel.table →
    s.catalog.resolve column = .ok col → col.fetch sel.positions = .ok values →
    Performs s (.fetch target column positions)
      (.assign target (.vector values (some ⟨column, sel.positions⟩)))
  | aggregate {target : String} {function : Aggregate} {source : Source} {values : List Value}
      {result : Scalar} :
    s.operand source = .ok values → function.apply values = .ok result →
    Performs s (.aggregate target function source) (.assign target (.scalar result))
  | arithmetic {target left right : String} {operation : Arithmetic} {xs ys zs : List Value}
      {xsource ysource : Option Provenance} :
    s.bindings left = some (.vector xs xsource) → s.bindings right = some (.vector ys ysource) →
    operation.apply xs ys = .ok zs →
    Performs s (.arithmetic target operation left right) (.assign target (.vector zs none))
  | print {names : List String} {args : List Printable} {text : String} :
    names.mapM s.printable = .ok args → printed args = .ok text →
    Performs s (.print names) (.output text)

theorem performs_of_effect {s : Session} {c : Command} {e : Effect} (h : s.effect c = .ok e) :
    Performs s c e := by
  cases c with
  | comment text => cases h; exact .comment
  | blank => cases h; exact .blank
  | createDatabase name => cases h; exact .createDatabase
  | load path => cases h; exact .load
  | shutdown => cases h; exact .shutdown
  | createTable name database columns =>
    simp only [effect, bind_eq_ok_iff, Catalog.table_eq_ok_iff] at h
    obtain ⟨t, ht, h⟩ := h
    split at h
    · rename_i hlen
      cases h
      rw [← hlen]
      exact .createTable ht
    · cases h
  | createColumn name table =>
    simp only [effect, bind_eq_ok_iff, Catalog.table_eq_ok_iff, Table.column_eq_ok_iff] at h
    obtain ⟨t, ht, col, hcol, h⟩ := h
    cases h
    exact .createColumn ht hcol
  | insert table row =>
    simp only [effect, bind_eq_ok_iff, Catalog.table_eq_ok_iff] at h
    obtain ⟨t, ht, u, hu, h⟩ := h
    cases h
    exact .insert ht hu
  | select target column range =>
    simp only [effect, bind_eq_ok_iff] at h
    obtain ⟨⟨table, field⟩, hsplit, col, hcol, h⟩ := h
    cases h
    exact .select hsplit hcol
  | selectFrom target positions vector range =>
    simp only [effect, bind_eq_ok_iff, selection_eq_ok_iff] at h
    obtain ⟨sel, hsel, ⟨values, source⟩, hvec, kept, hkept, h⟩ := h
    cases h
    exact .selectFrom hsel (vector_eq_ok_iff.mp hvec) hkept
  | fetch target column positions =>
    simp only [effect, bind_eq_ok_iff, selection_eq_ok_iff] at h
    obtain ⟨sel, hsel, ⟨table, field⟩, hsplit, h⟩ := h
    split at h
    · rename_i hcur
      obtain ⟨rfl, hgen⟩ := hcur
      simp only [bind_eq_ok_iff] at h
      obtain ⟨col, hcol, values, hvalues, h⟩ := h
      cases h
      exact .fetch hsel hsplit hgen hcol hvalues
    · cases h
  | aggregate target function source =>
    simp only [effect, bind_eq_ok_iff] at h
    obtain ⟨values, hvalues, result, hresult, h⟩ := h
    cases h
    exact .aggregate hvalues hresult
  | arithmetic target operation left right =>
    simp only [effect, bind_eq_ok_iff] at h
    obtain ⟨⟨xs, xsource⟩, hx, ⟨ys, ysource⟩, hy, zs, hz, h⟩ := h
    cases h
    exact .arithmetic (vector_eq_ok_iff.mp hx) (vector_eq_ok_iff.mp hy) hz
  | print names =>
    simp only [effect, bind_eq_ok_iff] at h
    obtain ⟨args, hargs, text, htext, h⟩ := h
    cases h
    exact .print hargs htext

theorem effect_of_performs {s : Session} {c : Command} {e : Effect} (h : Performs s c e) :
    s.effect c = .ok e := by
  cases h with
  | comment | blank | createDatabase | load | shutdown => rfl
  | createTable ht =>
    simp only [effect, bind_eq_ok_iff, Catalog.table_eq_ok_iff]
    exact ⟨_, ht, if_pos rfl⟩
  | createColumn ht hcol =>
    simp only [effect, bind_eq_ok_iff, Catalog.table_eq_ok_iff, Table.column_eq_ok_iff]
    exact ⟨_, ht, _, hcol, trivial⟩
  | insert ht hu =>
    simp only [effect, bind_eq_ok_iff, Catalog.table_eq_ok_iff]
    exact ⟨_, ht, _, hu, rfl⟩
  | select hsplit hcol =>
    simp only [effect, bind_eq_ok_iff]
    exact ⟨_, hsplit, _, hcol, rfl⟩
  | selectFrom hsel hvec hkept =>
    simp only [effect, bind_eq_ok_iff, selection_eq_ok_iff]
    exact ⟨_, hsel, _, vector_eq_ok_iff.mpr hvec, _, hkept, rfl⟩
  | fetch hsel hsplit hgen hcol hvalues =>
    simp only [effect, bind_eq_ok_iff, selection_eq_ok_iff]
    refine ⟨_, hsel, _, hsplit, ?_⟩
    rw [if_pos ⟨rfl, hgen⟩]
    simp only [bind_eq_ok_iff]
    exact ⟨_, hcol, _, hvalues, rfl⟩
  | aggregate hvalues hresult =>
    simp only [effect, bind_eq_ok_iff]
    exact ⟨_, hvalues, _, hresult, rfl⟩
  | arithmetic hx hy hz =>
    simp only [effect, bind_eq_ok_iff]
    exact ⟨_, vector_eq_ok_iff.mpr hx, _, vector_eq_ok_iff.mpr hy, _, hz, rfl⟩
  | print hargs htext =>
    simp only [effect, bind_eq_ok_iff]
    exact ⟨_, hargs, _, htext, rfl⟩

/-- A command succeeds with an effect exactly as the rules say. -/
theorem effect_eq_ok_iff {s : Session} {c : Command} {e : Effect} :
    s.effect c = .ok e ↔ Performs s c e :=
  ⟨performs_of_effect, effect_of_performs⟩

/-! ### What a command leaves alone -/

theorem target?_effect {s : Session} {c : Command} {e : Effect} (h : Performs s c e) :
    e.target? = c.target? := by
  cases h <;> rfl

theorem exists_assign {s : Session} {c : Command} {e : Effect} (h : Performs s c e) {name : String}
    (hname : c.target? = some name) : ∃ b, e = .assign name b := by
  rw [← target?_effect h] at hname
  cases e with
  | assign target b =>
    cases hname
    exact ⟨b, rfl⟩
  | nothing | grow | output => cases hname

/-- Only the target of a command is assigned. -/
theorem bindings_after_of_ne {s : Session} {c : Command} {e : Effect} (h : Performs s c e)
    {name : String} (hne : c.target? ≠ some name) : (s.after e).bindings name = s.bindings name := by
  cases e with
  | nothing | grow | output => rfl
  | assign target b =>
    have hname : name ≠ target := fun heq => hne (heq ▸ (target?_effect h).symm)
    simp [after, hname]

/-- No row of a table is lost. -/
theorem extends_after {s : Session} {c : Command} {e : Effect} (h : Performs s c e) :
    s.catalog.Extends (s.after e).catalog := by
  cases h with
  | insert ht hu => exact Catalog.extends_register_insert ht hu
  | _ => exact Catalog.extends_refl _

/-- The generation of a table counts the rows inserted into it. -/
theorem generation_after {s : Session} {c : Command} {e : Effect} (h : Performs s c e)
    (table : String) :
    (s.after e).generation table =
      s.generation table + if c.insertsInto table then 1 else 0 := by
  cases h with
  | @insert name row t u ht hu =>
    have hname := Catalog.name_inserted ht hu
    by_cases heq : name = table
    · simp [after, Command.insertsInto, hname, heq]
    · simp [after, Command.insertsInto, hname, heq, Ne.symm heq]
  | _ => rfl

/-! ### Runs -/

/-- The commands that succeed when faulty ones are passed over, in order. -/
def successes (s : Session) : List Command → List Command
  | [] => []
  | c :: cs =>
    match s.effect c with
    | .ok e => c :: successes (s.after e) cs
    | .error _ => successes s cs

/-- What every successful command keeps of the session and of the commands
before it, the latest first, holds at the end of every run. -/
theorem visit_induction {P : List Command → Session → Prop}
    (step : ∀ {log s c e}, P log s → Performs s c e → P (c :: log) (s.after e)) :
    ∀ (cs : List Command) {log : List Command} {s : Session}, P log s →
      P ((s.successes cs).reverse ++ log) (s.visit cs).2
  | [], _, _, h => h
  | c :: cs, log, s, h => by
    rw [visit, successes]
    cases he : s.effect c with
    | ok e =>
      -- the command goes to the front of the log before the rest runs
      have ih := visit_induction step cs (step h (performs_of_effect he))
      simpa using ih
    | error fault => exact visit_induction step cs h

end Session
end Columnar
