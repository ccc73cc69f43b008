/-
# Scripts that stand on their own

A script is self-contained if it reads only variables that it has assigned
before. Such a script gives the same output in a session that has gone on
for a while as in a new one on the same tables: the variables from before
are not read, and where the new session has a generation, the other has the
same one plus what it had gained before (`Session.Follows`). Two selections
that one session tells apart by their generations the other tells apart too.

So to evaluate scenarios one after the other, each in a session of its own
on the tables that the one before left, is to run all their commands in one
session (`evaluateAll_iff_run`).

Key definitions: `Command.SelfContained`, `Session.Follows`,
`Scenario.evaluateAll`.
Key theorems: `Session.effect_of_follows`, `Session.run_selfContained`,
`Scenario.evaluateAll_iff_run`.
-/
import Columnar.Proofs.Step
import Columnar.Scenario

namespace Columnar

namespace Command

/-- Every command reads only variables that are known or that a command
before it assigns. -/
def ReadsWithin : List String → List Command → Prop
  | _, [] => True
  | known, c :: cs =>
    (∀ name ∈ c.reads, name ∈ known) ∧ ReadsWithin (c.target?.toList ++ known) cs

instance decidableReadsWithin : ∀ (known : List String) (cs : List Command),
    Decidable (ReadsWithin known cs)
  | _, [] => .isTrue trivial
  | known, c :: cs =>
    have := decidableReadsWithin (c.target?.toList ++ known) cs
    inferInstanceAs (Decidable (_ ∧ _))

/-- Every variable that is read was assigned by a command before. -/
def SelfContained (cs : List Command) : Prop := ReadsWithin [] cs

instance (cs : List Command) : Decidable (SelfContained cs) := decidableReadsWithin [] cs

end Command

/-! ### The same later -/

/-- The selection in a session whose tables had gained generations before. -/
def Selection.later (gain : String → Nat) (sel : Selection) : Selection :=
  { sel with generation := sel.generation + gain sel.table }

def Binding.later (gain : String → Nat) : Binding → Binding
  | selection sel => selection (sel.later gain)
  | b => b

def Effect.later (gain : String → Nat) : Effect → Effect
  | assign target b => assign target (b.later gain)
  | e => e

theorem Effect.text_later (gain : String → Nat) (e : Effect) : (e.later gain).text = e.text := by
  cases e <;> rfl

namespace Session

/-- The session `t` is `s` with generations gained and variables assigned
before, as far as the known variables go. -/
structure Follows (gain : String → Nat) (known : List String) (s t : Session) : Prop where
  catalog : t.catalog = s.catalog
  generation : ∀ table, t.generation table = s.generation table + gain table
  bindings : ∀ name ∈ known, t.bindings name = (s.bindings name).map (Binding.later gain)

theorem follows_start (t : Session) : Follows t.generation [] (start t.catalog) t where
  catalog := rfl
  generation _ := (Nat.zero_add _).symm
  bindings name h := by cases h

section Read

variable {gain : String → Nat} {known : List String} {s t : Session}

theorem lookup_of_follows (h : Follows gain known s t) {name : String} (hname : name ∈ known) :
    t.lookup name = (s.lookup name).map (Binding.later gain) := by
  unfold lookup
  rw [h.bindings name hname]
  cases s.bindings name <;> rfl

theorem selection_of_follows (h : Follows gain known s t) {name : String} (hname : name ∈ known) :
    t.selection name = (s.selection name).map (Selection.later gain) := by
  unfold selection
  rw [lookup_of_follows h hname]
  cases s.lookup name with
  | error fault => rfl
  | ok b => cases b <;> rfl

/-- What does not read the generation of a binding reads the same. -/
theorem bind_lookup_of_follows (h : Follows gain known s t) {name : String} (hname : name ∈ known)
    {α : Type} {read : Binding → Except Fault α} (hread : ∀ b, read (b.later gain) = read b) :
    (t.lookup name >>= read) = (s.lookup name >>= read) := by
  rw [lookup_of_follows h hname]
  cases s.lookup name with
  | error fault => rfl
  | ok b => exact hread b

theorem vector_of_follows (h : Follows gain known s t) {name : String} (hname : name ∈ known) :
    t.vector name = s.vector name :=
  bind_lookup_of_follows h hname fun b => by cases b <;> rfl

theorem printable_of_follows (h : Follows gain known s t) {name : String} (hname : name ∈ known) :
    t.printable name = s.printable name :=
  bind_lookup_of_follows h hname fun b => by cases b <;> rfl

theorem printables_of_follows (h : Follows gain known s t) : ∀ {names : List String},
    (∀ name ∈ names, name ∈ known) → names.mapM t.printable = names.mapM s.printable
  | [], _ => rfl
  | name :: names, hnames => by
    rw [List.forall_mem_cons] at hnames
    rw [List.mapM_cons, List.mapM_cons, printable_of_follows h hnames.1,
      printables_of_follows h hnames.2]

theorem narrowed_of_follows (h : Follows gain known s t) (sel : Selection) (values : List Value)
    (source : Option Provenance) (range : Range) :
    t.narrowed (sel.later gain) values source range = s.narrowed sel values source range := by
  unfold narrowed
  rw [h.catalog]
  rfl

theorem operand_of_follows (h : Follows gain known s t) {target : String} {function : Aggregate}
    {source : Source}
    (hreads : ∀ name ∈ (Command.aggregate target function source).reads, name ∈ known) :
    t.operand source = s.operand source := by
  cases source with
  | stored name => rw [operand, operand, h.catalog]
  | assigned name => rw [operand, operand, vector_of_follows h (hreads name List.mem_cons_self)]

end Read

section Step

variable {gain : String → Nat} {known : List String} {s t : Session}

/-- A command that reads known variables only does the same in both. -/
theorem effect_of_follows (h : Follows gain known s t) {c : Command}
    (hreads : ∀ name ∈ c.reads, name ∈ known) :
    t.effect c = (s.effect c).map (Effect.later gain) := by
  cases c with
  | comment | blank | createDatabase | load | shutdown => rfl
  | createTable name database columns =>
    simp only [effect, h.catalog]
    cases s.catalog.table (qualify database name) with
    | error fault => rfl
    | ok u =>
      by_cases hlen : u.columns.length = columns
      · simp only [ok_bind, if_pos hlen]
        rfl
      · simp only [ok_bind, if_neg hlen]
        rfl
  | createColumn name table =>
    simp only [effect, h.catalog]
    cases s.catalog.table table with
    | error fault => rfl
    | ok u =>
      simp only [ok_bind]
      cases u.column name <;> rfl
  | insert table row =>
    simp only [effect, h.catalog]
    cases s.catalog.table table with
    | error fault => rfl
    | ok u =>
      simp only [ok_bind]
      cases u.insert row <;> rfl
  | select target column range =>
    simp only [effect, h.catalog, h.generation]
    cases splitQualified column with
    | error fault => rfl
    | ok p =>
      simp only [ok_bind]
      cases hcol : s.catalog.resolve column with
      | error fault => rfl
      | ok col => rfl
  | selectFrom target positions vector range =>
    simp only [effect, selection_of_follows h (hreads positions (by simp [Command.reads])),
      vector_of_follows h (hreads vector (by simp [Command.reads]))]
    cases s.selection positions with
    | error fault => rfl
    | ok sel =>
      simp only [Except.map, ok_bind]
      cases s.vector vector with
      | error fault => rfl
      | ok p =>
        simp only [ok_bind, narrowed_of_follows h]
        cases s.narrowed sel p.1 p.2 range <;> rfl
  | fetch target column positions =>
    simp only [effect, selection_of_follows h (hreads positions (by simp [Command.reads])),
      h.catalog, h.generation]
    cases s.selection positions with
    | error fault => rfl
    | ok sel =>
      simp only [Except.map, ok_bind]
      cases splitQualified column with
      | error fault => rfl
      | ok p =>
        -- the gain stands on both sides, so both find the selection stale or neither does
        simp only [ok_bind, Selection.later, Nat.add_right_cancel_iff]
        by_cases hcur : p.1 = sel.table ∧ sel.generation = s.generation sel.table
        · rw [if_pos hcur]
          cases s.catalog.resolve column with
          | error fault => rfl
          | ok col =>
            simp only [ok_bind]
            cases col.fetch sel.positions <;> rfl
        · rw [if_neg hcur]
  | aggregate target function source =>
    simp only [effect, operand_of_follows h hreads]
    cases s.operand source with
    | error fault => rfl
    | ok values =>
      simp only [ok_bind]
      cases function.apply values <;> rfl
  | arithmetic target operation left right =>
    simp only [effect, vector_of_follows h (hreads left (by simp [Command.reads])),
      vector_of_follows h (hreads right (by simp [Command.reads]))]
    cases s.vector left with
    | error fault => rfl
    | ok x =>
      cases s.vector right with
      | error fault => rfl
      | ok y =>
        simp only [ok_bind]
        cases operation.apply x.1 y.1 <;> rfl
  | print names =>
    have hargs : names.mapM t.printable = names.mapM s.printable := printables_of_follows h hreads
    simp only [effect]
    rw [hargs]
    cases names.mapM s.printable with
    | error fault => rfl
    | ok args =>
      simp only [ok_bind]
      cases printed args <;> rfl

/-- Two sessions that did the same are still alike, also on the variable that
was assigned. -/
theorem follows_after (h : Follows gain known s t) (e : Effect) :
    Follows gain (e.target?.toList ++ known) (s.after e) (t.after (e.later gain)) := by
  cases e with
  | nothing | output => exact h
  | grow table =>
    refine ⟨congrArg (Catalog.register · table) h.catalog, fun name => ?_, h.bindings⟩
    simp only [after, Effect.later, h.generation]
    split
    · exact Nat.add_right_comm ..
    · rfl
  | assign target b =>
    refine ⟨h.catalog, h.generation, fun name hname => ?_⟩
    by_cases heq : name = target
    · simp [after, Effect.later, heq]
    · have hold : name ∈ known := by simpa [Effect.target?, heq] using hname
      simpa [after, Effect.later, heq] using h.bindings name hold

end Step

/-! ### Scripts -/

theorem runFrom_of_follows {gain : String → Nat} : ∀ (cs : List Command) {known : List String}
    {s t : Session} (printed : String), Follows gain known s t → Command.ReadsWithin known cs →
    (runFrom printed t cs).1 = (runFrom printed s cs).1 ∧
      (runFrom printed t cs).2.catalog = (runFrom printed s cs).2.catalog
  | [], _, _, _, _, h, _ => ⟨rfl, h.catalog⟩
  | c :: cs, known, s, t, printed, h, hreads => by
    rw [runFrom, runFrom, effect_of_follows h hreads.1]
    cases he : s.effect c with
    | error fault => exact ⟨rfl, h.catalog⟩
    | ok e =>
      have hstep := follows_after h e
      rw [target?_effect (performs_of_effect he)] at hstep
      have ih := runFrom_of_follows cs (printed ++ e.text) hstep hreads.2
      simpa only [Except.map, Effect.text_later] using ih

/-- A self-contained script does in a session what it does in a new one on
the same tables. -/
theorem run_selfContained {cs : List Command} (hcs : Command.SelfContained cs) (t : Session) :
    (t.run cs).1 = ((start t.catalog).run cs).1 ∧
      (t.run cs).2.catalog = ((start t.catalog).run cs).2.catalog :=
  runFrom_of_follows cs "" (follows_start t) hcs

end Session

/-! ### Scenarios one after the other -/

namespace Scenario

/-- Evaluates scenarios, each on the tables that the one before left: their
outputs, and the tables at the end. -/
def evaluateAll (catalog : Catalog) : List Scenario → Except Fault (List String × Catalog)
  | [] => .ok ([], catalog)
  | s :: ss => do
    let (text, next) ← s.evaluate catalog
    let (texts, last) ← evaluateAll next ss
    .ok (text :: texts, last)

/-- What is kept of a run: the output and the tables at the end, or the fault. -/
def report : Except Fault String × Session → Except Fault (String × Catalog)
  | (.ok text, last) => .ok (text, last.catalog)
  | (.error fault, _) => .error fault

theorem report_eq_ok_iff {r : Except Fault String × Session} {text : String} {last : Catalog} :
    report r = .ok (text, last) ↔ ∃ t, r = (.ok text, t) ∧ t.catalog = last := by
  rcases r with ⟨fault | output, t⟩
  · simp [report]
  · simp only [report, Except.ok.injEq, Prod.mk.injEq]
    constructor
    · rintro ⟨rfl, hlast⟩
      exact ⟨t, ⟨rfl, rfl⟩, hlast⟩
    · rintro ⟨_, ⟨htext, rfl⟩, hlast⟩
      exact ⟨htext, hlast⟩

theorem report_eq_error_iff {r : Except Fault String × Session} {fault : Fault} :
    report r = .error fault ↔ ∃ t, r = (.error fault, t) := by
  rcases r with ⟨other | output, t⟩ <;> simp [report]

/-- A self-contained scenario can be evaluated in any session on its tables. -/
theorem evaluate_eq_report {s : Scenario} (hs : Command.SelfContained s.commands) (t : Session) :
    s.evaluate t.catalog = report (t.run s.commands) := by
  obtain ⟨htext, hlast⟩ := Session.run_selfContained hs t
  rw [evaluate]
  rcases hnew : (Session.start t.catalog).run s.commands with ⟨fault | text, fresh⟩ <;>
    rcases hold : t.run s.commands with ⟨r, last⟩ <;>
    rw [hnew, hold] at htext hlast <;> cases htext
  · rfl
  · exact congrArg (fun c => Except.ok (text, c)) hlast.symm

theorem report_runFrom_flatMap : ∀ {ss : List Scenario},
    (∀ s ∈ ss, Command.SelfContained s.commands) → ∀ (printed : String) (t : Session),
      report (t.runFrom printed (ss.flatMap commands)) =
        (evaluateAll t.catalog ss).map fun r => (printed ++ String.join r.1, r.2)
  | [], _, printed, t => by
    simp only [evaluateAll, List.flatMap_nil, Session.runFrom, report, Except.map,
      String.join_nil, String.append_empty]
  | s :: ss, h, printed, t => by
    rw [List.forall_mem_cons] at h
    rw [evaluateAll, evaluate_eq_report h.1, List.flatMap_cons, Session.runFrom_append,
      Session.runFrom_eq]
    rcases t.run s.commands with ⟨fault | text, last⟩
    · rfl
    · have ih := report_runFrom_flatMap h.2 (printed ++ text) last
      simp only [report, ok_bind, Except.map] at ih ⊢
      rw [ih]
      cases evaluateAll last.catalog ss with
      | error fault => rfl
      | ok r => simp only [ok_bind, String.join_cons, String.append_assoc]

/-- **Self-contained scenarios evaluated one after the other, each on the
tables that the one before left, do what one session does on all their
commands**: its output is their outputs joined and its tables are the last
ones, or its fault is the first of theirs. -/
theorem evaluateAll_iff_run (catalog : Catalog) (ss : List Scenario)
    (h : ∀ s ∈ ss, Command.SelfContained s.commands) :
    (∀ text last,
      (∃ texts, evaluateAll catalog ss = .ok (texts, last) ∧ String.join texts = text) ↔
        ∃ t, (Session.start catalog).run (ss.flatMap commands) = (.ok text, t) ∧
          t.catalog = last) ∧
      ∀ fault, evaluateAll catalog ss = .error fault ↔
        ∃ t, (Session.start catalog).run (ss.flatMap commands) = (.error fault, t) := by
  have key : report ((Session.start catalog).run (ss.flatMap commands)) =
      (evaluateAll catalog ss).map fun r => ("" ++ String.join r.1, r.2) :=
    report_runFrom_flatMap h "" (Session.start catalog)
  refine ⟨fun text last => ?_, fun fault => ?_⟩
  · rw [← report_eq_ok_iff, key]
    rcases evaluateAll catalog ss with fault | ⟨texts, tables⟩
    · simp [Except.map]
    · simp only [Except.map, String.empty_append, Except.ok.injEq, Prod.mk.injEq]
      constructor
      · rintro ⟨_, ⟨rfl, htables⟩, htext⟩
        exact ⟨htext, htables⟩
      · rintro ⟨htext, htables⟩
        exact ⟨texts, ⟨rfl, htables⟩, htext⟩
  · rw [← report_eq_error_iff, key]
    cases evaluateAll catalog ss <;> simp [Except.map]

/-- A column of three rows. -/
def oneColumn : Catalog :=
  Catalog.empty.register ⟨"db.t", [Column.ofInts "a" [3, 5, 1]], 3, by decide, by decide⟩

/-- Prints what is selected by a lower bound. -/
def reading : Scenario :=
  ⟨⟨1, "Read"⟩,
    [.select "s" "db.t.a" ⟨.at (.int 4), .unbounded⟩, .fetch "v" "db.t.a" "s", .print ["v"]], []⟩

def writing : Scenario := ⟨⟨2, "Write"⟩, [.insert "db.t" [.int 9]], []⟩

/-- One session selects anew after an insert, into the variable that it used
before, and prints what two sessions print. -/
theorem run_reading_writing_reading :
    (∀ s ∈ [reading, writing, reading], Command.SelfContained s.commands) ∧
      ∃ t, (Session.start oneColumn).run ([reading, writing, reading].flatMap commands) =
          (.ok "5\n5\n9\n", t) ∧
        t.catalog.find? "db.t" =
          some ⟨"db.t", [Column.ofInts "a" [3, 5, 1, 9]], 4, by decide, by decide⟩ := by
  have hself : ∀ s ∈ [reading, writing, reading], Command.SelfContained s.commands := by decide
  obtain ⟨t, hrun, hlast⟩ :=
    ((evaluateAll_iff_run oneColumn [reading, writing, reading] hself).1 _ _).mp
      ⟨["5\n", "", "5\n9\n"], rfl, rfl⟩
  exact ⟨hself, t, hrun, by rw [hlast]; rfl⟩

end Scenario
end Columnar
