/-
# Commands that fail change nothing

`Session.effect` finds everything that a command does before any of it is
done. Here a command is carried out in place instead, its look-ups and its
changes in the order in which they come (`Session.perform`), so that what was
changed before a fault stays changed. It makes no difference: every change
comes after the last check (`Session.run_perform`), and a command that fails
leaves the session as it was.

So a run that passes over faulty commands is a run of the others alone, with
the same output and the same session at the end, and a run that stops at a
fault stops in the session that the faulty command met
(`Session.visit_eq_run_successes`).

Key definitions: `Session.perform`, `printedTexts`.
Key theorems: `Session.run_perform`, `Session.visit_eq_mapM`,
`Session.runFrom_successes`, `Session.run_eq_error_iff`,
`Session.visit_eq_run_successes`.
-/
import Columnar.Proofs.Step

namespace Columnar

/-- The texts that were printed, in order. -/
def printedTexts (results : List (Except Fault (Option String))) : List String :=
  results.filterMap fun r => r.toOption.join

namespace Session

/-! ### One command in place -/

/-- A computation that changes a session as it goes. A fault ends it and
undoes nothing. -/
abbrev Performing := ExceptT Fault (StateM Session)

/-- What is read from the session as it stands. -/
def reading {α : Type} (read : Session → Except Fault α) : Performing α :=
  fun s => (read s, s)

/-- Assigns a variable. -/
def assigning (target : String) (b : Binding) : Performing Unit :=
  fun s => (.ok (), s.after (.assign target b))

/-- Puts a table in its place in the catalog. -/
def registering (t : Table) : Performing Unit :=
  fun s => (.ok (), { s with catalog := s.catalog.register t })

/-- Counts a row that was inserted into a table. -/
def counting (table : String) : Performing Unit := fun s =>
  (.ok (), { s with
    generation := fun name => if name = table then s.generation name + 1 else s.generation name })

/-- Carries a command out: the printed text, if it is a print. -/
def perform : Command → Performing (Option String)
  | .comment _ | .blank | .createDatabase _ | .load _ | .shutdown => return none
  | .createTable name database columns => do
    let t ← reading fun s => s.catalog.table (qualify database name)
    if t.columns.length = columns then return none
    else throw (.columnCount (qualify database name) columns t.columns.length)
  | .createColumn name table => do
    let t ← reading fun s => s.catalog.table table
    let _ ← reading fun _ => t.column name
    return none
  | .insert table row => do
    let t ← reading fun s => s.catalog.table table
    let grown ← reading fun _ => t.insert row
    registering grown
    counting table
    return none
  | .select target column range => do
    let (table, _) ← reading fun _ => splitQualified column
    let col ← reading fun s => s.catalog.resolve column
    let generation ← reading fun s => .ok (s.generation table)
    assigning target (.selection ⟨col.select range, table, generation⟩)
    return none
  | .selectFrom target positions vector range => do
    let sel ← reading fun s => s.selection positions
    let (values, source) ← reading fun s => s.vector vector
    let kept ← reading fun s => s.narrowed sel values source range
    assigning target (.selection ⟨kept, sel.table, sel.generation⟩)
    return none
  | .fetch target column positions => do
    let sel ← reading fun s => s.selection positions
    let (table, _) ← reading fun _ => splitQualified column
    let generation ← reading fun s => .ok (s.generation sel.table)
    if table = sel.table ∧ sel.generation = generation then
      let col ← reading fun s => s.catalog.resolve column
      let values ← reading fun _ => col.fetch sel.positions
      assigning target (.vector values (some ⟨column, sel.positions⟩))
      return none
    else throw (.staleSelection positions column)
  | .aggregate target function source => do
    let values ← reading fun s => s.operand source
    let result ← reading fun _ => function.apply values
    assigning target (.scalar result)
    return none
  | .arithmetic target operation left right => do
    let (xs, _) ← reading fun s => s.vector left
    let (ys, _) ← reading fun s => s.vector right
    let zs ← reading fun _ => operation.apply xs ys
    assigning target (.vector zs none)
    return none
  | .print names => do
    let args ← names.mapM fun name => reading fun s => s.printable name
    let text ← reading fun _ => printed args
    return some text

/-- What a command gives and leaves, its effect once found. -/
def outcome (s : Session) : Except Fault Effect → Except Fault (Option String) × Session
  | .ok e => (.ok e.printed?, s.after e)
  | .error fault => (.error fault, s)

/-- The second part runs in the session that the first leaves, unless that
ends in a fault. -/
theorem run_bind {α β : Type} (x : Performing α) (f : α → Performing β) (s : Session) :
    (x >>= f).run.run s = match x.run.run s with
      | (.ok a, t) => (f a).run.run t
      | (.error fault, t) => (.error fault, t) := by
  simp only [bind, ExceptT.bind, ExceptT.run, ExceptT.mk, StateT.run, StateT.bind]
  obtain ⟨r, t⟩ := x s
  cases r <;> rfl

theorem run_reading_bind {α β : Type} (read : Session → Except Fault α) (f : α → Performing β)
    (s : Session) :
    (reading read >>= f).run.run s = match read s with
      | .ok a => (f a).run.run s
      | .error fault => (.error fault, s) := by
  have hread : (reading read).run.run s = (read s, s) := rfl
  rw [run_bind, hread]
  cases read s <;> rfl

/-- Arguments are looked up one after another, all in the same session. -/
theorem run_mapM_reading {α β : Type} (read : Session → α → Except Fault β) (s : Session) :
    ∀ as : List α, (as.mapM fun a => reading fun s => read s a).run.run s = (as.mapM (read s), s)
  | [] => rfl
  | a :: as => by
    rw [List.mapM_cons, List.mapM_cons, run_reading_bind]
    cases read s a with
    | error fault => rfl
    | ok b =>
      simp only [ok_bind]
      rw [run_bind, run_mapM_reading read s as]
      cases as.mapM (read s) <;> rfl

/-- **A command changes nothing before its last check.** Carried out in place
it does what its effect says, and one that fails has changed nothing. -/
theorem run_perform (s : Session) (c : Command) :
    (perform c).run.run s = s.outcome (s.effect c) := by
  cases c with
  | comment | blank | createDatabase | load | shutdown => rfl
  | createTable name database columns =>
    simp only [perform, effect, run_reading_bind]
    cases s.catalog.table (qualify database name) with
    | error fault => rfl
    | ok t =>
      simp only [ok_bind]
      split <;> rfl
  | createColumn name table =>
    simp only [perform, effect, run_reading_bind]
    cases s.catalog.table table with
    | error fault => rfl
    | ok t =>
      simp only [ok_bind]
      cases t.column name <;> rfl
  | insert table row =>
    simp only [perform, effect, run_reading_bind]
    cases ht : s.catalog.table table with
    | error fault => rfl
    | ok t =>
      simp only [ok_bind]
      cases hu : t.insert row with
      | error fault => rfl
      | ok u =>
        have hname := Catalog.name_inserted (Catalog.table_eq_ok_iff.mp ht) hu
        rw [← hname]
        rfl
  | select target column range =>
    simp only [perform, effect, run_reading_bind]
    cases splitQualified column with
    | error fault => rfl
    | ok p =>
      simp only [ok_bind]
      cases s.catalog.resolve column <;> rfl
  | selectFrom target positions vector range =>
    simp only [perform, effect, run_reading_bind]
    cases s.selection positions with
    | error fault => rfl
    | ok sel =>
      cases s.vector vector with
      | error fault => rfl
      | ok p =>
        simp only [ok_bind]
        cases s.narrowed sel p.1 p.2 range <;> rfl
  | fetch target column positions =>
    simp only [perform, effect, run_reading_bind]
    cases s.selection positions with
    | error fault => rfl
    | ok sel =>
      cases splitQualified column with
      | error fault => rfl
      | ok p =>
        simp only [ok_bind]
        by_cases hcur : p.1 = sel.table ∧ sel.generation = s.generation sel.table
        · simp only [if_pos hcur, run_reading_bind]
          cases s.catalog.resolve column with
          | error fault => rfl
          | ok col =>
            simp only [ok_bind]
            cases col.fetch sel.positions <;> rfl
        · simp only [if_neg hcur]
          rfl
  | aggregate target function source =>
    simp only [perform, effect, run_reading_bind]
    cases s.operand source with
    | error fault => rfl
    | ok values =>
      simp only [ok_bind]
      cases function.apply values <;> rfl
  | arithmetic target operation left right =>
    simp only [perform, effect, run_reading_bind]
    cases s.vector left with
    | error fault => rfl
    | ok x =>
      cases s.vector right with
      | error fault => rfl
      | ok y =>
        simp only [ok_bind]
        cases operation.apply x.1 y.1 <;> rfl
  | print names =>
    simp only [perform, effect, run_bind, run_mapM_reading]
    cases names.mapM s.printable with
    | error fault => rfl
    | ok args =>
      simp only [ok_bind]
      cases printed args <;> rfl

/-- A command that fails in place leaves the session as it was. -/
theorem eq_of_perform_error {s t : Session} {c : Command} {fault : Fault}
    (h : (perform c).run.run s = (.error fault, t)) : t = s := by
  rw [run_perform] at h
  cases he : s.effect c with
  | ok e =>
    rw [he] at h
    cases h
  | error f =>
    rw [he] at h
    cases h
    rfl

theorem perform_eq_error_iff {s : Session} {c : Command} {fault : Fault} :
    (perform c).run.run s = (.error fault, s) ↔ s.effect c = .error fault := by
  rw [run_perform]
  cases s.effect c with
  | ok e =>
    constructor <;> intro h <;> cases h
  | error f =>
    constructor <;> intro h <;> cases h <;> rfl

/-! ### Runs in place -/

/-- To go through commands and pass over faulty ones is to carry them out in
place, one after another. -/
theorem visit_eq_mapM : ∀ (cs : List Command) (s : Session),
    (cs.mapM fun c => (perform c).run).run s = s.visit cs
  | [], _ => rfl
  | c :: cs, s => by
    rw [List.mapM_cons, StateT.run_bind, run_perform, visit]
    cases s.effect c with
    | error fault =>
      rw [← visit_eq_mapM cs s]
      rfl
    | ok e =>
      simp only
      rw [← visit_eq_mapM cs (s.after e)]
      rfl

/-- To run commands is to carry them out in place up to the first fault. -/
theorem runFrom_eq_mapM (printed : String) : ∀ (cs : List Command) (s : Session),
    (do
      let texts ← cs.mapM perform
      return printed ++ String.join (texts.filterMap id) : Performing String).run.run s =
      s.runFrom printed cs
  | [], s => by
    rw [runFrom, List.mapM_nil, pure_bind, List.filterMap_nil, String.join_nil,
      String.append_empty]
    rfl
  | c :: cs, s => by
    rw [List.mapM_cons, run_bind, run_bind, run_perform, runFrom]
    cases s.effect c with
    | error fault => rfl
    | ok e =>
      have ih := runFrom_eq_mapM (printed ++ e.text) cs (s.after e)
      rw [run_bind] at ih
      simp only [outcome]
      rw [run_bind, ← ih]
      obtain ⟨r, t⟩ := (cs.mapM perform).run.run (s.after e)
      cases r with
      | error fault => rfl
      | ok texts =>
        have htext : String.join ((e.printed? :: texts).filterMap id) =
            e.text ++ String.join (texts.filterMap id) := by
          cases e <;> simp [Effect.text, Effect.printed?]
        change (Except.ok (printed ++ String.join ((e.printed? :: texts).filterMap id)), t) =
          (Except.ok (printed ++ e.text ++ String.join (texts.filterMap id)), t)
        rw [htext, String.append_assoc]

/-! ### Runs without the faulty commands -/

theorem join_printedTexts_cons (e : Effect) (results : List (Except Fault (Option String))) :
    String.join (printedTexts (.ok e.printed? :: results)) =
      e.text ++ String.join (printedTexts results) := by
  cases e <;> simp [printedTexts, Effect.text, Effect.printed?, Except.toOption]

theorem runFrom_successes (printed : String) : ∀ (cs : List Command) (s : Session),
    s.runFrom printed (s.successes cs) =
      (.ok (printed ++ String.join (printedTexts (s.visit cs).1)), (s.visit cs).2)
  | [], s => by simp [successes, visit, runFrom, printedTexts]
  | c :: cs, s => by
    rw [successes, visit]
    cases he : s.effect c with
    | error fault => exact runFrom_successes printed cs s
    | ok e =>
      simp only [runFrom, he]
      rw [runFrom_successes (printed ++ e.text) cs (s.after e), join_printedTexts_cons,
        String.append_assoc]

theorem successes_eq_filter : ∀ (cs : List Command) (s : Session),
    s.successes cs = ((cs.zip (s.visit cs).1).filter fun p => p.2.isOk).map (·.1)
  | [], _ => rfl
  | c :: cs, s => by
    rw [successes, visit]
    cases s.effect c with
    | error fault => exact successes_eq_filter cs s
    | ok e => exact congrArg (c :: ·) (successes_eq_filter cs (s.after e))

/-! ### The first fault -/

theorem exists_first_fault {fault : Fault} {t : Session} : ∀ {cs : List Command} {printed : String}
    {s : Session}, s.runFrom printed cs = (.error fault, t) →
      ∃ before c later text, cs = before ++ c :: later ∧
        s.runFrom printed before = (.ok text, t) ∧ t.effect c = .error fault
  | [], _, _, h => by cases h
  | c :: cs, printed, s, h => by
    rw [runFrom] at h
    cases he : s.effect c with
    | error f =>
      rw [he] at h
      cases h
      exact ⟨[], c, cs, printed, rfl, rfl, he⟩
    | ok e =>
      rw [he] at h
      obtain ⟨before, d, later, text, rfl, hbefore, hd⟩ := exists_first_fault h
      refine ⟨c :: before, d, later, text, rfl, ?_, hd⟩
      rw [runFrom, he]
      exact hbefore

/-- A run ends in a fault if the commands before some command succeed and
that one fails in the session that they leave. -/
theorem run_eq_error_iff {s t : Session} {cs : List Command} {fault : Fault} :
    s.run cs = (.error fault, t) ↔ ∃ before c later, cs = before ++ c :: later ∧
      (∃ text, s.run before = (.ok text, t)) ∧ t.effect c = .error fault := by
  constructor
  · intro h
    obtain ⟨before, c, later, text, hcs, hbefore, hc⟩ := exists_first_fault h
    exact ⟨before, c, later, hcs, ⟨text, hbefore⟩, hc⟩
  · rintro ⟨before, c, later, rfl, ⟨text, hbefore⟩, hc⟩
    rw [run] at hbefore
    rw [run, runFrom_append, hbefore]
    simp only [runFrom, hc]

/-- **To pass over faulty commands is to run the others alone.** Carried out
in place, commands do what `visit` and `run` say. Those that succeed, run
alone, print what they printed among the others and leave the same session.
A run stops with the first fault in the session that the faulty command met,
and a command that fails changes nothing, whatever its kind. -/
theorem visit_eq_run_successes (s : Session) (cs : List Command) :
    (cs.mapM fun c => (perform c).run).run s = s.visit cs ∧
      (do
        let texts ← cs.mapM perform
        return String.join (texts.filterMap id) : Performing String).run.run s = s.run cs ∧
      s.successes cs = ((cs.zip (s.visit cs).1).filter fun p => p.2.isOk).map (·.1) ∧
      s.run (s.successes cs) =
        (.ok (String.join (printedTexts (s.visit cs).1)), (s.visit cs).2) ∧
      (∀ fault t, s.run cs = (.error fault, t) ↔ ∃ before c later, cs = before ++ c :: later ∧
        (∃ text, s.run before = (.ok text, t)) ∧
          (perform c).run.run t = (.error fault, t)) ∧
      ∀ c fault t, (perform c).run.run s = (.error fault, t) → t = s := by
  refine ⟨visit_eq_mapM cs s, ?_, successes_eq_filter cs s, ?_, fun fault t => ?_, ?_⟩
  · have h := runFrom_eq_mapM "" cs s
    simp only [String.empty_append] at h
    exact h
  · have h := runFrom_successes "" cs s
    rwa [String.empty_append] at h
  · simp only [perform_eq_error_iff]
    exact run_eq_error_iff
  · intro c fault t h
    exact eq_of_perform_error h

end Session
end Columnar
