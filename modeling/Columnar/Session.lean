/-
# Sessions

A session evaluates commands against a catalog. Its state is the catalog,
the variables assigned so far and, for every table name, a generation: the
number of rows inserted in the session. A selection remembers the table it
was made on and the generation at that time, and nothing is fetched by a
selection of another table or of an older generation.

A command first has an effect or a fault, found without changing anything
(`Session.effect`), and only then is the effect carried out
(`Session.after`). So a faulty command leaves the session as it was.
`Session.run` stops at the first fault, `Session.visit` goes on.

Key definitions: `Session`, `Binding`, `Effect`, `Session.effect`,
`Session.after`, `Session.run`, `Session.visit`.
Key theorems: `Session.runFrom_eq`, `Session.runFrom_append`.
-/
import Columnar.Catalog
import Columnar.Command
import Columnar.Elementwise
import Columnar.Print
import Columnar.Selection

namespace Columnar

/-- Positions and the state of the table that they were computed on. -/
structure Selection where
  positions : PositionSet
  table : String
  generation : Nat
deriving DecidableEq

/-- The column and the positions that a vector was fetched from. -/
structure Provenance where
  column : String
  positions : PositionSet
deriving DecidableEq

/-- What a variable holds. -/
inductive Binding where
  | selection (s : Selection)
  | vector (values : List Value) (source : Option Provenance)
  | scalar (s : Scalar)
deriving DecidableEq

/-- The state between two commands. -/
@[ext]
structure Session where
  catalog : Catalog
  generation : String → Nat
  bindings : String → Option Binding

/-- What a command does. -/
inductive Effect where
  | nothing
  /-- A table takes the place of the one it has grown from. -/
  | grow (table : Table)
  | assign (target : String) (binding : Binding)
  | output (text : String)
deriving DecidableEq

/-- The printed text; a command that is not a print has none. -/
def Effect.printed? : Effect → Option String
  | output text => some text
  | _ => none

/-- The text added to the output. -/
def Effect.text (e : Effect) : String := e.printed?.getD ""

namespace Session

/-- A session without variables in which nothing was inserted. -/
def start (catalog : Catalog) : Session := ⟨catalog, fun _ => 0, fun _ => none⟩

def lookup (s : Session) (name : String) : Except Fault Binding :=
  match s.bindings name with
  | some b => .ok b
  | none => .error (.unknownVariable name)

/-- The selection that a variable holds. -/
def selection (s : Session) (name : String) : Except Fault Selection := do
  match ← s.lookup name with
  | .selection sel => .ok sel
  | _ => .error (.wrongKind name .positions)

/-- The vector that a variable holds, and where it was fetched from. -/
def vector (s : Session) (name : String) : Except Fault (List Value × Option Provenance) := do
  match ← s.lookup name with
  | .vector values source => .ok (values, source)
  | _ => .error (.wrongKind name .vector)

/-- What a variable hands to a print. -/
def printable (s : Session) (name : String) : Except Fault Printable := do
  match ← s.lookup name with
  | .vector values _ => .ok (.vector values)
  | .scalar x => .ok (.scalar x)
  | .selection _ => .error (.wrongKind name .printable)

/-- The positions of a selection whose value is in a range. A vector that was
fetched at just these positions is read from its column again. -/
def narrowed (s : Session) (sel : Selection) (values : List Value) (source : Option Provenance)
    (range : Range) : Except Fault PositionSet := do
  match source with
  | some origin =>
    if origin.positions = sel.positions then
      (← s.catalog.resolve origin.column).selectAmong range sel.positions
    else sel.positions.selectPaired values range
  | none => sel.positions.selectPaired values range

/-- The vector that an aggregate is taken of. -/
def operand (s : Session) : Source → Except Fault (List Value)
  | .stored name => return (← s.catalog.resolve name).scan
  | .assigned name => return (← s.vector name).1

/-- What a command does in a session. -/
def effect (s : Session) : Command → Except Fault Effect
  | .comment _ | .blank | .createDatabase _ | .load _ | .shutdown => .ok .nothing
  | .createTable name database columns => do
    let t ← s.catalog.table (qualify database name)
    if t.columns.length = columns then .ok .nothing
    else .error (.columnCount (qualify database name) columns t.columns.length)
  | .createColumn name table => do
    let _ ← (← s.catalog.table table).column name
    .ok .nothing
  | .insert table row => return .grow (← (← s.catalog.table table).insert row)
  | .select target column range => do
    let (table, _) ← splitQualified column
    let positions := (← s.catalog.resolve column).select range
    .ok (.assign target (.selection ⟨positions, table, s.generation table⟩))
  | .selectFrom target positions vector range => do
    let sel ← s.selection positions
    let (values, source) ← s.vector vector
    let kept ← s.narrowed sel values source range
    .ok (.assign target (.selection ⟨kept, sel.table, sel.generation⟩))
  | .fetch target column positions => do
    let sel ← s.selection positions
    let (table, _) ← splitQualified column
    if table = sel.table ∧ sel.generation = s.generation sel.table then
      let values ← (← s.catalog.resolve column).fetch sel.positions
      .ok (.assign target (.vector values (some ⟨column, sel.positions⟩)))
    else .error (.staleSelection positions column)
  | .aggregate target function source => do
    let result ← function.apply (← s.operand source)
    .ok (.assign target (.scalar result))
  | .arithmetic target operation left right => do
    let (xs, _) ← s.vector left
    let (ys, _) ← s.vector right
    .ok (.assign target (.vector (← operation.apply xs ys) none))
  | .print names => do
    let args ← names.mapM s.printable
    .ok (.output (← printed args))

/-- The session in which an effect was carried out. -/
def after (s : Session) : Effect → Session
  | .nothing => s
  | .grow table =>
    { s with
      catalog := s.catalog.register table
      generation := fun name => if name = table.name then s.generation name + 1 else s.generation name }
  | .assign target binding =>
    { s with bindings := fun name => if name = target then some binding else s.bindings name }
  | .output _ => s

/-- Runs commands up to the first fault: the output, which `printed` begins,
and the session at the end. -/
def runFrom (printed : String) (s : Session) : List Command → Except Fault String × Session
  | [] => (.ok printed, s)
  | c :: cs =>
    match s.effect c with
    | .ok e => runFrom (printed ++ e.text) (s.after e) cs
    | .error fault => (.error fault, s)

/-- The output of a script, or its first fault, and the session at the end. -/
def run (s : Session) (commands : List Command) : Except Fault String × Session :=
  runFrom "" s commands

/-- Runs commands and passes over faulty ones: what each gave, and the
session at the end. -/
def visit (s : Session) : List Command → List (Except Fault (Option String)) × Session
  | [] => ([], s)
  | c :: cs =>
    match s.effect c with
    | .ok e =>
      let (results, last) := visit (s.after e) cs
      (.ok e.printed? :: results, last)
    | .error fault =>
      let (results, last) := visit s cs
      (.error fault :: results, last)

/-- What was printed before stands in front of the output. -/
theorem runFrom_eq (printed : String) (s : Session) (cs : List Command) :
    runFrom printed s cs = ((run s cs).1.map (printed ++ ·), (run s cs).2) := by
  unfold run
  induction cs generalizing printed s with
  | nil => simp [runFrom, Except.map]
  | cons c cs ih =>
    simp only [runFrom]
    cases s.effect c with
    | error fault => simp [Except.map]
    | ok e =>
      simp only
      rw [ih (printed ++ e.text), ih ("" ++ e.text)]
      cases (runFrom "" (s.after e) cs).1 <;> simp [Except.map, String.append_assoc]

/-- A script in two parts: the second runs where the first left off. -/
theorem runFrom_append (printed : String) (s : Session) (cs ds : List Command) :
    runFrom printed s (cs ++ ds) =
      match runFrom printed s cs with
      | (.ok text, t) => runFrom text t ds
      | (.error fault, t) => (.error fault, t) := by
  induction cs generalizing printed s with
  | nil => rfl
  | cons c cs ih =>
    simp only [List.cons_append, runFrom]
    cases s.effect c with
    | error fault => rfl
    | ok e => exact ih _ _

end Session
end Columnar
