/-
# The command line

One to four positional arguments (rows of the wide table, seed, directory of
the files, directory named in the scripts) and the options `--queries N`
(`-q`), `--experiment` (`-e`) and `--experiment-dir DIR`, in any order. An
option's value may follow an equals sign, a short option's also the letter;
short options may share a dash. After `--` every argument is positional.

Everything else is refused: an unknown option, one given twice, a missing
value, one that looks like an option, a fifth positional argument, a number
that is not one or needs more than 64 bits, an empty directory for files.

Key definitions: `CommandLine.Request`, `CommandLine.parse`,
`CommandLine.Report`, `CommandLine.report`.
-/
import Columnar.Suite

namespace Columnar
namespace CommandLine

/-! ### Arguments -/

/-- The options that take a value. -/
inductive Valued where
  | queries | sweepBase
deriving DecidableEq

/-- The arguments as they were given. -/
structure Given where
  /-- The positional arguments, the last one first. -/
  positional : List String
  sweep : Bool
  queries : Option String
  sweepBase : Option String
deriving DecidableEq

/-- Before the first argument. -/
def Given.start : Given := ⟨[], false, none, none⟩

/-- Gives an option its value, unless it has one. -/
def Given.set (g : Given) (o : Valued) (value : String) : Option Given :=
  match o with
  | .queries => if g.queries.isSome then none else some { g with queries := some value }
  | .sweepBase => if g.sweepBase.isSome then none else some { g with sweepBase := some value }

/-- Asks for a sweep, unless that was done. -/
def Given.askSweep (g : Given) : Option Given :=
  if g.sweep then none else some { g with sweep := true }

/-- The text before the first equals sign, and the text after it. -/
def splitEquals : List Char → List Char × Option (List Char)
  | [] => ([], none)
  | '=' :: cs => ([], some cs)
  | c :: cs => (c :: (splitEquals cs).1, (splitEquals cs).2)

/-- Takes in a long option: what is given now, and the option whose value is
the next argument. -/
def longOption (g : Given) (text : List Char) : Option (Given × Option Valued) :=
  let valued (o : Valued) (value : Option (List Char)) : Option (Given × Option Valued) :=
    match value with
    | some v => (g.set o (String.ofList v)).map (·, none)
    | none => some (g, some o)
  match splitEquals text with
  | (name, value) =>
    if name = "queries".toList then valued .queries value
    else if name = "experiment-dir".toList then valued .sweepBase value
    else if name = "experiment".toList ∧ value = none then g.askSweep.map (·, none)
    else none

/-- Takes in the letters after one dash. -/
def shortOptions (g : Given) : List Char → Option (Given × Option Valued)
  | [] => some (g, none)
  | 'e' :: cs =>
    match g.askSweep with
    | some g => shortOptions g cs
    | none => none
  | ['q'] => some (g, some .queries)
  | 'q' :: '=' :: cs => (g.set .queries (String.ofList cs)).map (·, none)
  | 'q' :: cs => (g.set .queries (String.ofList cs)).map (·, none)
  | _ => none

/-- Takes in the arguments, the value of the option `awaited` first. -/
def collect (g : Given) (awaited : Option Valued) : List String → Option Given
  | [] => if awaited.isSome then none else some g
  | arg :: args =>
    match awaited, arg.toList with
    | some _, '-' :: _ :: _ => none
    | some o, _ =>
      match g.set o arg with
      | some g => collect g none args
      | none => none
    | none, ['-', '-'] => some { g with positional := args.reverse ++ g.positional }
    | none, '-' :: '-' :: text =>
      match longOption g text with
      | some (g, awaited) => collect g awaited args
      | none => none
    | none, '-' :: c :: cs =>
      match shortOptions g (c :: cs) with
      | some (g, awaited) => collect g awaited args
      | none => none
    | none, _ => collect { g with positional := arg :: g.positional } none args

/-! ### Values -/

/-- A number of 64 bits in decimal digits; a plus sign may stand before it. -/
def number? (text : String) : Option Nat :=
  let digits := match text.toList with
    | '+' :: cs => cs
    | cs => cs
  if digits.isEmpty ∨ ¬ digits.all Char.isDigit then none
  else
    let n := digits.foldl (fun n c => n * 10 + (c.toNat - '0'.toNat)) 0
    if n < 18446744073709551616 then some n else none

/-- A directory that files are written to. -/
def directory? (text : String) : Option String := if text = "" then none else some text

/-- What the arguments ask for. -/
structure Request where
  rows : Nat
  seed : UInt64
  output : String
  data : Option String
  sweep : Bool
  sweepBase : Option String
  queries : Nat
deriving DecidableEq

/-- The value of an argument that may be missing. -/
def valueOr {α : Type} (read : String → Option α) (default : α) : Option String → Option α
  | none => some default
  | some text => read text

/-- The request of positional arguments in order and options. -/
def request? (g : Given) : Option Request :=
  match g.positional.reverse with
  | rows :: rest =>
    if 3 < rest.length then none
    else do
      let rows ← number? rows
      let seed ← valueOr number? Suite.defaultSeed.toNat rest[0]?
      let output ← valueOr directory? Suite.defaultDirectory rest[1]?
      let sweepBase ← valueOr (fun text => (directory? text).map some) none g.sweepBase
      let queries ← valueOr number? Suite.defaultQueries g.queries
      return ⟨rows, UInt64.ofNat seed, output, rest[2]?, g.sweep, sweepBase, queries⟩
  | [] => none

/-- What the command line asks for, unless it is refused. -/
def parse (args : List String) : Option Request := (collect .start none args).bind request?

/-- The configuration of a request. -/
def Request.config (r : Request) : Suite.Config :=
  let c := { (Suite.Config.ofRows r.rows).withOutput r.output with
    seed := r.seed
    queries := r.queries }
  let c := match r.data with
    | some data => { c with dataDirectory := data }
    | none => c
  if r.sweep then
    { c with sweep := some (.below (r.sweepBase.getD (joinPath r.output "experiment"))) }
  else c

/-! ### Answers -/

/-- What a program run leaves: exit code and the two output texts. -/
structure Report where
  code : Nat
  output : String
  errors : String
deriving DecidableEq

/-- An error with the causes behind it, the nearest first. -/
def errorText (context : String) (causes : List String) : String :=
  let numbered := (List.range causes.length).zip causes |>.map fun p =>
    "    " ++ p.1.repr ++ ": " ++ p.2
  unlines (["Error: " ++ context, "", "Caused by:"] ++ numbered)

/-- The causes of a fault that ended a run. -/
def faultCauses (f : Fault) : List String := ["Oracle error: " ++ f.message, f.message]

/-- The report on a suite that was made. -/
def summary (r : Request) (m : Suite.Manifest) : Report :=
  let failures := m.failures
  { code := 0
    output := "Generated " ++ (m.records.length - failures.length).repr ++ " test cases in " ++
      r.output ++ " (" ++ failures.length.repr ++ " failed)\n"
    errors := unlines (failures.map fun p =>
      "  test " ++ zeroPadded 2 p.1.number ++ " (" ++ p.1.title ++ "): " ++ p.2.message) }

/-- The report on a run that ended early, with the causes found. -/
def failure (r : Request) (causes : List String) : Report :=
  ⟨1, "", errorText ("Failed to generate tests in " ++ r.output) causes⟩

/-- The report on the outcome of a run. -/
def report (r : Request) (outcome : Except Suite.Halt Suite.Manifest) : Report :=
  match r.config.validate, outcome with
  | .error f, _ => ⟨1, "", errorText "Invalid generator configuration" (faultCauses f)⟩
  | .ok (), .ok m => summary r m
  | .ok (), .error (.fault f) => failure r (faultCauses f)
  | .ok (), .error .refused => failure r ["I/O error"]

/-- Runs a command line on a disk. -/
def run (r : Request) (d : Disk) : Report × Disk :=
  let (outcome, d) := Suite.run r.config d
  (report r outcome, d)

end CommandLine
end Columnar
