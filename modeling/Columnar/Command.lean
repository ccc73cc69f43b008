/-
# Commands

A script is a list of commands. Most commands assign a result to a variable
that later ones name; a stored column is named with its table. A script is
both written out for the engine under test and evaluated here, so the text
and the meaning are two functions of one list.

Key definitions: `Command`, `Command.target?`, `Command.reads`.
-/
import Columnar.Range

namespace Columnar

/-- What an aggregate is taken of. -/
inductive Source where
  | stored (name : String)
  | assigned (name : String)
deriving DecidableEq

/-- One line of a script. -/
inductive Command where
  | comment (text : String)
  | blank
  | createDatabase (name : String)
  | createTable (name database : String) (columns : Nat)
  | createColumn (name table : String)
  | load (path : String)
  | insert (table : String) (row : List Value)
  /-- The rows of a column in a range. -/
  | select (target column : String) (range : Range)
  /-- The positions whose value, fetched before, is in a range. -/
  | selectFrom (target positions vector : String) (range : Range)
  | fetch (target column positions : String)
  | aggregate (target : String) (function : Aggregate) (source : Source)
  | arithmetic (target : String) (operation : Arithmetic) (left right : String)
  | print (names : List String)
  | shutdown
deriving DecidableEq

namespace Command

/-- The variable that a command assigns. -/
def target? : Command → Option String
  | select target _ _ => some target
  | selectFrom target _ _ _ => some target
  | fetch target _ _ => some target
  | aggregate target _ _ => some target
  | arithmetic target _ _ _ => some target
  | _ => none

/-- The variables that a command reads. -/
def reads : Command → List String
  | selectFrom _ positions vector _ => [positions, vector]
  | fetch _ _ positions => [positions]
  | aggregate _ _ (.assigned name) => [name]
  | arithmetic _ _ left right => [left, right]
  | print names => names
  | _ => []

end Command
end Columnar
