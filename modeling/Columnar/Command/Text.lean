/-
# The text of a script

A command is a call with its arguments separated by commas, after the
variable it assigns and an equals sign. Names of databases, tables and
columns to be created and paths are quoted, names in use are not. Each
command is a line.

Key definitions: `Command.text`, `scriptText`.
-/
import Columnar.Command
import Columnar.Table.Csv

namespace Columnar

/-- A word with its arguments in parentheses. -/
def call (word : String) (arguments : List String) : String :=
  word ++ "(" ++ ",".intercalate arguments ++ ")"

/-- A name between quotes; nothing in it is escaped. -/
def inQuotes (name : String) : String := "\"" ++ name ++ "\""

/-- A call whose result is assigned. -/
def assignment (target : String) (result : String) : String := target ++ "=" ++ result

def Source.name : Source → String
  | stored column => column
  | assigned name => name

namespace Command

/-- The line of a command. -/
def text : Command → String
  | comment text => if text = "" then "--" else "-- " ++ text
  | blank => ""
  | createDatabase name => call "create" ["db", inQuotes name]
  | createTable name database columns =>
    call "create" ["tbl", inQuotes name, database, columns.repr]
  | createColumn name table => call "create" ["col", inQuotes name, table]
  | load path => call "load" [inQuotes path]
  | insert table row => call "relational_insert" (table :: row.map Value.text)
  | select target column range =>
    assignment target (call "select" [column, range.low.text, range.high.text])
  | selectFrom target positions vector range =>
    assignment target (call "select" [positions, vector, range.low.text, range.high.text])
  | fetch target column positions => assignment target (call "fetch" [column, positions])
  | aggregate target function source =>
    assignment target (call function.word [source.name])
  | arithmetic target operation left right =>
    assignment target (call operation.word [left, right])
  | print names => call "print" names
  | shutdown => "shutdown"

end Command

/-- The text of a script. -/
def scriptText (commands : List Command) : String := unlines (commands.map Command.text)

end Columnar
