/-
# What a suite is made from

The directory of the files, the directory that the scripts name, sizes and
seeds of the two fixture tables, the number of queries and, if wanted, a
sweep over growing narrow tables with a directory of its own for each size.

To choose the directory of the files chooses the scripts' directory too.

Key definitions: `Config`, `Sweep`, `Config.validate`.
Key theorems: `Config.validate_eq_ok_iff`.
-/
import Columnar.Disk.Path
import Columnar.Fault
import Columnar.Json

namespace Columnar
namespace Suite

/-- A sweep over sizes of the narrow table. -/
structure Sweep where
  base : String
  sizes : List Nat
deriving DecidableEq

/-- The powers of two from the fifteenth to the twenty-fifth. -/
def defaultSizes : List Nat := (List.range 11).map fun i => 1 <<< (15 + i)

/-- A sweep over the default sizes. -/
def Sweep.below (base : String) : Sweep := ⟨base, defaultSizes⟩

/-- The directory of one size. -/
def Sweep.directory (s : Sweep) (size : Nat) : String := joinPath s.base size.repr

/-- Everything that determines a suite. -/
structure Config where
  outputDirectory : String
  dataDirectory : String
  narrowRows : Nat
  narrowSeed : UInt64
  wideRows : Nat
  seed : UInt64
  queries : Nat
  sweep : Option Sweep
deriving DecidableEq

def defaultDirectory : String := "/cs165/generated_data"

def defaultSeed : UInt64 := 47

def defaultQueries : Nat := 2

namespace Config

/-- The defaults for everything but the size of the wide table. -/
def ofRows (wideRows : Nat) : Config where
  outputDirectory := defaultDirectory
  dataDirectory := defaultDirectory
  narrowRows := 1000
  narrowSeed := 47
  wideRows := wideRows
  seed := defaultSeed
  queries := defaultQueries
  sweep := none

/-- Chooses the directory of the files, which the scripts then name as well. -/
def withOutput (c : Config) (directory : String) : Config :=
  { c with outputDirectory := directory, dataDirectory := directory }

/-- The first reason why there is no such suite. -/
def validate (c : Config) : Except Fault Unit :=
  if c.narrowRows = 0 ∨ c.wideRows = 0 then .error .emptyFixture
  else if c.queries = 0 then .error .noQueries
  else .ok ()

theorem validate_eq_ok_iff {c : Config} :
    c.validate = .ok () ↔ 0 < c.narrowRows ∧ 0 < c.wideRows ∧ 0 < c.queries := by
  unfold validate
  split
  · rename_i h
    simp only [reduceCtorEq, false_iff]
    omega
  · split
    · rename_i h
      simp only [reduceCtorEq, false_iff]
      omega
    · simp only [true_iff]
      omega

def sweepJson : Option Sweep → Json
  | none => .null
  | some s => .object [("base_dir", .text s.base), ("sizes", .array (s.sizes.map fun n : Nat => .number n))]

def json (c : Config) : Json :=
  .object
    [("output_dir", .text c.outputDirectory),
     ("script_data_dir", .text c.dataDirectory),
     ("table_one_rows", .number c.narrowRows),
     ("table_one_seed", .number c.narrowSeed.toNat),
     ("table_two_rows", .number c.wideRows),
     ("seed", .number c.seed.toNat),
     ("queries_per_select_test", .number c.queries),
     ("experiment", sweepJson c.sweep)]

end Config
end Suite
end Columnar
