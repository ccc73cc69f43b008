/-
# Files and directories

A disk maps locations to directories and files; the directories that paths
start from are always there. To make a directory also makes those on the way
to it, except that a path which ends in `.` names a directory that is there
already. A file is written only into a directory that exists, in place of the
file that was there. A file where a directory is needed, or the other way
round, a name too long and a text that is no path refuse the action.

This is an idealisation. A disk has no links, no permissions and no limit of
space, so nothing else refuses an action. And a refused action leaves the disk as
it was: of directories that are made one after another, and of a file that is
written piece by piece, no first part is left behind, as it might be in fact.

A plan is a computation that lists the actions it wants carried out. What it
computes never depends on the disk, so it can be looked at, carried out on a
`Disk`, or carried out for real.

Key definitions: `Disk`, `Action`, `Disk.perform`, `Disk.performAll`, `Plan`.
Key theorems: `Disk.look_put`.
-/
import Columnar.Disk.Path
import Columnar.Fault

namespace Columnar

/-- What is at a location. -/
inductive Node where
  | directory
  | file (content : String)
deriving DecidableEq

/-- Locations and what is there, each location at most once. -/
structure Disk where
  entries : List (Location × Node)
deriving DecidableEq

/-- A change of the disk. -/
inductive Action where
  | makeDirectory (path : String)
  | write (path content : String)
deriving DecidableEq

/-- Puts a node in the place of the one at its location, or at the end. -/
def putNode (here : Location) (node : Node) : List (Location × Node) → List (Location × Node)
  | [] => [(here, node)]
  | (l, n) :: rest => if l = here then (here, node) :: rest else (l, n) :: putNode here node rest

namespace Disk

def empty : Disk := ⟨[]⟩

/-- What is at a location, if anything. -/
def look (d : Disk) (here : Location) : Option Node :=
  if here.names = [] then some .directory
  else (d.entries.find? (·.1 = here)).map (·.2)

def put (d : Disk) (here : Location) (node : Node) : Disk := ⟨putNode here node d.entries⟩

/-- Where the segments lead, if all that is passed is a directory and the end
is one. -/
def walk (d : Disk) (here : Location) : List String → Option Location
  | [] => if d.look here = some .directory then some here else none
  | s :: ss => if d.look here = some .directory then d.walk (here.step s) ss else none

/-- The disk with every directory on the way. What is followed by a final `.`
is not made. -/
def makeDirectories (d : Disk) (here : Location) : List String → Option Disk
  | [] => some d
  | s :: ss =>
    match d.look (here.step s) with
    | some .directory => d.makeDirectories (here.step s) ss
    | some (.file _) => none
    | none =>
      if Fits s ∧ ¬ endsInDot ss then
        (d.put (here.step s) .directory).makeDirectories (here.step s) ss
      else none

/-- Whether a segment names something in a directory. -/
def isName (segment : String) : Bool := !isStill segment && segment ≠ ".."

/-- The disk with a file at the end of a path. -/
def writeFile (d : Disk) (path content : String) : Option Disk :=
  match (pathSegments path).reverse with
  | [] => none
  | name :: way =>
    if isName name ∧ Fits name then
      match d.walk (Location.start path) way.reverse with
      | none => none
      | some directory =>
        if d.look (directory.step name) = some .directory then none
        else some (d.put (directory.step name) (.file content))
    else none

/-- The disk after an action, unless it is refused. -/
def perform (d : Disk) : Action → Option Disk
  | .makeDirectory path =>
    if IsPath path then d.makeDirectories (Location.start path) (pathSegments path) else none
  | .write path content => if IsPath path then d.writeFile path content else none

/-- Carries out actions up to the first refusal: whether all were carried
out, and the disk at the end. -/
def performAll (d : Disk) : List Action → Bool × Disk
  | [] => (true, d)
  | a :: as =>
    match d.perform a with
    | some d => d.performAll as
    | none => (false, d)

/-- The content of the file at a path. -/
def read? (d : Disk) (path : String) : Option String :=
  match d.look (locate path) with
  | some (.file content) => some content
  | _ => none

/-- All files with their locations. -/
def files (d : Disk) : List (Location × String) :=
  d.entries.filterMap fun entry =>
    match entry.2 with
    | .file content => some (entry.1, content)
    | .directory => none

theorem find?_putNode (here other : Location) (node : Node) : ∀ entries : List (Location × Node),
    (putNode here node entries).find? (·.1 = other) =
      if here = other then some (here, node) else entries.find? (·.1 = other)
  | [] => by by_cases h : here = other <;> simp [putNode, h]
  | (l, n) :: rest => by
    rw [putNode]
    by_cases hl : l = here
    · by_cases h : here = other
      · simp [hl, h]
      · simp [hl, h]
    · rw [if_neg hl]
      by_cases h : here = other
      · have hne : ¬ l = other := fun e => hl (e.trans h.symm)
        rw [List.find?_cons_of_neg (by simpa using hne), find?_putNode here other node rest,
          if_pos h, if_pos h]
      · simp only [List.find?_cons, find?_putNode here other node rest, h, if_false]

/-- A node is found where it was put, and nothing else has changed. -/
theorem look_put (d : Disk) {here : Location} (h : here.names ≠ []) (node : Node)
    (other : Location) :
    (d.put here node).look other = if here = other then some node else d.look other := by
  unfold look put
  rw [find?_putNode]
  by_cases he : here = other
  · subst he
    simp [h]
  · simp [he]

end Disk

/-- A result, or a fault, and the actions to be carried out before it. -/
structure Plan (α : Type) where
  actions : List Action
  result : Except Fault α

namespace Plan

/-- The actions of both in turn; the second part exists only if the first
has a result. -/
def andThen {α β : Type} (x : Plan α) (f : α → Plan β) : Plan β :=
  match x.result with
  | .ok a => ⟨x.actions ++ (f a).actions, (f a).result⟩
  | .error fault => ⟨x.actions, .error fault⟩

instance : Monad Plan where
  pure a := ⟨[], .ok a⟩
  bind := andThen

/-- The plan to carry out the actions. -/
def act (actions : List Action) : Plan Unit := ⟨actions, .ok ()⟩

/-- A result found without any action. -/
def given {α : Type} (result : Except Fault α) : Plan α := ⟨[], result⟩

end Plan
end Columnar
