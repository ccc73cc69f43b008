/-
# Paths

A path is a text of segments between slashes; one that begins with a slash
is rooted. `joinPath` puts a path below a directory and leaves the text as it
is given. `Location` is what a path means: where it starts and the names on
the way, without empty segments, `.` and, as far as it goes, `..`.

Paths and names have a greatest length in bytes, and no path holds a NUL.

Key definitions: `joinPath`, `segments`, `stages`, `IsPath`, `Location`, `locate`.
Key theorems: `segments_ne_nil`, `segments_append_slash`.
-/

namespace Columnar

/-- Whether a path starts at the root. -/
def isRooted (path : String) : Bool := path.toList.head? == some '/'

/-- The path `rest` below the directory `base`; a rooted path stays itself. -/
def joinPath (base rest : String) : String :=
  if isRooted rest then rest
  else if base = "" then rest
  else if base.toList.getLast? = some '/' then base ++ rest
  else base ++ "/" ++ rest

/-- The texts between the slashes. -/
def segments : List Char → List (List Char)
  | [] => [[]]
  | c :: cs =>
    if c = '/' then [] :: segments cs
    else
      match segments cs with
      | [] => [[c]]
      | s :: ss => (c :: s) :: ss

theorem segments_ne_nil : ∀ cs : List Char, segments cs ≠ []
  | [] => by simp [segments]
  | c :: cs => by
    rw [segments]
    split
    · simp
    · split <;> simp

/-- A slash ends a segment, whatever stands around it. -/
theorem segments_append_slash (bs : List Char) :
    ∀ as : List Char, segments (as ++ '/' :: bs) = segments as ++ segments bs
  | [] => by simp [segments]
  | c :: as => by
    rw [List.cons_append, segments, segments, segments_append_slash bs as]
    by_cases h : c = '/'
    · simp [h]
    · cases hs : segments as with
      | nil => exact absurd hs (segments_ne_nil as)
      | cons s ss => simp [h]

/-- The segments of a path as texts. -/
def pathSegments (path : String) : List String := (segments path.toList).map String.ofList

/-- Whether a segment leads nowhere else. -/
def isStill (segment : String) : Bool := segment = "" || segment = "."

/-- Whether the segments that are left only say, with a `.`, that a directory
is meant. -/
def endsInDot (left : List String) : Bool := left.all isStill && left.contains "."

/-- The directories on the way to a path and then the path itself, as texts:
the order in which they are made. -/
def stages (path : String) : List String :=
  let way := pathSegments path
  let ends := (List.range way.length).filter fun i => !isStill (way.getD i "")
  ends.dropLast.map (fun i => "/".intercalate (way.take (i + 1))) ++ [path]

/-! ### Lengths -/

/-- The greatest length of a path in bytes. -/
def longestPath : Nat := 4095

/-- The greatest length of a name in bytes. -/
def longestName : Nat := 255

/-- A text that can be a path at all. -/
def IsPath (path : String) : Prop := path.utf8ByteSize ≤ longestPath ∧ '\x00' ∉ path.toList

instance (path : String) : Decidable (IsPath path) := inferInstanceAs (Decidable (_ ∧ _))

/-- A name that a file or a directory can have. -/
def Fits (name : String) : Prop := name.utf8ByteSize ≤ longestName

instance (name : String) : Decidable (Fits name) := inferInstanceAs (Decidable (_ ≤ _))

/-! ### Locations -/

/-- Where a path leads. The number of names comes before the names, so that
locations at different depths are told apart at once. -/
structure Location where
  /-- Whether the way starts at the root and not at the working directory. -/
  rooted : Bool
  /-- How far above the working directory the way begins. -/
  above : Nat
  /-- How many names are on the way. -/
  depth : Nat
  /-- The names on the way, the last one first. -/
  names : List String
  depth_eq : depth = names.length
deriving DecidableEq

namespace Location

/-- The directory that a path starts from. -/
def start (path : String) : Location := ⟨isRooted path, 0, 0, [], rfl⟩

/-- A name further. -/
def child (here : Location) (name : String) : Location :=
  ⟨here.rooted, here.above, here.depth + 1, name :: here.names, by simp [here.depth_eq]⟩

/-- A step back: the last name off, or above the start, but not above the root. -/
def parent : Location → Location
  | ⟨rooted, above, depth, _ :: names, h⟩ =>
    ⟨rooted, above, depth - 1, names, by rw [h, List.length_cons, Nat.add_sub_cancel]⟩
  | ⟨rooted, above, depth, [], h⟩ => ⟨rooted, if rooted then above else above + 1, depth, [], h⟩

/-- One segment further. -/
def step (here : Location) (segment : String) : Location :=
  if isStill segment then here
  else if segment = ".." then here.parent
  else here.child segment

/-- The path from the working directory, if the location is below it. -/
def relative? (here : Location) : Option String :=
  if here.rooted ∨ here.above ≠ 0 ∨ here.names = [] then none
  else some ("/".intercalate here.names.reverse)

end Location

/-- The location that a path leads to. -/
def locate (path : String) : Location := (pathSegments path).foldl Location.step (Location.start path)

end Columnar
