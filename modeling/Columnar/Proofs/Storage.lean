/-
# What is on a disk after a plan

To make a directory makes those on the way to it and touches no file
(`look_makeDirectories`), and then the way can be walked. A file that is
written is at the location of its path and changes nothing else
(`perform_write`). So the files after a plan are those that it wrote, if no
two of its paths lead to the same location, and those that were elsewhere
before (`look_performAll`); its directories are those that it made
(`look_directory_performAll`). A plan that is stopped was carried out up to
the action that is refused (`exists_refused`).

A path below a directory leads one name further than the directory, however
the directory is spelled (`locate_joinPath`). What is done to an open
directory alone can always be carried out (`exists_performAll`).

Key definitions: `Location.passedBy`, `Action.file?`, `Action.Into`, `Disk.Open`.
Key theorems: `Disk.look_performAll`, `Disk.look_directory_performAll`,
`Disk.exists_refused`, `Disk.exists_performAll`, `locate_joinPath`.
-/
import Columnar.Disk

namespace Columnar

/-! ### The way to a location -/

namespace Location

/-- Where the segments lead one after another. -/
def passed (here : Location) : List String → List Location
  | [] => []
  | s :: ss => here.step s :: passed (here.step s) ss

theorem step_empty (here : Location) : here.step "" = here := rfl

/-- A location says what its last name is and where the others lead. -/
theorem child_injective {here there : Location} {a b : String}
    (h : here.child a = there.child b) : here = there ∧ a = b := by
  obtain ⟨rooted, above, depth, names, hdepth⟩ := here
  obtain ⟨rooted', above', depth', names', hdepth'⟩ := there
  simp only [child, mk.injEq, Nat.add_right_cancel_iff, List.cons.injEq] at h
  obtain ⟨rfl, rfl, rfl, rfl, rfl⟩ := h
  exact ⟨rfl, rfl⟩

theorem names_child (here : Location) (name : String) : (here.child name).names ≠ [] :=
  List.cons_ne_nil _ _

theorem step_of_isName {name : String} (h : Disk.isName name = true) (here : Location) :
    here.step name = here.child name := by
  simp only [Disk.isName, Bool.and_eq_true, Bool.not_eq_true', decide_eq_true_eq] at h
  unfold step
  simp [h.1, h.2]

theorem passed_append (ts : List String) : ∀ (ss : List String) (here : Location),
    passed here (ss ++ ts) = passed here ss ++ passed (ss.foldl step here) ts
  | [], _ => rfl
  | s :: ss, here => congrArg (here.step s :: ·) (passed_append ts ss (here.step s))

theorem depth_le_step {s : String} (h : s ≠ "..") (here : Location) :
    here.depth ≤ (here.step s).depth := by
  unfold step
  split
  · exact Nat.le_refl _
  · exact Nat.le_succ _

theorem depth_le_foldl : ∀ {ss : List String}, ".." ∉ ss → ∀ here : Location,
    here.depth ≤ (ss.foldl step here).depth
  | [], _, here => Nat.le_refl _
  | s :: ss, h, here => by
    have hs : s ≠ ".." := fun e => h (e ▸ List.mem_cons_self)
    have hss : ".." ∉ ss := fun e => h (List.mem_cons_of_mem s e)
    exact Nat.le_trans (depth_le_step hs here) (depth_le_foldl hss (here.step s))

theorem depth_le_of_mem_passed : ∀ {ss : List String}, ".." ∉ ss → ∀ {here l : Location},
    l ∈ passed here ss → l.depth ≤ (ss.foldl step here).depth
  | [], _, _, _, hl => by cases hl
  | s :: ss, h, here, l, hl => by
    have hss : ".." ∉ ss := fun e => h (List.mem_cons_of_mem s e)
    rcases List.mem_cons.mp hl with rfl | hl
    · exact depth_le_foldl hss _
    · exact depth_le_of_mem_passed hss hl

/-- The locations that a path passes, where it leads among them. -/
def passedBy (path : String) : List Location := passed (start path) (pathSegments path)

/-- Without a step back a path does not pass what is below its end. -/
theorem child_notMem_passedBy {path : String} (h : ".." ∉ pathSegments path) (name : String) :
    (locate path).child name ∉ passedBy path := by
  intro hmem
  have hdepth : ((locate path).child name).depth ≤ (locate path).depth :=
    depth_le_of_mem_passed h hmem
  exact absurd hdepth (Nat.not_succ_le_self _)

end Location

/-! ### Paths below a directory -/

theorem segments_of_noSlash : ∀ {cs : List Char}, '/' ∉ cs → segments cs = [cs]
  | [], _ => rfl
  | c :: cs, h => by
    have hc : c ≠ '/' := fun e => h (e ▸ List.mem_cons_self)
    have hcs : '/' ∉ cs := fun e => h (List.mem_cons_of_mem c e)
    rw [segments, if_neg hc, segments_of_noSlash hcs]

/-- The segments of a path below a directory: those of the directory, but for
the nothing after a final slash, and the name. -/
theorem exists_pathSegments_joinPath (directory : String) {name : String}
    (h : '/' ∉ name.toList) :
    ∃ way, pathSegments (joinPath directory name) = way ++ [name] ∧
      Location.start (joinPath directory name) = Location.start directory ∧
      (pathSegments directory = way ∨ pathSegments directory = way ++ [""]) := by
  have hname : segments name.toList = [name.toList] := segments_of_noSlash h
  have hroot : isRooted name = false := by
    unfold isRooted
    cases hcs : name.toList with
    | nil => rfl
    | cons c cs =>
      have hc : c ≠ '/' := fun e => h (by rw [hcs, e]; exact List.mem_cons_self)
      simpa using hc
  unfold joinPath
  rw [hroot, if_neg Bool.false_ne_true]
  by_cases hempty : directory = ""
  · subst hempty
    refine ⟨[], ?_, ?_, .inr rfl⟩
    · rw [if_pos rfl, pathSegments, hname]
      simp
    · rw [if_pos rfl, Location.start, hroot]
      rfl
  rw [if_neg hempty]
  obtain ⟨c, cs, hcs⟩ : ∃ c cs, directory.toList = c :: cs := by
    cases hd : directory.toList with
    | nil => exact absurd (String.toList_eq_nil_iff.mp hd) hempty
    | cons c cs => exact ⟨c, cs, rfl⟩
  have hstart : ∀ rest, Location.start (directory ++ rest) = Location.start directory := by
    intro rest
    simp [Location.start, isRooted, hcs]
  by_cases hslash : directory.toList.getLast? = some '/'
  · rw [if_pos hslash]
    obtain ⟨bs, hbs⟩ := List.getLast?_eq_some_iff.mp hslash
    refine ⟨(segments bs).map String.ofList, ?_, hstart _, .inr ?_⟩
    · rw [pathSegments, String.toList_append, hbs, List.append_assoc, List.singleton_append,
        segments_append_slash, hname]
      simp
    · rw [pathSegments, hbs, segments_append_slash]
      simp [segments]
  · rw [if_neg hslash]
    refine ⟨pathSegments directory, ?_, ?_, .inl rfl⟩
    · have hlist : (directory ++ "/" ++ name).toList = directory.toList ++ '/' :: name.toList := by
        simp
      rw [pathSegments, hlist, segments_append_slash, hname, pathSegments]
      simp
    · rw [String.append_assoc]
      exact hstart _

/-- A path below a directory leads one name further. -/
theorem locate_joinPath (directory : String) {name : String} (h : '/' ∉ name.toList)
    (hname : Disk.isName name = true) :
    locate (joinPath directory name) = (locate directory).child name := by
  obtain ⟨way, hway, hstart, hdirectory⟩ := exists_pathSegments_joinPath directory h
  have hlast : locate directory = way.foldl Location.step (Location.start directory) := by
    unfold locate
    rcases hdirectory with hd | hd
    · rw [hd]
    · rw [hd, List.foldl_append, List.foldl_cons, List.foldl_nil, Location.step_empty]
  rw [locate, hway, hstart, List.foldl_append, List.foldl_cons, List.foldl_nil, ← hlast,
    Location.step_of_isName hname]

theorem isPath_joinPath {directory name : String} (h : IsPath directory)
    (hsize : directory.utf8ByteSize + name.utf8ByteSize < longestPath)
    (hname : '\x00' ∉ name.toList) : IsPath (joinPath directory name) := by
  obtain ⟨hlong, hdirectory⟩ := h
  unfold joinPath
  split
  · exact ⟨by omega, hname⟩
  split
  · exact ⟨by omega, hname⟩
  split
  · refine ⟨?_, ?_⟩
    · rw [String.utf8ByteSize_append]
      omega
    · simp [hdirectory, hname]
  · refine ⟨?_, ?_⟩
    · have hslash : "/".utf8ByteSize = 1 := rfl
      rw [String.utf8ByteSize_append, String.utf8ByteSize_append, hslash]
      omega
    · simp [hdirectory, hname]

/-- What an action writes, and where. -/
def Action.file? : Action → Option (Location × String)
  | .makeDirectory _ => none
  | .write path content => some (locate path, content)

/-- Names that files can have, each a single segment. -/
def Disk.AreNames (names : List String) : Prop :=
  ∀ name ∈ names, isName name = true ∧ '/' ∉ name.toList

namespace Action

/-- What is done to a directory alone: it is made, or a file is written into
it under one of the names. -/
inductive Into (directory : String) (names : List String) : Action → Prop
  | make : Into directory names (.makeDirectory directory)
  | write {name : String} (content : String) (h : name ∈ names) :
      Into directory names (.write (joinPath directory name) content)

theorem Into.mono {directory : String} {names others : List String} {a : Action}
    (h : a.Into directory names) (hsub : ∀ name ∈ names, name ∈ others) :
    a.Into directory others := by
  cases h with
  | make => exact .make
  | write content hname => exact .write content (hsub _ hname)

end Action

namespace Disk

open Location (passed passed_append passedBy)

/-! ### One action -/

theorem walk_eq_some_iff {d : Disk} : ∀ {ss : List String} {here l : Location},
    d.walk here ss = some l ↔
      l = ss.foldl Location.step here ∧ ∀ m ∈ here :: passed here ss, d.look m = some .directory
  | [], here, l => by
    unfold walk passed
    by_cases h : d.look here = some .directory
    · simp [h, eq_comm]
    · simp [h]
  | s :: ss, here, l => by
    unfold walk
    by_cases h : d.look here = some .directory
    · rw [if_pos h, walk_eq_some_iff, List.foldl_cons, passed, List.forall_mem_cons (a := here)]
      exact and_congr_right fun _ => (and_iff_right h).symm
    · rw [if_neg h]
      simp [h]

/-- **To make a directory.** The directories afterwards are those before and
those on the way, and the files are the same. -/
theorem look_makeDirectories : ∀ {ss : List String} {d d' : Disk} {here : Location},
    d.makeDirectories here ss = some d' → ∀ l : Location,
      (∀ content, d'.look l = some (.file content) ↔ d.look l = some (.file content)) ∧
      (d'.look l = some .directory ↔ d.look l = some .directory ∨ l ∈ passed here ss)
  | [], d, d', here, h, l => by
    cases h
    exact ⟨fun _ => Iff.rfl, by simp [passed]⟩
  | s :: ss, d, d', here, h, l => by
    unfold makeDirectories at h
    rw [passed, List.mem_cons]
    split at h
    · rename_i hthere
      obtain ⟨hfiles, hdirs⟩ := look_makeDirectories h l
      refine ⟨hfiles, hdirs.trans ⟨?_, ?_⟩⟩
      · rintro (hl | hl)
        · exact .inl hl
        · exact .inr (.inr hl)
      · rintro (hl | rfl | hl)
        · exact .inl hl
        · exact .inl hthere
        · exact .inr hl
    · cases h
    · rename_i hnone
      split at h
      · -- the directories without a name are always there, so this one has a name
        have hnames : (here.step s).names ≠ [] := by
          intro hnil
          rw [look, if_pos hnil] at hnone
          cases hnone
        obtain ⟨hfiles, hdirs⟩ := look_makeDirectories h l
        simp only [look_put d hnames] at hfiles hdirs
        by_cases hl : here.step s = l
        · subst hl
          simp only [if_true] at hfiles hdirs
          exact ⟨fun content => by rw [hfiles, hnone]; simp, by rw [hdirs]; simp⟩
        · simp only [if_neg hl] at hfiles hdirs
          exact ⟨hfiles, by rw [hdirs]; simp [Ne.symm hl]⟩
      · cases h

/-- A file that is written replaces what is at its location, never a directory. -/
theorem perform_write {d d' : Disk} {path content : String}
    (h : d.perform (.write path content) = some d') :
    (locate path).names ≠ [] ∧ d.look (locate path) ≠ some .directory ∧
      d' = d.put (locate path) (.file content) := by
  rw [perform] at h
  split at h
  · unfold writeFile at h
    split at h
    · cases h
    · rename_i name way hreverse
      have hsegments : pathSegments path = way.reverse ++ [name] := by
        rw [← List.reverse_reverse (pathSegments path), hreverse, List.reverse_cons]
      split at h
      · rename_i hname
        split at h
        · cases h
        · rename_i directory hwalk
          -- the directory that was walked to and the name are the location of the path
          obtain ⟨rfl, -⟩ := walk_eq_some_iff.mp hwalk
          have hlocate : locate path =
              (way.reverse.foldl Location.step (Location.start path)).step name := by
            rw [locate, hsegments, List.foldl_append, List.foldl_cons, List.foldl_nil]
          rw [← hlocate] at h
          split at h
          · cases h
          · rename_i hfree
            refine ⟨?_, hfree, (Option.some.inj h).symm⟩
            rw [hlocate, Location.step_of_isName hname.1]
            exact Location.names_child _ _
      · cases h
  · cases h

theorem look_perform {d d' : Disk} {a : Action} (h : d.perform a = some d') (l : Location)
    (content : String) :
    d'.look l = some (.file content) ↔
      a.file? = some (l, content) ∨ l ∉ a.file?.map Prod.fst ∧ d.look l = some (.file content) := by
  cases a with
  | makeDirectory path =>
    rw [perform] at h
    split at h
    · rw [(look_makeDirectories h l).1]
      simp [Action.file?]
    · cases h
  | write path written =>
    obtain ⟨hnames, -, rfl⟩ := perform_write h
    rw [look_put d hnames]
    by_cases hl : locate path = l
    · simp [Action.file?, hl]
    · simp [Action.file?, hl]

theorem look_directory_perform {d d' : Disk} {a : Action} (h : d.perform a = some d')
    (l : Location) :
    d'.look l = some .directory ↔ d.look l = some .directory ∨
      ∃ path, a = .makeDirectory path ∧ l ∈ passedBy path := by
  cases a with
  | makeDirectory path =>
    rw [perform] at h
    split at h
    · rw [(look_makeDirectories h l).2]
      simp [passedBy]
    · cases h
  | write path written =>
    obtain ⟨hnames, hfree, rfl⟩ := perform_write h
    rw [look_put d hnames]
    by_cases hl : locate path = l
    · subst hl
      simp [hfree]
    · simp [hl]

theorem look_empty {l : Location} {node : Node} :
    empty.look l = some node ↔ l.names = [] ∧ node = .directory := by
  unfold look
  split
  · rename_i h
    simp [h, eq_comm]
  · rename_i h
    simp [h, empty]

/-! ### A whole plan -/

theorem performAll_cons {d d' : Disk} {a : Action} {actions : List Action}
    (h : d.performAll (a :: actions) = (true, d')) :
    ∃ d₁, d.perform a = some d₁ ∧ d₁.performAll actions = (true, d') := by
  unfold performAll at h
  split at h
  · rename_i d₁ ha
    exact ⟨d₁, ha, h⟩
  · cases h

/-- **The files after a plan.** They are those that it wrote and, elsewhere,
those that were there before. -/
theorem look_performAll : ∀ {actions : List Action} {d d' : Disk},
    d.performAll actions = (true, d') → ((actions.filterMap Action.file?).map Prod.fst).Nodup →
    ∀ (l : Location) (content : String), d'.look l = some (.file content) ↔
      (l, content) ∈ actions.filterMap Action.file? ∨
        l ∉ (actions.filterMap Action.file?).map Prod.fst ∧ d.look l = some (.file content)
  | [], d, d', h, _, l, content => by
    cases h
    simp
  | a :: actions, d, d', h, hnodup, l, content => by
    obtain ⟨d₁, ha, h⟩ := performAll_cons h
    cases hfile : a.file? with
    | none =>
      rw [List.filterMap_cons_none hfile] at hnodup ⊢
      rw [look_performAll h hnodup, look_perform ha, hfile]
      simp
    | some written =>
      rw [List.filterMap_cons_some hfile, List.map_cons] at hnodup ⊢
      obtain ⟨hnew, hnodup⟩ := List.nodup_cons.mp hnodup
      rw [look_performAll h hnodup, look_perform ha, hfile, List.mem_cons, List.mem_cons]
      by_cases hl : l = written.1
      · -- no later action writes there, so this content stays
        subst hl
        simp only [hnew, Option.some.injEq, Option.map_some, not_false_eq_true, true_and,
          Option.mem_some_iff, not_true_eq_false, false_and, or_false]
        rw [or_comm, eq_comm]
      · have hother : written ≠ (l, content) := fun e => hl (congrArg Prod.fst e.symm)
        simp [hother, hother.symm, hl, Ne.symm hl]

/-- The directories after a plan are those before and those that it made. -/
theorem look_directory_performAll : ∀ {actions : List Action} {d d' : Disk},
    d.performAll actions = (true, d') → ∀ l : Location,
      d'.look l = some .directory ↔ d.look l = some .directory ∨
        ∃ path, .makeDirectory path ∈ actions ∧ l ∈ passedBy path
  | [], d, d', h, l => by
    cases h
    simp
  | a :: actions, d, d', h, l => by
    obtain ⟨d₁, ha, h⟩ := performAll_cons h
    rw [look_directory_performAll h, look_directory_perform ha]
    constructor
    · rintro ((hl | ⟨path, rfl, hl⟩) | ⟨path, hmem, hl⟩)
      · exact .inl hl
      · exact .inr ⟨path, List.mem_cons_self, hl⟩
      · exact .inr ⟨path, List.mem_cons_of_mem a hmem, hl⟩
    · rintro (hl | ⟨path, hmem, hl⟩)
      · exact .inl (.inl hl)
      · rcases List.mem_cons.mp hmem with rfl | hmem
        · exact .inl (.inr ⟨path, rfl, hl⟩)
        · exact .inr ⟨path, hmem, hl⟩

/-! ### Writing into a directory -/

/-- Everything on the way is a directory, and none of the names is taken by a
directory at its end. -/
structure Open (d : Disk) (directory : String) (names : List String) : Prop where
  way : ∀ l ∈ Location.start directory :: passedBy directory, d.look l = some .directory
  free : ∀ name ∈ names, d.look ((locate directory).child name) ≠ some .directory

/-- A name for a file of the directory, whose path is not too long. -/
structure Storable (directory name : String) : Prop where
  isName : isName name = true
  noSlash : '/' ∉ name.toList
  fits : Fits name
  isPath : IsPath (joinPath directory name)

/-- The way to an open directory, without the nothing after a final slash,
can be walked. -/
theorem Open.walk {d : Disk} {directory : String} {names : List String}
    (h : d.Open directory names) {way : List String}
    (hway : pathSegments directory = way ∨ pathSegments directory = way ++ [""]) :
    d.walk (Location.start directory) way = some (locate directory) := by
  have hlast : locate directory = way.foldl Location.step (Location.start directory) := by
    unfold locate
    rcases hway with hway | hway
    · rw [hway]
    · rw [hway, List.foldl_append, List.foldl_cons, List.foldl_nil, Location.step_empty]
  refine walk_eq_some_iff.mpr ⟨hlast, fun l hl => h.way l ?_⟩
  rw [passedBy]
  rcases hway with hway | hway
  · rw [hway]
    exact hl
  · rw [hway, passed_append]
    exact List.mem_append_left _ hl

/-- A file can be written into an open directory, which stays open. -/
theorem Open.write {d : Disk} {directory name : String} {names : List String}
    (h : d.Open directory names) (hmem : name ∈ names) (hname : Storable directory name)
    (content : String) : ∃ d', d.perform (.write (joinPath directory name) content) = some d' ∧
      d'.Open directory names := by
  obtain ⟨way, hway, hstart, hdirectory⟩ := exists_pathSegments_joinPath directory hname.noSlash
  have hstep := Location.step_of_isName hname.isName (locate directory)
  have hnames := Location.names_child (locate directory) name
  refine ⟨d.put ((locate directory).child name) (.file content), ?_, ?_, ?_⟩
  · rw [perform, if_pos hname.isPath, writeFile, hway, List.reverse_append]
    simp only [List.reverse_cons, List.reverse_nil, List.nil_append, List.cons_append,
      List.reverse_reverse]
    rw [if_pos ⟨hname.isName, hname.fits⟩, hstart, h.walk hdirectory]
    simp only
    rw [hstep, if_neg (h.free name hmem)]
  · intro l hl
    have hne : (locate directory).child name ≠ l := fun e => h.free name hmem (e ▸ h.way l hl)
    rw [look_put d hnames, if_neg hne]
    exact h.way l hl
  · intro other hother
    rw [look_put d hnames]
    split
    · simp
    · exact h.free other hother

/-- To make a directory that is there with all on the way changes nothing. -/
theorem makeDirectories_of_there {d : Disk} : ∀ {ss : List String} {here : Location},
    (∀ l ∈ passed here ss, d.look l = some .directory) → d.makeDirectories here ss = some d
  | [], _, _ => rfl
  | s :: ss, here, h => by
    obtain ⟨hstep, hrest⟩ := List.forall_mem_cons.mp h
    rw [makeDirectories, hstep]
    exact makeDirectories_of_there hrest

section

variable {directory : String} {names : List String} (hpath : IsPath directory)
  (hnames : ∀ name ∈ names, Storable directory name)

include hpath hnames

theorem Open.perform {d : Disk} (h : d.Open directory names) {a : Action}
    (ha : a.Into directory names) : ∃ d', d.perform a = some d' ∧ d'.Open directory names := by
  cases ha with
  | make =>
    refine ⟨d, ?_, h⟩
    rw [Disk.perform, if_pos hpath]
    exact makeDirectories_of_there fun l hl => h.way l (List.mem_cons_of_mem _ hl)
  | write content hname => exact h.write hname (hnames _ hname) content

/-- Whatever is done to an open directory alone can be carried out. -/
theorem exists_performAll : ∀ {actions : List Action} {d : Disk}, d.Open directory names →
    (∀ a ∈ actions, a.Into directory names) → ∃ d', d.performAll actions = (true, d')
  | [], d, _, _ => ⟨d, rfl⟩
  | a :: actions, d, h, hactions => by
    obtain ⟨ha, hrest⟩ := List.forall_mem_cons.mp hactions
    obtain ⟨d₁, hperform, hopen⟩ := h.perform hpath hnames ha
    obtain ⟨d', hall⟩ := exists_performAll hopen hrest
    refine ⟨d', ?_⟩
    rw [performAll, hperform]
    exact hall

end

/-- A directory that is made on the empty disk is open to all names but those
of the directories that its path passes and leaves again. -/
theorem open_of_makeDirectory {directory : String} {names : List String} {d : Disk}
    (h : empty.perform (.makeDirectory directory) = some d)
    (hfree : ∀ name ∈ names, (locate directory).child name ∉ passedBy directory) :
    d.Open directory names := by
  constructor
  · intro l hl
    refine (look_directory_perform h l).mpr ?_
    rcases List.mem_cons.mp hl with rfl | hl
    · exact .inl (look_empty.mpr ⟨rfl, rfl⟩)
    · exact .inr ⟨directory, rfl, hl⟩
  · intro name hname hlook
    rcases (look_directory_perform h _).mp hlook with hlook | ⟨path, hpath, hl⟩
    · exact Location.names_child _ _ (look_empty.mp hlook).1
    · cases hpath
      exact hfree name hname hl

end Disk
end Columnar
