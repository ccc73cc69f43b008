/-
# What the scripts load

The first and the fourth scenario load a data file by a path that is the data
directory, a slash and the name of the file. The file itself is written where
`joinPath` puts that name below the output directory. When one directory is
chosen for both, the two texts need not be the same: after a final slash the
script has two. But they say the same way, once empty segments and `.` are
passed over (`route_load`, `route_joinPath`), and so lead to the same file.

The empty directory is the exception. It stands for the working directory,
and a slash before a name is the root: the script loads a file at the root,
which the suite does not write (`locate_load_empty`).

Key definitions: `route`, `LoadsOnce`, `Loading`.
Key theorems: `locate_eq_of_route_eq`, `Tables.Made.loading`,
`loads_what_is_written`.
-/
import Columnar.Proofs.Dependence
import Columnar.Proofs.Sweep

namespace Columnar

/-! ### Routes -/

/-- What a path says once repeated slashes and `.` are passed over: whether it
starts at the root, and the segments that lead elsewhere. -/
def route (path : String) : Bool × List String :=
  (isRooted path, (pathSegments path).filter fun segment => !isStill segment)

/-- A segment that leads nowhere else can be left out. -/
theorem foldl_step_filter (segments : List String) (here : Location) :
    (segments.filter fun segment => !isStill segment).foldl Location.step here =
      segments.foldl Location.step here := by
  rw [List.foldl_filter]
  congr
  funext there segment
  by_cases h : isStill segment = true
  · simp [Location.step, h]
  · simp [h]

theorem locate_eq_of_route_eq {path path' : String} (h : route path = route path') :
    locate path = locate path' := by
  obtain ⟨hroot, hway⟩ := Prod.mk.inj h
  rw [locate, locate, ← foldl_step_filter, hway, foldl_step_filter, Location.start, hroot,
    Location.start]

example : route "out//./a/" = (false, ["out", "a"]) := by decide +kernel

theorem rooted_foldl_step : ∀ (segments : List String) (here : Location),
    (segments.foldl Location.step here).rooted = here.rooted
  | [], _ => rfl
  | s :: ss, here => by
    have hstep : (here.step s).rooted = here.rooted := by
      unfold Location.step
      split
      · rfl
      split
      · obtain ⟨_, _, _, names, _⟩ := here
        cases names <;> rfl
      · rfl
    rw [List.foldl_cons, rooted_foldl_step ss, hstep]

theorem rooted_locate (path : String) : (locate path).rooted = isRooted path :=
  rooted_foldl_step _ _

/-! ### The two paths of a data file -/

theorem isRooted_append {directory : String} (h : directory ≠ "") (rest : String) :
    isRooted (directory ++ rest) = isRooted directory := by
  have hne : directory.toList ≠ [] := fun e => h (String.toList_eq_nil_iff.mp e)
  rw [isRooted, isRooted, String.toList_append, List.head?_append_of_ne_nil _ hne]

/-- The route of a path that has one name more than a directory, but for the
nothing after a final slash. -/
theorem route_of_way {path directory name : String} {way : List String}
    (hrooted : isRooted path = isRooted directory) (hpath : pathSegments path = way ++ [name])
    (hdirectory : pathSegments directory = way ∨ pathSegments directory = way ++ [""])
    (hname : Disk.isName name = true) :
    route path = ((route directory).1, (route directory).2 ++ [name]) := by
  have hmoves : isStill name = false := by
    simp only [Disk.isName, Bool.and_eq_true, Bool.not_eq_true'] at hname
    exact hname.1
  have hway : (route directory).2 = way.filter fun segment => !isStill segment := by
    rcases hdirectory with h | h
    · rw [route, h]
    · simp [route, h, List.filter_append, isStill]
  rw [hway, route, hrooted, hpath, List.filter_append]
  simp [route, hmoves]

section

variable {name : String} (hslash : '/' ∉ name.toList) (hname : Disk.isName name = true)

include hslash hname

theorem route_joinPath (directory : String) :
    route (joinPath directory name) = ((route directory).1, (route directory).2 ++ [name]) := by
  obtain ⟨way, hpath, hstart, hdirectory⟩ := exists_pathSegments_joinPath directory hslash
  exact route_of_way (congrArg Location.rooted hstart) hpath hdirectory hname

/-- A slash and a name go one name further from a directory that has a text. -/
theorem route_load {directory : String} (h : directory ≠ "") :
    route (directory ++ "/" ++ name) = ((route directory).1, (route directory).2 ++ [name]) := by
  refine route_of_way ?_ ?_ (.inl rfl) hname
  · rw [String.append_assoc, isRooted_append h]
  · have hlist : (directory ++ "/" ++ name).toList = directory.toList ++ '/' :: name.toList := by
      simp
    rw [pathSegments, hlist, segments_append_slash, segments_of_noSlash hslash, pathSegments]
    simp

/-- Without a directory the slash leads to the root, and `joinPath` stays below
the working directory. -/
theorem locate_load_empty : locate ("" ++ "/" ++ name) ≠ locate (joinPath "" name) := by
  intro h
  have hrooted := congrArg Location.rooted h
  rw [locate_joinPath "" hslash hname, rooted_locate] at hrooted
  have hslashFirst : isRooted ("" ++ "/" ++ name) = true := by simp [isRooted]
  exact Bool.noConfusion (hslashFirst.symm.trans hrooted)

end

theorem Disk.read?_eq_some_iff {d : Disk} {path content : String} :
    d.read? path = some content ↔ d.look (locate path) = some (.file content) := by
  unfold read?
  split
  · rename_i found hlook
    rw [hlook, Option.some.injEq, Option.some.injEq, Node.file.injEq]
  · rename_i hnone
    exact ⟨(nomatch ·), fun h => absurd h (hnone content)⟩

/-! ### Scripts that load -/

namespace Suite

/-- A script in which one command loads, namely from `path`. -/
def LoadsOnce (path content : String) : Prop :=
  ∃ before after : List Command, content = scriptText (before ++ .load path :: after) ∧
    ∀ command ∈ before ++ after, ∀ other, command ≠ .load other

theorem LoadsFrom.loadsOnce {file directory directory' content content' : String}
    (h : LoadsFrom file directory directory' content content') :
    LoadsOnce (directory ++ "/" ++ file) content := by
  obtain ⟨before, after, hcontent, -, hother⟩ := h
  exact ⟨before, after, hcontent, hother⟩

/-- A suite writes the script with a number, which loads from `path`, and a
data file with the table for it. -/
structure Loading (c : Config) (number : Nat) (file : String) (table : Table) (path : String) :
    Prop where
  script : ∃ content, .write (scriptPath c.outputDirectory number) content ∈ (generate c).actions ∧
    LoadsOnce path content
  data : .write (joinPath c.outputDirectory file) table.csv ∈ (generate c).actions

/-- The scenarios that load, each with its file and the table that is in it. -/
def Tables.loadings (t : Tables) : List (Nat × String × Table) :=
  [(1, Fixture.narrowFile, t.narrow), (4, Fixture.wideFile, t.wide)]

theorem exists_tables_made {c : Config} (hrows : c.wideRows < 2 ^ 64) :
    ∃ t k, Tables.Made c k t := by
  obtain ⟨wide, -, -, -, k, -, hwide, -⟩ :=
    Fixture.exists_wide_columns redrawLimit hrows (Keystream.ofSeed c.seed)
  exact exists_made_of_wide hwide

section

variable {c : Config} {k : Keystream} {t : Tables} (h : Tables.Made c k t)

include h

/-- With the tables the plan has a result, and the main part is carried out. -/
theorem Tables.Made.exists_result : ∃ m, (generate c).result = .ok m ∧
    ∀ a ∈ mainWrites c t k, a ∈ (generate c).actions := by
  obtain ⟨actions, records, hsweep, -⟩ := exists_sweepAll c
  rw [generate_eq_of_swept h hsweep]
  exact ⟨_, rfl, fun a ha => List.mem_cons_of_mem _ (List.mem_append_left _ ha)⟩

/-- Whichever directories there are, the scripts that load name the data
directory, and the tables are in the output directory. -/
theorem Tables.Made.loading : ∀ number file table, (number, file, table) ∈ t.loadings →
    Loading c number file table (c.dataDirectory ++ "/" ++ file) := by
  obtain ⟨m, -, hmain⟩ := h.exists_result
  have hscript : ∀ (s : Scenario) {catalog last : Catalog} {text : String},
      s.evaluate catalog = .ok (text, last) →
      conduct c.outputDirectory catalog s ∈ outcomes c t k →
      .write (scriptPath c.outputDirectory s.heading.number) s.script ∈ (generate c).actions := by
    intro s catalog last text hresult hmem
    refine hmain _ (mem_mainWrites.mpr (.inr (.inr ⟨_, hmem, ?_⟩)))
    rw [conduct_of_ok _ hresult]
    exact List.mem_cons_self
  intro number file table hmem
  simp only [Tables.loadings, List.mem_cons, Prod.mk.injEq, List.not_mem_nil, or_false] at hmem
  rcases hmem with ⟨rfl, rfl, rfl⟩ | ⟨rfl, rfl, rfl⟩
  · have hfirst : Scenario.loadNarrow c.dataDirectory ∈ narrowScenarios c := List.mem_cons_self
    obtain ⟨⟨text, last⟩, hresult⟩ := h.evaluate_narrowScenarios _ hfirst
    have hwritten := hscript _ hresult (List.mem_append_left _ (List.mem_map_of_mem hfirst))
    exact ⟨⟨_, hwritten, (loadsFrom_loadNarrow c.dataDirectory c.dataDirectory).loadsOnce⟩,
      hmain _ (mem_mainWrites.mpr (.inl rfl))⟩
  · have hwritten := hscript _ h.evaluate_loadWide (List.mem_append_right _ List.mem_cons_self)
    exact ⟨⟨_, hwritten, (loadsFrom_loadWide c.dataDirectory c.dataDirectory).loadsOnce⟩,
      hmain _ (mem_mainWrites.mpr (.inr (.inl rfl)))⟩

/-- A run without a sweep leaves every file as the plan has it. -/
theorem Tables.Made.read_of_run (hsweep : c.sweep = none) {path content : String}
    (hwrite : .write path content ∈ (generate c).actions) {disk disk' : Disk} {m : Manifest}
    (hrun : run c disk = (.ok m, disk')) : disk'.read? path = some content := by
  obtain ⟨-, hperform, -⟩ := exists_of_run_eq_ok hrun
  rw [Disk.read?_eq_some_iff, Disk.look_performAll hperform (nodup_locations h hsweep)]
  exact .inl (List.mem_filterMap.mpr ⟨_, hwrite, rfl⟩)

end

/-- **The scripts load what is written.** With one directory chosen for the
files and the scripts, the two scripts that load and the two data files are
always made. If the directory has a text, whichever it is, the path in the
script and the path of the file have the same route, and after a run without
a sweep the table is found where the script looks for it. The empty directory
is the exception: there the two paths lead to different locations. -/
theorem loads_what_is_written {c : Config} (hrows : c.wideRows < 2 ^ 64) (directory : String) :
    ∃ t k m, Tables.Made (c.withOutput directory) k t ∧
      (generate (c.withOutput directory)).result = .ok m ∧
      ∀ number file table, (number, file, table) ∈ t.loadings →
        Loading (c.withOutput directory) number file table (directory ++ "/" ++ file) ∧
        (directory ≠ "" →
          route (directory ++ "/" ++ file) = route (joinPath directory file) ∧
          (c.sweep = none → ∀ disk m disk',
            run (c.withOutput directory) disk = (.ok m, disk') →
            disk'.read? (directory ++ "/" ++ file) = some table.csv)) ∧
        (directory = "" →
          locate (directory ++ "/" ++ file) ≠ locate (joinPath directory file)) := by
  obtain ⟨t, k, ht⟩ := @exists_tables_made (c.withOutput directory) hrows
  obtain ⟨m, hm, -⟩ := ht.exists_result
  refine ⟨t, k, m, ht, hm, fun number file table hmem => ?_⟩
  have hloading := ht.loading number file table hmem
  obtain ⟨hname, hslash⟩ : Disk.isName file = true ∧ '/' ∉ file.toList := by
    simp only [Tables.loadings, List.mem_cons, Prod.mk.injEq, List.not_mem_nil, or_false] at hmem
    rcases hmem with ⟨-, rfl, -⟩ | ⟨-, rfl, -⟩ <;> exact ⟨by decide +kernel, by decide +kernel⟩
  refine ⟨hloading, fun hdirectory => ?_, fun hempty => hempty ▸ locate_load_empty hslash hname⟩
  have hroute : route (directory ++ "/" ++ file) = route (joinPath directory file) :=
    (route_load hslash hname hdirectory).trans (route_joinPath hslash hname directory).symm
  refine ⟨hroute, fun hsweep disk m' disk' hrun => ?_⟩
  rw [Disk.read?_eq_some_iff, locate_eq_of_route_eq hroute, ← Disk.read?_eq_some_iff]
  exact ht.read_of_run hsweep hloading.data hrun

/-- A directory with a final slash: the script has two slashes and the file is
found all the same. -/
theorem loads_what_is_written_slash : 20 < 2 ^ 64 ∧ ∃ t k m disk,
    Tables.Made ((Config.ofRows 20).withOutput "out/") k t ∧
      run ((Config.ofRows 20).withOutput "out/") Disk.empty = (.ok m, disk) ∧
      joinPath "out/" Fixture.narrowFile = "out/data1_generated.csv" ∧
      disk.read? "out//data1_generated.csv" = some t.narrow.csv ∧
      disk.read? "out//data2_generated.csv" = some t.wide.csv := by
  have hrows : 20 < 2 ^ 64 := by decide
  have hsmall : 20 ≤ 2 ^ 31 := by decide
  have hdirectory : Makeable "out/" := by decide +kernel
  have htext : "out/" ≠ "" := by decide
  obtain ⟨m, disk, hrun⟩ :=
    @exists_run ((Config.ofRows 20).withOutput "out/") rfl rfl hsmall hdirectory
  obtain ⟨t, k, -, ht, -, hloads⟩ := loads_what_is_written (c := Config.ofRows 20) hrows "out/"
  obtain ⟨-, hfirst, -⟩ := hloads 1 _ _ List.mem_cons_self
  obtain ⟨-, hfourth, -⟩ := hloads 4 _ _ (List.mem_cons_of_mem _ List.mem_cons_self)
  have hpaths : "out/" ++ "/" ++ Fixture.narrowFile = "out//data1_generated.csv" ∧
      "out/" ++ "/" ++ Fixture.wideFile = "out//data2_generated.csv" := by decide +kernel
  rw [← hpaths.1, ← hpaths.2]
  exact ⟨hrows, t, k, m, disk, ht, hrun, by decide +kernel, (hfirst htext).2 rfl _ _ _ hrun,
    (hfourth htext).2 rfl _ _ _ hrun⟩

/-- In the working directory itself the first script loads a file at the root.
The table is in another place, and there is no such file. -/
theorem not_loaded_empty : ((Config.ofRows 20).withOutput "").validate = .ok () ∧
    ∃ m disk script table, run ((Config.ofRows 20).withOutput "") Disk.empty = (.ok m, disk) ∧
      disk.read? (scriptPath "" 1) = some script ∧
      LoadsOnce "/data1_generated.csv" script ∧ Fixture.narrow 1000 47 = .ok table ∧
      disk.read? (joinPath "" Fixture.narrowFile) = some table.csv ∧
      route "/data1_generated.csv" ≠ route (joinPath "" Fixture.narrowFile) ∧
      disk.read? "/data1_generated.csv" = none := by
  have hsmall : 20 ≤ 2 ^ 31 := by decide
  have hdirectory : Makeable "" := by decide +kernel
  have hroute : route "/data1_generated.csv" ≠ route (joinPath "" Fixture.narrowFile) := by
    decide +kernel
  obtain ⟨m, disk, hrun⟩ :=
    @exists_run ((Config.ofRows 20).withOutput "") rfl rfl hsmall hdirectory
  obtain ⟨t, k, ht, -, hlisted⟩ := exists_listed hrun rfl
  obtain ⟨⟨script, hscript, hload⟩, hdata⟩ :=
    ht.loading 1 Fixture.narrowFile t.narrow List.mem_cons_self
  refine ⟨rfl, m, disk, script, t.narrow, hrun, ht.read_of_run rfl hscript hrun, hload, ht.narrow,
    ht.read_of_run rfl hdata hrun, hroute, ?_⟩
  refine Option.eq_none_iff_forall_ne_some.mpr fun content hread => ?_
  -- what is listed is below the working directory
  obtain ⟨name, hchild, -⟩ := (hlisted _ _).mp (Disk.read?_eq_some_iff.mp hread)
  have hroot : (locate "/data1_generated.csv").rooted = true := by decide +kernel
  have hbelow : (locate "").rooted = false := by decide +kernel
  exact Bool.noConfusion (hroot.symm.trans ((congrArg Location.rooted hchild).trans hbelow))

end Suite
end Columnar
