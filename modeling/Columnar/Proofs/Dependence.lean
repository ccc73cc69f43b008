/-
# What the files of a suite depend on

A suite is made from several parameters, and each of them governs some files
and leaves the others alone. The narrow table has a seed of its own, so
nothing that is made from it alone, nor the script that loads the wide table,
depends on the seed and the size of the wide one. The number of queries is
only in the second scenario; this one always has a result, so the records of
all scenarios are the same whatever that number is. The directories are in
the records and in the manifest, and a script names the data directory only
where it loads a file.

The suites that are compared are without a sweep and made on the empty disk,
where their files are known by name (`Tables.Made.look_file_iff`). Which
scenarios fail depends on the tables and the windows alone, so two suites with
the same tables have the same records but for the directory
(`records_of_made`).

Key definitions: `Record.inDirectory`, `LoadsFrom`, `Listed`.
Key theorems: `records_of_made`, `suiteFile_of_alike`, `exists_listed_both`,
`files_of_runs`.
-/
import Columnar.Proofs.Files

namespace Columnar
namespace Suite

/-! ### The tables -/

section

variable {c c' : Config} {k k' : Keystream} {t t' : Tables} (h : Tables.Made c k t)
  (h' : Tables.Made c' k' t')

include h h'

theorem narrow_eq_of_made (hrows : c'.narrowRows = c.narrowRows)
    (hseed : c'.narrowSeed = c.narrowSeed) : t'.narrow = t.narrow := by
  have hnarrow := h'.narrow
  rw [hrows, hseed, h.narrow] at hnarrow
  exact (Except.ok.inj hnarrow).symm

/-- The tables depend on the sizes and the seeds alone. -/
theorem eq_of_made (hrows : c'.narrowRows = c.narrowRows) (hseed : c'.narrowSeed = c.narrowSeed)
    (hwide : c'.wideRows = c.wideRows) (hwideSeed : c'.seed = c.seed) : t' = t ∧ k' = k := by
  have hdraw := h'.wide
  rw [hwide, hwideSeed, h.wide] at hdraw
  obtain ⟨hresult, rfl⟩ := Prod.mk.inj hdraw
  have hwideTable := Except.ok.inj hresult
  have hgrown := h'.insert
  rw [← hwideTable, h.insert] at hgrown
  refine ⟨?_, rfl⟩
  cases t
  cases t'
  simp only [Tables.mk.injEq]
  exact ⟨narrow_eq_of_made h h' hrows hseed, hwideTable.symm, (Except.ok.inj hgrown).symm⟩

end

/-! ### The records -/

/-- The record of a scenario in another directory. -/
def Record.inDirectory (directory : String) (r : Record) : Record :=
  { r with directory := directory }

theorem record_conduct (directory directory' : String) (catalog : Catalog) (s : Scenario) :
    (conduct directory' catalog s).record =
      (conduct directory catalog s).record.inDirectory directory' := by
  unfold conduct
  split <;> rfl

theorem record_plannedConduct (directory directory' : String) (catalog : Catalog) (p : Planned) :
    (p.conduct directory' catalog).record =
      (p.conduct directory catalog).record.inDirectory directory' := by
  unfold Planned.conduct
  split
  · exact record_conduct directory directory' catalog _
  · rfl

theorem records_narrowOutcomes {c : Config} {k : Keystream} {t : Tables} (h : Tables.Made c k t) :
    (narrowOutcomes c t).map Outcome.record =
      (narrowScenarios c).map fun s => ⟨s.heading, c.outputDirectory, s.windows, none⟩ := by
  rw [narrowOutcomes, List.map_map]
  refine List.map_congr_left fun s hs => ?_
  obtain ⟨⟨text, last⟩, hresult⟩ := h.evaluate_narrowScenarios s hs
  exact congrArg Outcome.record (conduct_of_ok _ hresult)

/-- Two suites with the same tables have the same records but for the
directory. -/
theorem records_of_made {c c' : Config} {k : Keystream} {t : Tables} (h : Tables.Made c k t)
    (h' : Tables.Made c' k t) (hrows : c'.wideRows = c.wideRows) :
    (outcomes c' t k).map Outcome.record =
      ((outcomes c t k).map Outcome.record).map (Record.inDirectory c'.outputDirectory) := by
  have hplanned : ((planned c'.wideRows k).map
      (Planned.conduct c'.outputDirectory t.inserted)).map Outcome.record =
        (((planned c.wideRows k).map
          (Planned.conduct c.outputDirectory t.inserted)).map Outcome.record).map
            (Record.inDirectory c'.outputDirectory) := by
    rw [hrows, List.map_map, List.map_map, List.map_map]
    exact List.map_congr_left fun p _ => record_plannedConduct _ _ _ p
  simp only [outcomes, wideOutcomes, List.map_append, List.map_cons, records_narrowOutcomes h,
    records_narrowOutcomes h', hplanned, conduct_of_ok _ h.evaluate_loadWide,
    conduct_of_ok _ h'.evaluate_loadWide]
  rfl

/-! ### The files -/

/-- What two suites with the same tables have in common: the data files, and
of the scenarios the scripts and outputs that are alike. -/
theorem suiteFile_of_alike {c c' : Config} {t : Tables} {m m' : Manifest} {directory : String}
    (hrecords : m'.records = m.records.map (Record.inDirectory directory)) {name content : String}
    (h : SuiteFile c t m name content) (hmanifest : name ≠ "manifest.json")
    (hscript : ∀ number windows s, name = stem number ++ ".dsl" →
      scenarioOf c number windows = some s →
      ∃ s', scenarioOf c' number windows = some s' ∧ s'.script = s.script)
    (hexpected : ∀ number windows s text last, name = stem number ++ ".exp" →
      scenarioOf c number windows = some s → s.evaluate (t.on number) = .ok (text, last) →
      ∃ s' last', scenarioOf c' number windows = some s' ∧
        s'.evaluate (t.on number) = .ok (text, last')) : SuiteFile c' t m' name content := by
  have hmem : ∀ r ∈ m.records, r.inDirectory directory ∈ m'.records := fun r hr =>
    hrecords ▸ List.mem_map_of_mem hr
  cases h with
  | narrow => exact .narrow
  | wide => exact .wide
  | manifest => exact absurd rfl hmanifest
  | @script r _ hr hfine hs =>
    obtain ⟨s', hs', hsame⟩ := hscript _ _ _ rfl hs
    rw [← hsame]
    exact @SuiteFile.script c' t m' (r.inDirectory directory) s' (hmem r hr) hfine hs'
  | @expected r _ _ _ hr hfine hs hresult =>
    obtain ⟨s', last', hs', hresult'⟩ := hexpected _ _ _ _ _ rfl hs hresult
    exact @SuiteFile.expected c' t m' (r.inDirectory directory) s' _ last' (hmem r hr) hfine hs'
      hresult'

theorem scenarioOf_withQueries (c : Config) (queries : Nat) {number : Nat} (h : number ≠ 2)
    (windows : List Window) :
    scenarioOf { c with queries := queries } number windows = scenarioOf c number windows := by
  unfold scenarioOf
  split <;> first | rfl | exact absurd rfl h

theorem suiteFile_of_queries {c c' : Config} {t : Tables} {m m' : Manifest} {directory : String}
    (hrecords : m'.records = m.records.map (Record.inDirectory directory))
    (hscenarios : ∀ number, number ≠ 2 → ∀ windows,
      scenarioOf c' number windows = scenarioOf c number windows) {name content : String}
    (hmanifest : name ≠ "manifest.json") (hsecond : name ∉ pairNames 2)
    (h : SuiteFile c t m name content) : SuiteFile c' t m' name content := by
  refine suiteFile_of_alike hrecords h hmanifest (fun number windows s hname hs => ?_)
    fun number windows s text last hname hs hresult => ?_
  · have hnumber : number ≠ 2 := fun e => hsecond (by rw [hname, e]; exact List.mem_cons_self)
    exact ⟨s, (hscenarios number hnumber windows).trans hs, rfl⟩
  · have hnumber : number ≠ 2 := fun e =>
      hsecond (by rw [hname, e]; exact List.mem_cons_of_mem _ List.mem_cons_self)
    exact ⟨s, last, (hscenarios number hnumber windows).trans hs, hresult⟩

theorem scenarioOf_withDirectories (c : Config) (output data : String) {number : Nat}
    (hloading : ¬ (number = 1 ∨ number = 4)) (windows : List Window) :
    scenarioOf { c with outputDirectory := output, dataDirectory := data } number windows =
      scenarioOf c number windows := by
  unfold scenarioOf
  split <;> first | rfl | exact absurd (.inl rfl) hloading | exact absurd (.inr rfl) hloading

theorem evaluate_of_loading {c : Config} {k : Keystream} {t : Tables} (h : Tables.Made c k t)
    {number : Nat} (hnumber : number = 1 ∨ number = 4) {windows : List Window} {s : Scenario}
    (hs : scenarioOf c number windows = some s) :
    windows = [] ∧ ∃ last, s.evaluate (t.on number) = .ok ("", last) := by
  have hfind := h.partOf_loaded _ _ h.find?_first
  rcases hnumber with rfl | rfl
  · cases windows with
    | nil =>
      obtain rfl := Option.some.inj hs
      exact ⟨rfl, _, Scenario.evaluate_loadNarrow hfind (.of_eq h.narrow_header) _⟩
    | cons w ws => cases hs
  · cases windows with
    | nil =>
      obtain rfl := Option.some.inj hs
      exact ⟨rfl, _, h.evaluate_loadWide⟩
    | cons w ws => cases hs

theorem suiteFile_of_directories {c c' : Config} {k : Keystream} {t : Tables}
    (ht : Tables.Made c k t) (ht' : Tables.Made c' k t) {m m' : Manifest} {directory : String}
    (hrecords : m'.records = m.records.map (Record.inDirectory directory))
    (hscenarios : ∀ number, ¬ (number = 1 ∨ number = 4) → ∀ windows,
      scenarioOf c' number windows = scenarioOf c number windows) {name content : String}
    (hname : name ∉ ["manifest.json", stem 1 ++ ".dsl", stem 4 ++ ".dsl"])
    (h : SuiteFile c t m name content) : SuiteFile c' t m' name content := by
  simp only [List.mem_cons, List.not_mem_nil, or_false, not_or] at hname
  obtain ⟨hmanifest, hfirst, hfourth⟩ := hname
  refine suiteFile_of_alike hrecords h hmanifest (fun number windows s hname hs => ?_)
    fun number windows s text last _ hs hresult => ?_
  · have hnumber : ¬ (number = 1 ∨ number = 4) := by
      rintro (rfl | rfl)
      · exact hfirst hname
      · exact hfourth hname
    exact ⟨s, (hscenarios number hnumber windows).trans hs, rfl⟩
  · by_cases hnumber : number = 1 ∨ number = 4
    · -- whichever directory is named, nothing is printed
      obtain ⟨rfl, last₁, hnothing⟩ := evaluate_of_loading ht hnumber hs
      obtain ⟨rfl, -⟩ := Prod.mk.inj (Except.ok.inj (hresult.symm.trans hnothing))
      obtain ⟨s', hs'⟩ : ∃ s', scenarioOf c' number [] = some s' := by
        rcases hnumber with rfl | rfl <;> exact ⟨_, rfl⟩
      obtain ⟨-, last', hnothing'⟩ := evaluate_of_loading ht' hnumber hs'
      exact ⟨s', last', hs', hnothing'⟩
    · exact ⟨s, last, (hscenarios number hnumber windows).trans hs, hresult⟩

/-! ### Loading -/

/-- Two scripts that are alike but for the line that loads `file`, each from
its own directory. -/
def LoadsFrom (file directory directory' content content' : String) : Prop :=
  ∃ before after : List Command,
    content = scriptText (before ++ .load (directory ++ "/" ++ file) :: after) ∧
    content' = scriptText (before ++ .load (directory' ++ "/" ++ file) :: after) ∧
    ∀ command ∈ before ++ after, ∀ path, command ≠ .load path

/-- The commands that create a table without the one that loads it. -/
def declaration (short : String) (columns : List String) : List Command :=
  .createTable short Fixture.database columns.length ::
    columns.map (.createColumn · (qualify Fixture.database short))

theorem creation_eq_declaration (short : String) (columns : List String) (file directory : String) :
    Scenario.creation short columns file directory =
      declaration short columns ++ [.load (directory ++ "/" ++ file)] := rfl

theorem loadsFrom_of_commands {file directory directory' : String} {s s' : Scenario}
    {before after : List Command}
    (hs : s.commands = before ++ .load (directory ++ "/" ++ file) :: after)
    (hs' : s'.commands = before ++ .load (directory' ++ "/" ++ file) :: after)
    (hother : ∀ path, .load path ∉ before ++ after) :
    LoadsFrom file directory directory' s.script s'.script :=
  ⟨before, after, congrArg scriptText hs, congrArg scriptText hs',
    fun _ hcommand path hload => hother path (hload ▸ hcommand)⟩

theorem loadsFrom_loadNarrow (directory directory' : String) :
    LoadsFrom Fixture.narrowFile directory directory' (Scenario.loadNarrow directory).script
      (Scenario.loadNarrow directory').script := by
  have hcommands : ∀ directory, (Scenario.loadNarrow directory).commands =
      ([.comment "Load+create Data and shut down of tbl1 which has 1 attribute only",
        .createDatabase Fixture.database] ++
        declaration Fixture.narrowShort Fixture.narrowColumns) ++
      .load (directory ++ "/" ++ Fixture.narrowFile) :: [.shutdown] := by
    intro directory
    simp only [Scenario.loadNarrow, creation_eq_declaration, List.append_assoc, List.cons_append,
      List.nil_append]
  refine loadsFrom_of_commands (hcommands directory) (hcommands directory') fun path => ?_
  simp [declaration]

theorem loadsFrom_loadWide (directory directory' : String) :
    LoadsFrom Fixture.wideFile directory directory' (Scenario.loadWide directory).script
      (Scenario.loadWide directory').script := by
  have hcommands : ∀ directory, (Scenario.loadWide directory).commands =
      ([.comment "Load Test Data 2", Scenario.line,
        .comment "Load+create+insert Data and shut down of tbl2 which has 4 attributes"] ++
        declaration Fixture.wideShort Fixture.wideColumns) ++
      .load (directory ++ "/" ++ Fixture.wideFile) ::
        (Fixture.insertedRows.map (.insert Fixture.wideName) ++ [.shutdown]) := by
    intro directory
    simp only [Scenario.loadWide, creation_eq_declaration, List.append_assoc, List.cons_append,
      List.nil_append]
  refine loadsFrom_of_commands (hcommands directory) (hcommands directory') fun path => ?_
  simp [declaration, Scenario.line]

/-! ### Two suites -/

/-- The files on a disk are those of a suite. -/
def Listed (c : Config) (t : Tables) (m : Manifest) (d : Disk) : Prop :=
  ∀ l content, d.look l = some (.file content) ↔
    ∃ name, l = (locate c.outputDirectory).child name ∧ SuiteFile c t m name content

theorem Listed.look_child_iff {c : Config} {t : Tables} {m : Manifest} {d : Disk}
    (h : Listed c t m d) (name content : String) :
    d.look ((locate c.outputDirectory).child name) = some (.file content) ↔
      SuiteFile c t m name content := by
  rw [h]
  constructor
  · rintro ⟨other, hchild, hfile⟩
    obtain ⟨-, rfl⟩ := Location.child_injective hchild
    exact hfile
  · exact fun hfile => ⟨name, rfl, hfile⟩

theorem exists_listed {c : Config} {m : Manifest} {d : Disk}
    (h : run c Disk.empty = (.ok m, d)) (hsweep : c.sweep = none) : ∃ t k, Tables.Made c k t ∧
      m.records = (outcomes c t k).map Outcome.record ∧ Listed c t m d := by
  obtain ⟨-, hperform, hm⟩ := exists_of_run_eq_ok h
  obtain ⟨t, k, ht⟩ := exists_made hm
  exact ⟨t, k, ht, ht.records_eq hsweep hm, ht.look_file_iff hsweep hm hperform⟩

/-- Two suites of the same sizes and seeds have the same tables, and each has
the records of the other in its own directory. -/
theorem exists_listed_both {c c' : Config} {m m' : Manifest} {d d' : Disk}
    (h : run c Disk.empty = (.ok m, d)) (h' : run c' Disk.empty = (.ok m', d'))
    (hsweep : c.sweep = none) (hsweep' : c'.sweep = none) (hrows : c'.narrowRows = c.narrowRows)
    (hseed : c'.narrowSeed = c.narrowSeed) (hwide : c'.wideRows = c.wideRows)
    (hwideSeed : c'.seed = c.seed) : ∃ t k, Tables.Made c k t ∧ Tables.Made c' k t ∧
      m'.records = m.records.map (Record.inDirectory c'.outputDirectory) ∧
      m.records = m'.records.map (Record.inDirectory c.outputDirectory) ∧
      Listed c t m d ∧ Listed c' t m' d' := by
  obtain ⟨t, k, ht, hrecords, hlisted⟩ := exists_listed h hsweep
  obtain ⟨t', k', ht', hrecords', hlisted'⟩ := exists_listed h' hsweep'
  obtain ⟨rfl, rfl⟩ := eq_of_made ht ht' hrows hseed hwide hwideSeed
  refine ⟨t', k', ht, ht', ?_, ?_, hlisted, hlisted'⟩
  · rw [hrecords, hrecords', records_of_made ht ht' hwide]
  · rw [hrecords, hrecords', records_of_made ht' ht hwide.symm]

section

variable {c : Config} {m m' : Manifest} {d d' : Disk} (hsweep : c.sweep = none)
  (h : run c Disk.empty = (.ok m, d))

include hsweep h

/-- The narrow table, the scenarios on it and the one that loads the wide
table do not depend on the seed and the size of the wide one. -/
theorem look_of_seed {seed : UInt64} {rows : Nat}
    (h' : run { c with seed := seed, wideRows := rows } Disk.empty = (.ok m', d')) :
    ∀ name ∈ Fixture.narrowFile :: [1, 2, 3, 4].flatMap pairNames, ∃ content,
      d.look ((locate c.outputDirectory).child name) = some (.file content) ∧
        d'.look ((locate c.outputDirectory).child name) = some (.file content) := by
  obtain ⟨t, k, ht, hrecords, hlisted⟩ := exists_listed h hsweep
  obtain ⟨t', k', ht', hrecords', hlisted'⟩ := exists_listed h' hsweep
  have hnarrow : t'.narrow = t.narrow := narrow_eq_of_made ht ht' rfl rfl
  have hfirst : t'.first = t.first := congrArg Catalog.empty.register hnarrow
  have hshared : ∀ {name content}, SuiteFile c t m name content →
      SuiteFile { c with seed := seed, wideRows := rows } t' m' name content → ∃ content,
        d.look ((locate c.outputDirectory).child name) = some (.file content) ∧
          d'.look ((locate c.outputDirectory).child name) = some (.file content) :=
    fun hfile hfile' =>
      ⟨_, (hlisted.look_child_iff _ _).mpr hfile, (hlisted'.look_child_iff _ _).mpr hfile'⟩
  -- the scenarios are the same, and those on the narrow table are evaluated on it alone
  have hpairs : ∀ s ∈ narrowScenarios c, ∀ name ∈ pairNames s.heading.number, ∃ content,
      d.look ((locate c.outputDirectory).child name) = some (.file content) ∧
        d'.look ((locate c.outputDirectory).child name) = some (.file content) := by
    intro s hs name hname
    obtain ⟨⟨text, last⟩, hresult⟩ := ht.evaluate_narrowScenarios s hs
    obtain ⟨hscript, hexpected⟩ := suiteFile_of_narrowScenarios ht hrecords hs hresult
    obtain ⟨hscript', hexpected'⟩ :=
      suiteFile_of_narrowScenarios ht' hrecords' hs (hfirst ▸ hresult)
    simp only [pairNames, List.mem_cons, List.not_mem_nil, or_false] at hname
    rcases hname with rfl | rfl
    · exact hshared hscript hscript'
    · exact hshared hexpected hexpected'
  obtain ⟨hscript, hexpected⟩ := suiteFile_of_loadWide ht hrecords
  obtain ⟨hscript', hexpected'⟩ := suiteFile_of_loadWide ht' hrecords'
  intro name hname
  rcases List.mem_cons.mp hname with rfl | hname
  · exact hshared .narrow (hnarrow ▸ .narrow)
  obtain ⟨number, hnumber, hname⟩ := List.mem_flatMap.mp hname
  simp only [List.mem_cons, List.not_mem_nil, or_false] at hnumber
  rcases hnumber with rfl | rfl | rfl | rfl
  · exact hpairs (Scenario.loadNarrow c.dataDirectory) (by simp [narrowScenarios]) name hname
  · exact hpairs (Scenario.selectFetch c.queries false) (by simp [narrowScenarios]) name hname
  · exact hpairs Scenario.averageWindow (by simp [narrowScenarios]) name hname
  · simp only [pairNames, List.mem_cons, List.not_mem_nil, or_false] at hname
    rcases hname with rfl | rfl
    · exact hshared hscript hscript'
    · exact hshared hexpected hexpected'

/-- The number of queries is in the files of the second scenario and in the manifest. -/
theorem look_of_queries {queries : Nat}
    (h' : run { c with queries := queries } Disk.empty = (.ok m', d')) {l : Location}
    (hl : ∀ name ∈ "manifest.json" :: pairNames 2, l ≠ (locate c.outputDirectory).child name)
    (content : String) : d'.look l = some (.file content) ↔ d.look l = some (.file content) := by
  obtain ⟨t, k, -, -, hrecords, hrecords', hlisted, hlisted'⟩ :=
    exists_listed_both h h' hsweep hsweep rfl rfl rfl rfl
  have hscenarios : ∀ number, number ≠ 2 → ∀ windows,
      scenarioOf { c with queries := queries } number windows = scenarioOf c number windows :=
    fun number hnumber => scenarioOf_withQueries c queries hnumber
  rw [hlisted, hlisted']
  refine exists_congr fun name => and_congr_right fun hchild => ?_
  have hmanifest : name ≠ "manifest.json" := fun e => hl name (e ▸ List.mem_cons_self) hchild
  have hsecond : name ∉ pairNames 2 := fun hname => hl name (List.mem_cons_of_mem _ hname) hchild
  exact ⟨suiteFile_of_queries hrecords' (fun number hnumber windows =>
      (hscenarios number hnumber windows).symm) hmanifest hsecond,
    suiteFile_of_queries hrecords hscenarios hmanifest hsecond⟩

/-- The directories are in the scripts that load a table and in the manifest. -/
theorem look_of_directories {output data : String}
    (h' : run { c with outputDirectory := output, dataDirectory := data } Disk.empty =
      (.ok m', d')) {name : String}
    (hname : name ∉ ["manifest.json", stem 1 ++ ".dsl", stem 4 ++ ".dsl"]) (content : String) :
    d'.look ((locate output).child name) = some (.file content) ↔
      d.look ((locate c.outputDirectory).child name) = some (.file content) := by
  obtain ⟨t, k, ht, ht', hrecords, hrecords', hlisted, hlisted'⟩ :=
    exists_listed_both h h' hsweep hsweep rfl rfl rfl rfl
  have hscenarios : ∀ number, ¬ (number = 1 ∨ number = 4) → ∀ windows,
      scenarioOf { c with outputDirectory := output, dataDirectory := data } number windows =
        scenarioOf c number windows :=
    fun number hnumber => scenarioOf_withDirectories c output data hnumber
  rw [hlisted.look_child_iff, hlisted'.look_child_iff]
  exact ⟨suiteFile_of_directories ht' ht hrecords' (fun number hnumber windows =>
      (hscenarios number hnumber windows).symm) hname,
    suiteFile_of_directories ht ht' hrecords hscenarios hname⟩

/-- The scripts that load a table differ in the line that loads it. -/
theorem look_of_loading {output data : String}
    (h' : run { c with outputDirectory := output, dataDirectory := data } Disk.empty =
      (.ok m', d')) : ∀ number file, (number, file) ∈
        [(1, Fixture.narrowFile), (4, Fixture.wideFile)] → ∃ content content',
      d.look ((locate c.outputDirectory).child (stem number ++ ".dsl")) = some (.file content) ∧
        d'.look ((locate output).child (stem number ++ ".dsl")) = some (.file content') ∧
        LoadsFrom file c.dataDirectory data content content' := by
  obtain ⟨t, k, ht, hrecords, hlisted⟩ := exists_listed h hsweep
  obtain ⟨t', k', ht', hrecords', hlisted'⟩ := exists_listed h' hsweep
  obtain ⟨⟨text, last⟩, hresult⟩ := ht.evaluate_narrowScenarios _ List.mem_cons_self
  obtain ⟨⟨text', last'⟩, hresult'⟩ := ht'.evaluate_narrowScenarios _ List.mem_cons_self
  have hnarrow := (suiteFile_of_narrowScenarios ht hrecords List.mem_cons_self hresult).1
  have hnarrow' := (suiteFile_of_narrowScenarios ht' hrecords' List.mem_cons_self hresult').1
  have hwide := (suiteFile_of_loadWide ht hrecords).1
  have hwide' := (suiteFile_of_loadWide ht' hrecords').1
  intro number file hmem
  simp only [List.mem_cons, Prod.mk.injEq, List.not_mem_nil, or_false] at hmem
  rcases hmem with ⟨rfl, rfl⟩ | ⟨rfl, rfl⟩
  · exact ⟨_, _, (hlisted.look_child_iff _ _).mpr hnarrow,
      (hlisted'.look_child_iff _ _).mpr hnarrow', loadsFrom_loadNarrow _ _⟩
  · exact ⟨_, _, (hlisted.look_child_iff _ _).mpr hwide,
      (hlisted'.look_child_iff _ _).mpr hwide', loadsFrom_loadWide _ _⟩

end

/-- All files of a suite are in its directory under their names. -/
theorem exists_fileName {c : Config} {m : Manifest} {d : Disk}
    (h : run c Disk.empty = (.ok m, d)) (hsweep : c.sweep = none) {l : Location} {content : String}
    (hl : d.look l = some (.file content)) :
    ∃ name ∈ fileNames, l = (locate c.outputDirectory).child name := by
  obtain ⟨t, k, -, hrecords, hlisted⟩ := exists_listed h hsweep
  obtain ⟨name, hchild, hfile⟩ := (hlisted l content).mp hl
  have hnumbers := hrecords ▸ numbers_records c t k
  exact ⟨name, mem_fileNames_of_suiteFile hnumbers hfile, hchild⟩

/-- **What the files of a suite depend on.** Of two suites without a sweep on
the empty disk, if only the seed and the size of the wide table differ, the
narrow table and the files of the first four scenarios are the same; if only
the number of queries differs, all files are but those of the second scenario
and the manifest; and if only the directories differ, all files are by name
but the manifest and, in the scripts that load a table, the line that does. -/
theorem files_of_runs {c : Config} {m : Manifest} {d : Disk} (hsweep : c.sweep = none)
    (h : run c Disk.empty = (.ok m, d)) :
    (∀ seed rows m' d',
      run { c with seed := seed, wideRows := rows } Disk.empty = (.ok m', d') →
      ∀ name ∈ Fixture.narrowFile :: [1, 2, 3, 4].flatMap pairNames, ∃ content,
        d.look ((locate c.outputDirectory).child name) = some (.file content) ∧
          d'.look ((locate c.outputDirectory).child name) = some (.file content)) ∧
    (∀ queries m' d', run { c with queries := queries } Disk.empty = (.ok m', d') →
      ∀ l, (∀ name ∈ "manifest.json" :: pairNames 2, l ≠ (locate c.outputDirectory).child name) →
      ∀ content, d'.look l = some (.file content) ↔ d.look l = some (.file content)) ∧
    ∀ output data m' d',
      run { c with outputDirectory := output, dataDirectory := data } Disk.empty = (.ok m', d') →
      (∀ l content, d.look l = some (.file content) →
        ∃ name ∈ fileNames, l = (locate c.outputDirectory).child name) ∧
      (∀ l content, d'.look l = some (.file content) →
        ∃ name ∈ fileNames, l = (locate output).child name) ∧
      (∀ name, name ∉ ["manifest.json", stem 1 ++ ".dsl", stem 4 ++ ".dsl"] → ∀ content,
        d'.look ((locate output).child name) = some (.file content) ↔
          d.look ((locate c.outputDirectory).child name) = some (.file content)) ∧
      ∀ number file, (number, file) ∈ [(1, Fixture.narrowFile), (4, Fixture.wideFile)] →
        ∃ content content',
          d.look ((locate c.outputDirectory).child (stem number ++ ".dsl")) =
              some (.file content) ∧
            d'.look ((locate output).child (stem number ++ ".dsl")) = some (.file content') ∧
            LoadsFrom file c.dataDirectory data content content' := by
  refine ⟨fun seed rows m' d' h' => look_of_seed hsweep h h',
    fun queries m' d' h' l hl => look_of_queries hsweep h h' hl, fun output data m' d' h' => ?_⟩
  exact ⟨fun l content => exists_fileName h hsweep, fun l content => exists_fileName h' hsweep,
    fun name => look_of_directories hsweep h h', look_of_loading hsweep h h'⟩

/-- The suite with twenty rows beside three others: with another wide table,
with more queries and in another directory. -/
theorem files_of_runs_twenty : ∃ m d,
    run ((Config.ofRows 20).withOutput "out") Disk.empty = (.ok m, d) ∧
    (∃ m' d', run { (Config.ofRows 3).withOutput "out" with seed := 1 } Disk.empty =
        (.ok m', d') ∧
      ∀ name ∈ Fixture.narrowFile :: [1, 2, 3, 4].flatMap pairNames, ∃ content,
        d.look ((locate "out").child name) = some (.file content) ∧
          d'.look ((locate "out").child name) = some (.file content)) ∧
    (∃ m' d', run { (Config.ofRows 20).withOutput "out" with queries := 5 } Disk.empty =
        (.ok m', d') ∧
      ∀ l, (∀ name ∈ "manifest.json" :: pairNames 2, l ≠ (locate "out").child name) →
      ∀ content, d'.look l = some (.file content) ↔ d.look l = some (.file content)) ∧
    ∃ m' d', run ((Config.ofRows 20).withOutput "other") Disk.empty = (.ok m', d') ∧
      (∀ name, name ∉ ["manifest.json", stem 1 ++ ".dsl", stem 4 ++ ".dsl"] → ∀ content,
        d'.look ((locate "other").child name) = some (.file content) ↔
          d.look ((locate "out").child name) = some (.file content)) ∧
      ∀ number file, (number, file) ∈ [(1, Fixture.narrowFile), (4, Fixture.wideFile)] →
        ∃ content content',
          d.look ((locate "out").child (stem number ++ ".dsl")) = some (.file content) ∧
            d'.look ((locate "other").child (stem number ++ ".dsl")) = some (.file content') ∧
            LoadsFrom file "out" "other" content content' := by
  have hrows : 20 ≤ 2 ^ 31 ∧ 3 ≤ 2 ^ 31 := by decide
  have hout : Makeable "out" := by decide +kernel
  have hother : Makeable "other" := by decide +kernel
  obtain ⟨m, d, h⟩ := exists_run_twenty
  obtain ⟨m₁, d₁, h₁⟩ := @exists_run { (Config.ofRows 3).withOutput "out" with seed := 1 } rfl rfl
    hrows.2 hout
  obtain ⟨m₂, d₂, h₂⟩ := @exists_run { (Config.ofRows 20).withOutput "out" with queries := 5 } rfl
    rfl hrows.1 hout
  obtain ⟨m₃, d₃, h₃⟩ := @exists_run ((Config.ofRows 20).withOutput "other") rfl rfl hrows.1 hother
  obtain ⟨hseed, hqueries, hdirectories⟩ := files_of_runs rfl h
  obtain ⟨-, -, hfiles, hscripts⟩ := hdirectories "other" "other" m₃ d₃ h₃
  exact ⟨m, d, h, ⟨m₁, d₁, h₁, hseed 1 3 m₁ d₁ h₁⟩, ⟨m₂, d₂, h₂, hqueries 5 m₂ d₂ h₂⟩,
    m₃, d₃, h₃, hfiles, hscripts⟩

end Suite
end Columnar
