/-
# What is in the directory of a suite

A suite without a sweep that is made on the empty disk puts all its files into
its directory: the two data files, the manifest and, for exactly the scenarios
that are recorded without a fault, the script and the output to expect
(`stored_of_run`). The script is that of the scenario with the recorded number
and windows. The output is what this scenario prints on the tables of the data
files, where from the fifth scenario on the wide table has the inserted rows
after its last one; no other scenario has a part in that.

The directories on the disk are those that the path of the suite passes
(`Tables.Made.look_directory_iff`). A path that steps back with `..` leaves the
one that it steps out of beside the files (`directory_left_beside`), and if that
has the name of one of the files the suite is refused
(`Tables.Made.run_eq_refused`).

The first three scenarios are evaluated before the wide table is made. They
do not name it, so they print the same with it (`Scenario.evaluate_of_partOf`).

Such a suite is always made if its directory can be made, none of its files has a
directory in its place and its paths are not too long (`exists_run`).

Key definitions: `scenarioOf`, `Tables.on`, `SuiteFile`, `Makeable`, `Stored`.
Key theorems: `Tables.Made.followed`, `exists_writes`, `into_mainWrites`,
`exists_run`, `Tables.Made.look_file_iff`, `Tables.Made.look_directory_iff`,
`Tables.Made.run_eq_refused`, `stored_of_run`, `directory_left_beside`.
-/
import Columnar.Proofs.Frame
import Columnar.Proofs.Making
import Columnar.Proofs.Storage

namespace Columnar

/-- The row that a command inserts. -/
def Command.inserted? : Command → Option (List Value)
  | .insert _ row => some row
  | _ => none

namespace Suite

/-! ### Scenarios by their records -/

/-- The scenario with a number, made from its windows. -/
def scenarioOf (c : Config) : Nat → List Window → Option Scenario
  | 1, [] => some (Scenario.loadNarrow c.dataDirectory)
  | 2, [] => some (Scenario.selectFetch c.queries false)
  | 3, [] => some Scenario.averageWindow
  | 4, [] => some (Scenario.loadWide c.dataDirectory)
  | 5, [w] => some (Scenario.summation w)
  | 6, [w] => some (Scenario.addition w)
  | 7, [w] => some (Scenario.subtraction w)
  | 8, [w] => some (Scenario.leastGreatest w)
  | 9, [first, second] => some (Scenario.conjunction first second)
  | _, _ => none

/-- The tables that belong to a scenario: those of the data files, and from
the fifth scenario on the wide one with the inserted rows. -/
def Tables.on (t : Tables) (number : Nat) : Catalog :=
  if 5 ≤ number then t.inserted else t.loaded

/-- An outcome that follows from its record: a scenario that is recorded
without a fault is the one with its number and windows, and its files are its
script and what it prints on the tables that belong to it; any other has no files. -/
inductive Followed (c : Config) (t : Tables) : Outcome → Prop
  | made {s : Scenario} {text : String} {last : Catalog} {after : Option Catalog}
      (scenario : scenarioOf c s.heading.number s.windows = some s)
      (result : s.evaluate (t.on s.heading.number) = .ok (text, last)) :
      Followed c t ⟨⟨s.heading, c.outputDirectory, s.windows, none⟩,
        pair c.outputDirectory s text, after⟩
  | left {r : Record} {fault : Fault} {after : Option Catalog} (fault : r.fault = some fault) :
      Followed c t ⟨r, [], after⟩

section

variable {c : Config} {t : Tables}

/-- It is enough that the scenario prints the same on the tables that belong to it. -/
theorem followed_conduct {s : Scenario} {catalog : Catalog}
    (hs : scenarioOf c s.heading.number s.windows = some s)
    (hsame : ∀ text last, s.evaluate catalog = .ok (text, last) →
      ∃ last', s.evaluate (t.on s.heading.number) = .ok (text, last')) :
    Followed c t (conduct c.outputDirectory catalog s) := by
  cases hresult : s.evaluate catalog with
  | ok result =>
    obtain ⟨text, last⟩ := result
    obtain ⟨last', hresult'⟩ := hsame text last hresult
    rw [conduct_of_ok _ hresult]
    exact .made hs hresult'
  | error fault =>
    rw [conduct_of_error _ hresult]
    exact .left rfl

theorem scenarioOf_of_fromWindows {heading : Heading} {s : Scenario} (h : FromWindows heading s) :
    5 ≤ s.heading.number ∧ scenarioOf c s.heading.number s.windows = some s := by
  cases h <;> exact ⟨Nat.le_of_ble_eq_true rfl, rfl⟩

theorem scenarioOf_of_mem_narrowScenarios : ∀ s ∈ narrowScenarios c,
    s.heading.number < 5 ∧ scenarioOf c s.heading.number s.windows = some s := by
  intro s hs
  simp only [narrowScenarios, List.mem_cons, List.not_mem_nil, or_false] at hs
  rcases hs with rfl | rfl | rfl <;> exact ⟨Nat.le_of_ble_eq_true rfl, rfl⟩

theorem Tables.Made.partOf_loaded {k : Keystream} (h : Made c k t) : t.first.PartOf t.loaded := by
  apply Catalog.partOf_register
  rw [h.wide_name]
  exact h.find?_first_wide

/-- Every outcome of a suite follows from its record. -/
theorem Tables.Made.followed {k : Keystream} (h : Made c k t) :
    ∀ o ∈ outcomes c t k, Followed c t o := by
  intro o ho
  rcases List.mem_append.mp ho with ho | ho
  · -- evaluated before the wide table is there
    obtain ⟨s, hs, rfl⟩ := List.mem_map.mp ho
    obtain ⟨hnumber, hmade⟩ := scenarioOf_of_mem_narrowScenarios s hs
    apply followed_conduct hmade
    intro text last hresult
    obtain ⟨last', hresult', -⟩ := Scenario.evaluate_of_partOf h.partOf_loaded hresult
    rw [Tables.on, if_neg (Nat.not_le_of_lt hnumber)]
    exact ⟨last', hresult'⟩
  rcases List.mem_cons.mp ho with rfl | ho
  · exact followed_conduct rfl fun text last hresult => ⟨last, hresult⟩
  · -- evaluated after the inserts
    obtain ⟨p, hp, rfl⟩ := List.mem_map.mp ho
    unfold Planned.conduct
    split
    · rename_i s hs
      obtain ⟨hnumber, hmade⟩ := scenarioOf_of_fromWindows (fromWindows_of_planned p hp s hs)
      apply followed_conduct hmade
      intro text last hresult
      rw [Tables.on, if_pos hnumber]
      exact ⟨last, hresult⟩
    · exact .left rfl

theorem followed_outcomes {k : Keystream} (h : Tables.Of c k t) :
    ∀ o ∈ outcomes c t k, Followed c t o :=
  h.made.followed

end

/-! ### The files -/

/-- The files of a suite by name: the data files, the manifest and, for the
records without a fault, the script and the output to expect. -/
inductive SuiteFile (c : Config) (t : Tables) (m : Manifest) : String → String → Prop
  | narrow : SuiteFile c t m Fixture.narrowFile t.narrow.csv
  | wide : SuiteFile c t m Fixture.wideFile t.wide.csv
  | manifest : SuiteFile c t m "manifest.json" m.text
  | script {r : Record} {s : Scenario} (record : r ∈ m.records) (fine : r.fault = none)
      (scenario : scenarioOf c r.heading.number r.windows = some s) :
      SuiteFile c t m (stem r.heading.number ++ ".dsl") s.script
  | expected {r : Record} {s : Scenario} {text : String} {last : Catalog}
      (record : r ∈ m.records) (fine : r.fault = none)
      (scenario : scenarioOf c r.heading.number r.windows = some s)
      (result : s.evaluate (t.on r.heading.number) = .ok (text, last)) :
      SuiteFile c t m (stem r.heading.number ++ ".exp") text

theorem mem_actions_iff {c : Config} {t : Tables} {o : Outcome} (h : Followed c t o) {a : Action} :
    a ∈ o.actions ↔ o.record.fault = none ∧ ∃ s,
      scenarioOf c o.record.heading.number o.record.windows = some s ∧
      (a = .write (scriptPath c.outputDirectory o.record.heading.number) s.script ∨
        ∃ text last, s.evaluate (t.on o.record.heading.number) = .ok (text, last) ∧
          a = .write (expectedPath c.outputDirectory o.record.heading.number) text) := by
  cases h with
  | made hs hresult => simp [pair, hs, hresult]
  | left hfault => simp [hfault]

theorem mem_mainWrites {c : Config} {k : Keystream} {t : Tables} {a : Action} :
    a ∈ mainWrites c t k ↔ a = dataFile c.outputDirectory Fixture.narrowFile t.narrow ∨
      a = dataFile c.outputDirectory Fixture.wideFile t.wide ∨
      ∃ o ∈ outcomes c t k, a ∈ o.actions := by
  simp only [mainWrites, outcomes, List.mem_cons, List.mem_append, List.mem_flatMap, or_and_right,
    exists_or]
  exact or_congr_right or_left_comm

/-- **What is written without a sweep.** It is the files of the suite. -/
theorem exists_writes {c : Config} {k : Keystream} {t : Tables} (h : Tables.Made c k t)
    (hsweep : c.sweep = none) {m : Manifest} (hm : (generate c).result = .ok m) :
    ∃ writes, (generate c).actions = .makeDirectory c.outputDirectory :: writes ∧
      ∀ a, a ∈ writes ↔ ∃ name content, SuiteFile c t m name content ∧
        a = .write (joinPath c.outputDirectory name) content := by
  rw [generate_eq h hsweep] at hm ⊢
  obtain rfl := Except.ok.inj hm
  refine ⟨_, rfl, fun a => ?_⟩
  rw [List.mem_append, mem_mainWrites, List.mem_singleton]
  constructor
  · rintro ((rfl | rfl | ⟨o, ho, ha⟩) | rfl)
    · exact ⟨_, _, .narrow, rfl⟩
    · exact ⟨_, _, .wide, rfl⟩
    · obtain ⟨hfine, s, hs, ha⟩ := (mem_actions_iff (h.followed o ho)).mp ha
      rcases ha with rfl | ⟨text, last, hresult, rfl⟩
      · exact ⟨_, _, .script (List.mem_map_of_mem ho) hfine hs, rfl⟩
      · exact ⟨_, _, .expected (List.mem_map_of_mem ho) hfine hs hresult, rfl⟩
    · exact ⟨_, _, .manifest, rfl⟩
  · rintro ⟨name, content, hfile, rfl⟩
    cases hfile with
    | narrow => exact .inl (.inl rfl)
    | wide => exact .inl (.inr (.inl rfl))
    | manifest => exact .inr rfl
    | script hr hfine hs =>
      obtain ⟨o, ho, rfl⟩ := List.mem_map.mp hr
      have ha := (mem_actions_iff (h.followed o ho)).mpr ⟨hfine, _, hs, .inl rfl⟩
      exact .inl (.inr (.inr ⟨o, ho, ha⟩))
    | expected hr hfine hs hresult =>
      obtain ⟨o, ho, rfl⟩ := List.mem_map.mp hr
      have ha := (mem_actions_iff (h.followed o ho)).mpr
        ⟨hfine, _, hs, .inr ⟨_, _, hresult, rfl⟩⟩
      exact .inl (.inr (.inr ⟨o, ho, ha⟩))

section

variable {c : Config} {k : Keystream} {t : Tables} {m : Manifest} (h : Tables.Made c k t)
  (hrecords : m.records = (outcomes c t k).map Outcome.record)

include h hrecords

/-- The scenarios on the narrow table always have their files. -/
theorem suiteFile_of_narrowScenarios {s : Scenario} (hs : s ∈ narrowScenarios c) {text : String}
    {last : Catalog} (hresult : s.evaluate t.first = .ok (text, last)) :
    SuiteFile c t m (stem s.heading.number ++ ".dsl") s.script ∧
      SuiteFile c t m (stem s.heading.number ++ ".exp") text := by
  obtain ⟨hnumber, hmade⟩ := scenarioOf_of_mem_narrowScenarios s hs
  obtain ⟨last', hresult', -⟩ := Scenario.evaluate_of_partOf h.partOf_loaded hresult
  have hmem : conduct c.outputDirectory t.first s ∈ outcomes c t k :=
    List.mem_append_left _ (List.mem_map_of_mem hs)
  obtain ⟨r, hr, hheading, hwindows, hfine⟩ : ∃ r ∈ m.records,
      r.heading = s.heading ∧ r.windows = s.windows ∧ r.fault = none := by
    rw [hrecords]
    refine ⟨_, List.mem_map_of_mem hmem, ?_⟩
    rw [conduct_of_ok _ hresult]
    exact ⟨rfl, rfl, rfl⟩
  have hon : t.on s.heading.number = t.loaded := if_neg (Nat.not_le_of_lt hnumber)
  rw [← hon] at hresult'
  rw [← hheading] at hmade hresult' ⊢
  rw [← hwindows] at hmade
  exact ⟨.script hr hfine hmade, .expected hr hfine hmade hresult'⟩

/-- The scenario that inserts always has its files, and prints nothing. -/
theorem suiteFile_of_loadWide :
    SuiteFile c t m (stem 4 ++ ".dsl") (Scenario.loadWide c.dataDirectory).script ∧
      SuiteFile c t m (stem 4 ++ ".exp") "" := by
  have hmem : conduct c.outputDirectory t.loaded (Scenario.loadWide c.dataDirectory) ∈
      outcomes c t k := List.mem_append_right _ List.mem_cons_self
  obtain ⟨r, hr, hnumber, hwindows, hfine⟩ : ∃ r ∈ m.records,
      r.heading.number = 4 ∧ r.windows = [] ∧ r.fault = none := by
    rw [hrecords]
    refine ⟨_, List.mem_map_of_mem hmem, ?_⟩
    rw [conduct_of_ok _ h.evaluate_loadWide]
    exact ⟨rfl, rfl, rfl⟩
  have hmade : scenarioOf c r.heading.number r.windows =
      some (Scenario.loadWide c.dataDirectory) := by
    rw [hnumber, hwindows]
    rfl
  have hresult : (Scenario.loadWide c.dataDirectory).evaluate (t.on r.heading.number) =
      .ok ("", t.inserted) := by
    rw [hnumber]
    exact h.evaluate_loadWide
  rw [← hnumber]
  exact ⟨.script hr hfine hmade, .expected hr hfine hmade hresult⟩

end

/-! ### The names of the files -/

/-- The names of a scenario's two files. -/
def pairNames (number : Nat) : List String := [stem number ++ ".dsl", stem number ++ ".exp"]

example : pairNames 5 = ["test05gen.dsl", "test05gen.exp"] := by decide +kernel

/-- The names that files of a suite can have, in the order in which they are written. -/
def fileNames : List String :=
  Fixture.narrowFile :: ([1, 2, 3].flatMap pairNames ++
    Fixture.wideFile :: ([4, 5, 6, 7, 8, 9].flatMap pairNames ++ ["manifest.json"]))

theorem nodup_fileNames : fileNames.Nodup := by decide +kernel

theorem isName_of_mem_fileNames : ∀ name ∈ fileNames,
    Disk.isName name = true ∧ '/' ∉ name.toList ∧ Fits name ∧ name.utf8ByteSize ≤ 19 ∧
      '\x00' ∉ name.toList := by decide +kernel

theorem mem_fileNames_of_suiteFile {c : Config} {t : Tables} {m : Manifest} {name content : String}
    (hnumbers : m.records.map (·.heading.number) = [1, 2, 3, 4, 5, 6, 7, 8, 9])
    (h : SuiteFile c t m name content) : name ∈ fileNames := by
  have hpair : ∀ r ∈ m.records, ∀ name ∈ pairNames r.heading.number, name ∈ fileNames := by
    intro r hr name hname
    have hnumber : r.heading.number ∈ [1, 2, 3, 4, 5, 6, 7, 8, 9] :=
      hnumbers ▸ List.mem_map_of_mem hr
    have hall : ∀ number ∈ [1, 2, 3, 4, 5, 6, 7, 8, 9], ∀ name ∈ pairNames number,
        name ∈ fileNames := by decide +kernel
    exact hall _ hnumber name hname
  cases h with
  | narrow => decide +kernel
  | wide => decide +kernel
  | manifest => decide +kernel
  | script hr _ _ => exact hpair _ hr _ List.mem_cons_self
  | expected hr _ _ _ => exact hpair _ hr _ (List.mem_cons_of_mem _ List.mem_cons_self)

/-- The names of all files but the manifest, which is the last. -/
def mainNames : List String :=
  Fixture.narrowFile :: ([1, 2, 3].flatMap pairNames ++
    Fixture.wideFile :: [4, 5, 6, 7, 8, 9].flatMap pairNames)

theorem fileNames_eq : fileNames = mainNames ++ ["manifest.json"] := by
  simp only [fileNames, mainNames, List.cons_append, List.append_assoc]

theorem areNames_fileNames : Disk.AreNames fileNames := fun name hname =>
  ⟨(isName_of_mem_fileNames name hname).1, (isName_of_mem_fileNames name hname).2.1⟩

theorem mem_fileNames_of_mainNames {name : String} (h : name ∈ mainNames) : name ∈ fileNames :=
  fileNames_eq ▸ List.mem_append_left _ h

theorem into_of_filed {directory : String} {o : Outcome} (h : o.Filed directory) :
    ∀ a ∈ o.actions, a.Into directory (pairNames o.record.heading.number) := by
  intro a ha
  cases h with
  | pair s text =>
    simp only [pair, List.mem_cons, List.not_mem_nil, or_false] at ha
    rcases ha with rfl | rfl
    · exact .write _ List.mem_cons_self
    · exact .write _ (List.mem_cons_of_mem _ List.mem_cons_self)
  | none => cases ha

theorem into_of_filed_all {directory : String} {os : List Outcome}
    (h : ∀ o ∈ os, o.Filed directory) : ∀ a ∈ os.flatMap Outcome.actions,
      a.Into directory ((os.map (·.record.heading.number)).flatMap pairNames) := by
  intro a ha
  obtain ⟨o, ho, ha⟩ := List.mem_flatMap.mp ha
  exact (into_of_filed (h o ho) a ha).mono fun name hname =>
    List.mem_flatMap.mpr ⟨_, List.mem_map_of_mem ho, hname⟩

/-- The main part keeps to the directory of the suite and does not write the manifest. -/
theorem into_mainWrites (c : Config) (t : Tables) (k : Keystream) :
    ∀ a ∈ mainWrites c t k, a.Into c.outputDirectory mainNames := by
  have hnarrow := into_of_filed_all (filed_narrowOutcomes c t)
  have hwide := into_of_filed_all (filed_wideOutcomes c t k)
  rw [numbers_narrowOutcomes] at hnarrow
  rw [numbers_wideOutcomes] at hwide
  have hsub : (∀ name ∈ [1, 2, 3].flatMap pairNames, name ∈ mainNames) ∧
      (∀ name ∈ [4, 5, 6, 7, 8, 9].flatMap pairNames, name ∈ mainNames) ∧
      Fixture.narrowFile ∈ mainNames ∧ Fixture.wideFile ∈ mainNames := by decide +kernel
  intro a ha
  simp only [mainWrites, List.mem_cons, List.mem_append] at ha
  rcases ha with rfl | ha | rfl | ha
  · exact .write _ hsub.2.2.1
  · exact (hnarrow a ha).mono hsub.1
  · exact .write _ hsub.2.2.2
  · exact (hwide a ha).mono hsub.2.1

theorem locations_sublist {directory : String} : ∀ {os : List Outcome},
    (∀ o ∈ os, o.Filed directory) →
    (((os.flatMap Outcome.actions).filterMap Action.file?).map Prod.fst).Sublist
      (((os.map (·.record.heading.number)).flatMap pairNames).map fun name =>
        locate (joinPath directory name))
  | [], _ => List.Sublist.refl _
  | o :: os, h => by
    obtain ⟨ho, hos⟩ := List.forall_mem_cons.mp h
    have hone : ((o.actions.filterMap Action.file?).map Prod.fst).Sublist
        ((pairNames o.record.heading.number).map fun name => locate (joinPath directory name)) := by
      cases ho with
      | pair =>
        simp only [pair, pairNames, scriptPath, expectedPath, List.filterMap_cons, Action.file?,
          List.filterMap_nil, List.map_cons, List.map_nil]
        exact List.Sublist.refl _
      | none => exact List.nil_sublist _
    simp only [List.flatMap_cons, List.map_cons, List.filterMap_append, List.map_append]
    exact hone.append (locations_sublist hos)

theorem nodup_locations_of_areNames (directory : String) {names : List String}
    (hareNames : Disk.AreNames names) (hnodup : names.Nodup) :
    (names.map fun name => locate (joinPath directory name)).Nodup := by
  refine List.pairwise_map.mpr (hnodup.imp_of_mem ?_)
  intro a b ha hb hne hab
  obtain ⟨hname, hslash⟩ := hareNames a ha
  obtain ⟨hname', hslash'⟩ := hareNames b hb
  rw [locate_joinPath _ hslash hname, locate_joinPath _ hslash' hname'] at hab
  exact hne (Location.child_injective hab).2

/-- No file of a suite is written twice. -/
theorem nodup_locations {c : Config} {k : Keystream} {t : Tables} (h : Tables.Made c k t)
    (hsweep : c.sweep = none) :
    (((generate c).actions.filterMap Action.file?).map Prod.fst).Nodup := by
  -- what is left out of the list of all names are the files of scenarios that failed
  have hnarrow := locations_sublist (filed_narrowOutcomes c t)
  have hwide := locations_sublist (filed_wideOutcomes c t k)
  rw [numbers_narrowOutcomes] at hnarrow
  rw [numbers_wideOutcomes] at hwide
  have hsub : (((generate c).actions.filterMap Action.file?).map Prod.fst).Sublist
      (fileNames.map fun name => locate (joinPath c.outputDirectory name)) := by
    rw [generate_eq h hsweep, mainWrites, fileNames]
    simp only [List.cons_append, List.append_assoc, List.filterMap_cons, List.filterMap_append,
      List.map_append, List.map_cons, Action.file?, dataFile, List.filterMap_nil, List.map_nil]
    exact ((hnarrow.append ((hwide.append (List.Sublist.refl _)).cons_cons _)).cons_cons _)
  exact List.Nodup.sublist hsub (nodup_locations_of_areNames _ areNames_fileNames nodup_fileNames)

/-! ### A suite on the empty disk -/

theorem Tables.Made.records_eq {c : Config} {k : Keystream} {t : Tables} (h : Made c k t)
    (hsweep : c.sweep = none) {m : Manifest} (hm : (generate c).result = .ok m) :
    m.records = (outcomes c t k).map Outcome.record := by
  rw [generate_eq h hsweep] at hm
  rw [← Except.ok.inj hm]

theorem records_of_generate {c : Config} {k : Keystream} {t : Tables} (h : Tables.Of c k t)
    (hsweep : c.sweep = none) {m : Manifest} (hm : (generate c).result = .ok m) :
    m.records = (outcomes c t k).map Outcome.record :=
  h.made.records_eq hsweep hm

theorem numbers_records (c : Config) (t : Tables) (k : Keystream) :
    ((outcomes c t k).map Outcome.record).map (·.heading.number) = [1, 2, 3, 4, 5, 6, 7, 8, 9] := by
  rw [List.map_map]
  exact numbers_outcomes c t k

/-- A suite whose sweep keeps to the directory of the suite keeps to it as a whole. -/
theorem into_generate {c : Config} {k : Keystream} {t : Tables} (h : Tables.Made c k t)
    {actions : List Action} {swept : List Record} (hsweep : sweepAll c = ⟨actions, .ok swept⟩)
    (hactions : ∀ a ∈ actions, a.Into c.outputDirectory fileNames) :
    ∀ a ∈ (generate c).actions, a.Into c.outputDirectory fileNames := by
  have hmanifest : "manifest.json" ∈ fileNames := by decide +kernel
  rw [generate_eq_of_swept h hsweep]
  intro a ha
  simp only [List.mem_cons, List.mem_append, List.not_mem_nil, or_false] at ha
  rcases ha with rfl | ha | ha | rfl
  · exact .make
  · exact (into_mainWrites c t k a ha).mono fun _ => mem_fileNames_of_mainNames
  · exact hactions a ha
  · exact .write _ hmanifest

/-- A directory that can be made on the empty disk, whose path passes none with
the name of a file of a suite and leaves room for these names. -/
def Makeable (directory : String) : Prop :=
  (Disk.empty.perform (.makeDirectory directory)).isSome = true ∧
    (∀ name ∈ fileNames, (locate directory).child name ∉ Location.passedBy directory) ∧
    directory.utf8ByteSize + 19 < longestPath

instance (directory : String) : Decidable (Makeable directory) :=
  inferInstanceAs (Decidable (_ ∧ _ ∧ _))

/-- A suite that keeps to its directory is made on the empty disk if the
directory can be made. -/
theorem exists_run_of_into {c : Config} {m : Manifest} (hvalid : c.validate = .ok ())
    (hm : (generate c).result = .ok m) (hdirectory : Makeable c.outputDirectory)
    (hinto : ∀ a ∈ (generate c).actions, a.Into c.outputDirectory fileNames) :
    ∃ d', run c Disk.empty = (.ok m, d') := by
  obtain ⟨hsome, hfree, hroom⟩ := hdirectory
  obtain ⟨d, hmade⟩ := Option.isSome_iff_exists.mp hsome
  have hpath : IsPath c.outputDirectory := by
    rw [Disk.perform] at hmade
    split at hmade
    · assumption
    · cases hmade
  have hstorable : ∀ name ∈ fileNames, Disk.Storable c.outputDirectory name := by
    intro name hmem
    obtain ⟨hname, hslash, hfits, hsize, hnul⟩ := isName_of_mem_fileNames name hmem
    exact ⟨hname, hslash, hfits, isPath_joinPath hpath (by omega) hnul⟩
  obtain ⟨t, k, ht⟩ := exists_made hm
  obtain ⟨rest, hactions⟩ := ht.exists_actions_eq
  rw [hactions] at hinto
  obtain ⟨d', hwritten⟩ := Disk.exists_performAll hpath hstorable
    (Disk.open_of_makeDirectory hmade hfree) (List.forall_mem_cons.mp hinto).2
  refine ⟨d', ?_⟩
  unfold run
  rw [hvalid]
  simp only [hactions, Disk.performAll, hmade, hwritten, hm]
  rfl

/-- **There is such a suite.** It is made on the empty disk if its directory
can be made. -/
theorem exists_run {c : Config} (hvalid : c.validate = .ok ()) (hsweep : c.sweep = none)
    (hrows : c.wideRows ≤ 2 ^ 31) (hdirectory : Makeable c.outputDirectory) :
    ∃ m d', run c Disk.empty = (.ok m, d') := by
  obtain ⟨t, k, ht⟩ := exists_tables hrows
  have hm := congrArg Plan.result (generate_eq ht.made hsweep)
  exact ⟨_, exists_run_of_into hvalid hm hdirectory
    (into_generate ht.made (sweepAll_of_none hsweep) fun _ ha => absurd ha List.not_mem_nil)⟩

theorem exists_run_twenty :
    ∃ m d, run ((Config.ofRows 20).withOutput "out") Disk.empty = (.ok m, d) := by
  have hrows : 20 ≤ 2 ^ 31 := by decide
  have hdirectory : Makeable "out" := by decide +kernel
  exact exists_run rfl rfl hrows hdirectory

/-- The disk of a suite is as its manifest says. -/
structure Stored (c : Config) (t : Tables) (m : Manifest) (d : Disk) : Prop where
  inserted : t.wide.GrownBy
    ((Scenario.loadWide c.dataDirectory).commands.filterMap Command.inserted?) t.grown
  numbers : m.records.map (·.heading.number) = [1, 2, 3, 4, 5, 6, 7, 8, 9]
  evaluated : ∀ r ∈ m.records, r.fault = none → ∃ s text last,
    scenarioOf c r.heading.number r.windows = some s ∧ s.heading = r.heading ∧
      s.evaluate (t.on r.heading.number) = .ok (text, last)
  files : ∀ l content, d.look l = some (.file content) ↔
    ∃ name, l = (locate c.outputDirectory).child name ∧ SuiteFile c t m name content
  directories : ∀ l, d.look l = some .directory ↔
    l.names = [] ∨ l ∈ Location.passedBy c.outputDirectory
  flat : ".." ∉ pathSegments c.outputDirectory → ∀ name,
    d.look ((locate c.outputDirectory).child name) ≠ some .directory

theorem exists_evaluated {c : Config} {t : Tables} {o : Outcome} (h : Followed c t o)
    (hfine : o.record.fault = none) : ∃ s text last,
      scenarioOf c o.record.heading.number o.record.windows = some s ∧
        s.heading = o.record.heading ∧
        s.evaluate (t.on o.record.heading.number) = .ok (text, last) := by
  cases h with
  | made hs hresult => exact ⟨_, _, _, hs, rfl, hresult⟩
  | left hfault =>
    rw [hfault] at hfine
    cases hfine

section

variable {c : Config} {k : Keystream} {t : Tables} (hsweep : c.sweep = none)
  {m : Manifest} (hm : (generate c).result = .ok m) {d : Disk}
  (hperform : Disk.empty.performAll (generate c).actions = (true, d))

include hsweep hm hperform

theorem Tables.Made.look_file_iff (h : Made c k t) (l : Location) (content : String) :
    d.look l = some (.file content) ↔
      ∃ name, l = (locate c.outputDirectory).child name ∧ SuiteFile c t m name content := by
  obtain ⟨writes, hactions, hwrites⟩ := exists_writes h hsweep hm
  have hlocate : ∀ {name content}, SuiteFile c t m name content →
      locate (joinPath c.outputDirectory name) = (locate c.outputDirectory).child name := by
    intro name content hsuite
    have hnumbers := h.records_eq hsweep hm ▸ numbers_records c t k
    obtain ⟨hname, hslash, -⟩ :=
      isName_of_mem_fileNames name (mem_fileNames_of_suiteFile hnumbers hsuite)
    exact locate_joinPath _ hslash hname
  have hnone : Disk.empty.look l ≠ some (.file content) := by
    intro hlook
    cases (Disk.look_empty.mp hlook).2
  -- there were no files before, so all that are there were written
  have hlook := Disk.look_performAll hperform (nodup_locations h hsweep) l content
  rw [hlook, or_iff_left fun hother => hnone hother.2, hactions,
    List.filterMap_cons_none rfl, List.mem_filterMap]
  constructor
  · rintro ⟨a, ha, hfile⟩
    obtain ⟨name, content', hsuite, rfl⟩ := (hwrites a).mp ha
    cases hfile
    exact ⟨name, hlocate hsuite, hsuite⟩
  · rintro ⟨name, rfl, hsuite⟩
    refine ⟨_, (hwrites _).mpr ⟨name, content, hsuite, rfl⟩, ?_⟩
    rw [Action.file?, hlocate hsuite]

/-- The directories on the disk are those that the path of the suite passes. -/
theorem Tables.Made.look_directory_iff (h : Made c k t) (l : Location) :
    d.look l = some .directory ↔ l.names = [] ∨ l ∈ Location.passedBy c.outputDirectory := by
  obtain ⟨writes, hactions, hwrites⟩ := exists_writes h hsweep hm
  have hmade : ∀ path, .makeDirectory path ∈ (generate c).actions ↔ path = c.outputDirectory := by
    intro path
    rw [hactions, List.mem_cons, Action.makeDirectory.injEq]
    refine or_iff_left fun hmem => ?_
    obtain ⟨_, _, _, hwrite⟩ := (hwrites _).mp hmem
    cases hwrite
  rw [Disk.look_directory_performAll hperform, Disk.look_empty, and_iff_left rfl]
  simp only [hmade, exists_eq_left]

/-- Without a step back no directory is made in the directory of the suite. -/
theorem Tables.Made.look_ne_directory (h : Made c k t)
    (hback : ".." ∉ pathSegments c.outputDirectory) (name : String) :
    d.look ((locate c.outputDirectory).child name) ≠ some .directory := by
  intro hlook
  rcases (h.look_directory_iff hsweep hm hperform _).mp hlook with hnames | hpassed
  · exact Location.names_child _ _ hnames
  · exact Location.child_notMem_passedBy hback name hpassed

end

/-- A suite is refused on the empty disk if its path passes a directory that has
the name of one of its files. -/
theorem Tables.Made.run_eq_refused {c : Config} {k : Keystream} {t : Tables} (h : Made c k t)
    (hvalid : c.validate = .ok ()) (hsweep : c.sweep = none) {m : Manifest}
    (hm : (generate c).result = .ok m) {name content : String}
    (hfile : SuiteFile c t m name content)
    (hpassed : (locate c.outputDirectory).child name ∈ Location.passedBy c.outputDirectory) :
    (run c Disk.empty).1 = .error .refused := by
  unfold run
  rw [hvalid]
  simp only
  cases hperform : Disk.empty.performAll (generate c).actions with
  | mk all d =>
    cases all with
    | false => rfl
    | true =>
      -- the file would be where a directory is
      have hthere := (h.look_file_iff hsweep hm hperform _ content).mpr ⟨name, rfl, hfile⟩
      rw [(h.look_directory_iff hsweep hm hperform _).mpr (.inr hpassed)] at hthere
      cases hthere

/-- **The directory of a suite.** A suite that is made without a sweep on the
empty disk leaves there exactly its files: the tables of the data files, the
manifest, and a script with the output to expect for every scenario recorded
without a fault. The directories are those that the path of the suite passes, so
there is none among the files unless the path steps back out of it. -/
theorem stored_of_run {c : Config} {d : Disk} {m : Manifest} (hsweep : c.sweep = none)
    (hrows : c.wideRows ≤ 2 ^ 31) (h : run c Disk.empty = (.ok m, d)) :
    ∃ t k, Tables.Of c k t ∧ Stored c t m d := by
  obtain ⟨t, k, ht⟩ := exists_tables hrows
  obtain ⟨-, hperform, hm⟩ := exists_of_run_eq_ok h
  have hrecords := records_of_generate ht hsweep hm
  refine ⟨t, k, ht, ht.grown, hrecords ▸ numbers_records c t k, ?_,
    ht.made.look_file_iff hsweep hm hperform, ht.made.look_directory_iff hsweep hm hperform,
    ht.made.look_ne_directory hsweep hm hperform⟩
  intro r hr hfine
  rw [hrecords] at hr
  obtain ⟨o, ho, rfl⟩ := List.mem_map.mp hr
  exact exists_evaluated (followed_outcomes ht o ho) hfine

theorem stored_of_run_twenty : ∃ m d,
    run ((Config.ofRows 20).withOutput "out") Disk.empty = (.ok m, d) ∧
      ∃ t k, Tables.Of ((Config.ofRows 20).withOutput "out") k t ∧
        Stored ((Config.ofRows 20).withOutput "out") t m d := by
  obtain ⟨m, d, h⟩ := exists_run_twenty
  have hrows : 20 ≤ 2 ^ 31 := by decide
  exact ⟨m, d, h, stored_of_run rfl hrows h⟩

/-- The path `a/..` leaves a directory among the files. A path that leaves one
with the name of a data file is refused. -/
theorem directory_left_beside :
    (((Config.ofRows 20).withOutput "a/..").validate = .ok () ∧
      ((Config.ofRows 20).withOutput "a/..").sweep = none ∧
      ∃ m d, run ((Config.ofRows 20).withOutput "a/..") Disk.empty = (.ok m, d) ∧
        d.look ((locate "a/..").child "a") = some .directory) ∧
    ((Config.ofRows 20).withOutput "data1_generated.csv/..").validate = .ok () ∧
      ((Config.ofRows 20).withOutput "data1_generated.csv/..").sweep = none ∧
      (run ((Config.ofRows 20).withOutput "data1_generated.csv/..") Disk.empty).1 =
        .error .refused := by
  have hrows : 20 ≤ 2 ^ 31 := by decide
  refine ⟨⟨rfl, rfl, ?_⟩, rfl, rfl, ?_⟩
  · have hdirectory : Makeable "a/.." := by decide +kernel
    obtain ⟨m, d, h⟩ :=
      @exists_run ((Config.ofRows 20).withOutput "a/..") rfl rfl hrows hdirectory
    obtain ⟨-, hperform, hm⟩ := exists_of_run_eq_ok h
    obtain ⟨t, k, ht⟩ := exists_made hm
    have hpassed : (locate "a/..").child "a" ∈ Location.passedBy "a/.." := by decide +kernel
    exact ⟨m, d, h, (ht.look_directory_iff rfl hm hperform _).mpr (.inr hpassed)⟩
  · obtain ⟨t, k, ht⟩ :=
      @exists_tables ((Config.ofRows 20).withOutput "data1_generated.csv/..") hrows
    have hm := congrArg Plan.result (generate_eq ht.made rfl)
    have hpassed : (locate "data1_generated.csv/..").child Fixture.narrowFile ∈
        Location.passedBy "data1_generated.csv/.." := by decide +kernel
    exact ht.made.run_eq_refused rfl rfl hm .narrow hpassed

end Suite
end Columnar
