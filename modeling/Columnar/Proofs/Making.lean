/-
# How a suite is made

For sizes of up to `2 ^ 31` the three tables of a suite exist: the narrow
one, the wide one and the wide one with the inserted rows (`exists_tables`);
whatever the sizes, a plan that has a result has them (`exists_made`). With
them the plan of a suite is known: what is done (`mainPart_eq`) are the
directory, the data files and the files of the outcomes, and what it results
in are the records of the outcomes. The scenarios that come before the wide
table are evaluated without it, the one that inserts with it, and the others
on what that one leaves.

Key definitions: `Suite.Tables`, `Suite.Tables.Of`, `Suite.Tables.Made`,
`Suite.outcomes`.
Key theorems: `Suite.exists_tables`, `Suite.exists_made`,
`Suite.exists_planned`, `Suite.mainPart_eq`, `Suite.generate_eq_of_swept`,
`Suite.exists_of_run_eq_ok`.
-/
import Columnar.Proofs.Scenarios
import Columnar.Suite

namespace Columnar

namespace Plan

variable {α β : Type}

theorem bind_of_ok {x : Plan α} {a : α} (h : x.result = .ok a) (f : α → Plan β) :
    x >>= f = ⟨x.actions ++ (f a).actions, (f a).result⟩ := by
  change x.andThen f = _
  rw [andThen, h]

theorem exists_of_bind_eq_ok {x : Plan α} {f : α → Plan β} {b : β}
    (h : (x >>= f).result = .ok b) : ∃ a, x.result = .ok a ∧ (f a).result = .ok b := by
  cases hx : x.result with
  | error fault =>
    change (x.andThen f).result = .ok b at h
    rw [andThen, hx] at h
    cases h
  | ok a =>
    rw [bind_of_ok hx] at h
    exact ⟨a, rfl, h⟩

end Plan

namespace Suite

/-! ### The tables -/

/-- The tables of a suite: the narrow one, the wide one as it is written to
its data file, and the wide one with the inserted rows. -/
structure Tables where
  narrow : Table
  wide : Table
  grown : Table

namespace Tables

/-- The tables before the wide one is made. -/
def first (t : Tables) : Catalog := Catalog.empty.register t.narrow

/-- The tables of the two data files. -/
def loaded (t : Tables) : Catalog := t.first.register t.wide

/-- The tables after the inserts. -/
def inserted (t : Tables) : Catalog := t.first.register t.grown

/-- The tables are those of the configuration, and the keystream is where the
wide one leaves it. -/
structure Of (c : Config) (k : Keystream) (t : Tables) : Prop where
  narrow : Fixture.narrow c.narrowRows c.narrowSeed = .ok t.narrow
  narrow_conforms : t.narrow.Conforms (Fixture.narrowSchema c.narrowRows)
  narrow_header : t.narrow.columns.map Column.name = Fixture.narrowColumns
  wide : (Fixture.wide c.wideRows).run (Keystream.ofSeed c.seed) = (.ok t.wide, k)
  wide_name : t.wide.name = Fixture.wideName
  wide_header : t.wide.columns.map Column.name = Fixture.wideColumns
  wide_rowCount : t.wide.rowCount = c.wideRows
  insert : Fixture.insertedRows.foldlM Table.insert t.wide = .ok t.grown
  grown : t.wide.GrownBy Fixture.insertedRows t.grown
  grown_conforms : t.grown.Conforms Fixture.wideSchema

/-- What is known of the tables of a suite whatever its size. -/
structure Made (c : Config) (k : Keystream) (t : Tables) : Prop where
  narrow : Fixture.narrow c.narrowRows c.narrowSeed = .ok t.narrow
  narrow_conforms : t.narrow.Conforms (Fixture.narrowSchema c.narrowRows)
  narrow_header : t.narrow.columns.map Column.name = Fixture.narrowColumns
  wide : (Fixture.wide c.wideRows).run (Keystream.ofSeed c.seed) = (.ok t.wide, k)
  wide_name : t.wide.name = Fixture.wideName
  wide_header : t.wide.columns.map Column.name = Fixture.wideColumns
  insert : Fixture.insertedRows.foldlM Table.insert t.wide = .ok t.grown
  grown : t.wide.GrownBy Fixture.insertedRows t.grown

theorem Of.made {c : Config} {k : Keystream} {t : Tables} (h : Of c k t) : Made c k t where
  narrow := h.narrow
  narrow_conforms := h.narrow_conforms
  narrow_header := h.narrow_header
  wide := h.wide
  wide_name := h.wide_name
  wide_header := h.wide_header
  insert := h.insert
  grown := h.grown

end Tables

theorem exists_tables {c : Config} (h : c.wideRows ≤ 2 ^ 31) :
    ∃ t k, Tables.Of c k t := by
  obtain ⟨narrow, hnarrow, hconforms, hheader, -⟩ :=
    Fixture.exists_narrow c.narrowRows c.narrowSeed
  obtain ⟨wide, k, hwide, hwconforms, hwheader, hcount⟩ :=
    Fixture.exists_wide h (Keystream.ofSeed c.seed)
  obtain ⟨grown, hinsert, hgrown, hgconforms⟩ :=
    Fixture.exists_grown_wide hwconforms hwheader (hcount ▸ h)
  exact ⟨⟨narrow, wide, grown⟩, k, hnarrow, hconforms, hheader, hwide, hwconforms.name, hwheader,
    hcount, hinsert, hgrown, hgconforms⟩

namespace Tables.Made

variable {c : Config} {k : Keystream} {t : Tables} (h : Tables.Made c k t)

include h

theorem name_narrow : t.narrow.name = Fixture.narrowName := h.narrow_conforms.name

theorem name_grown : t.grown.name = Fixture.wideName := h.grown.name.trans h.wide_name

theorem find?_first : t.first.find? Fixture.narrowName = some t.narrow := by
  rw [Tables.first, Catalog.find?_register, if_pos h.name_narrow]

theorem find?_inserted : t.inserted.find? Fixture.wideName = some t.grown := by
  rw [Tables.inserted, Catalog.find?_register, if_pos h.name_grown]

/-- The wide table is not there at first, and its name is another. -/
theorem find?_first_wide : t.first.find? Fixture.wideName = none := by
  have hne : t.narrow.name ≠ Fixture.wideName := by
    rw [h.name_narrow]
    decide
  rw [Tables.first, Catalog.find?_register, if_neg hne]
  rfl

theorem evaluate_narrowScenarios :
    ∀ s ∈ narrowScenarios c, ∃ result, s.evaluate t.first = .ok result := by
  intro s hs
  simp only [narrowScenarios, List.mem_cons, List.not_mem_nil, or_false] at hs
  rcases hs with rfl | rfl | rfl
  · exact ⟨_, Scenario.evaluate_loadNarrow h.find?_first (.of_eq h.narrow_header) c.dataDirectory⟩
  · exact Scenario.evaluate_selectFetch h.narrow_conforms h.find?_first c.queries
  · exact Scenario.evaluate_averageWindow h.narrow_conforms h.find?_first

/-- The inserts leave the table grown in the place of the one loaded. -/
theorem evaluate_loadWide :
    (Scenario.loadWide c.dataDirectory).evaluate t.loaded = .ok ("", t.inserted) :=
  Scenario.evaluate_loadWide h.wide_name (.of_eq h.wide_header) h.insert c.dataDirectory

theorem grown_pos : 0 < t.grown.rowCount := by
  rw [h.grown.rowCount]
  exact Nat.add_pos_right _ (by decide)

end Tables.Made

theorem Tables.Of.evaluate_loadWide {c : Config} {k : Keystream} {t : Tables} (h : Of c k t) :
    (Scenario.loadWide c.dataDirectory).evaluate t.loaded = .ok ("", t.inserted) :=
  h.made.evaluate_loadWide

/-! ### The scenarios to come -/

/-- What a draw can give. -/
def Gives (x : Draw Window) (w : Except Fault Window) : Prop := ∃ k, (x.run k).1 = w

theorem exists_plannedFrom (a b d e : Draw Window) (k : Keystream) :
    ∃ w₅ w₆ w₇ w₈ first second,
      plannedFrom a b d e k =
        [⟨Scenario.summationHeading, w₅.map Scenario.summation⟩,
         ⟨Scenario.additionHeading, w₆.map Scenario.addition⟩,
         ⟨Scenario.subtractionHeading, w₇.map Scenario.subtraction⟩,
         ⟨Scenario.leastGreatestHeading, w₈.map Scenario.leastGreatest⟩,
         ⟨Scenario.conjunctionHeading, do return Scenario.conjunction (← first) (← second)⟩] ∧
      Gives a w₅ ∧ Gives b w₆ ∧ Gives b w₇ ∧ Gives d w₈ ∧ Gives e first ∧ Gives e second := by
  unfold plannedFrom
  cases h₅ : a.run k with | mk w₅ k₅ =>
  dsimp only
  cases h₆ : b.run k₅ with | mk w₆ k₆ =>
  dsimp only
  cases h₇ : b.run k₆ with | mk w₇ k₇ =>
  dsimp only
  cases h₈ : d.run k₇ with | mk w₈ k₈ =>
  dsimp only
  cases h₉ : e.run k₈ with | mk first k₉ =>
  dsimp only
  cases h₁₀ : e.run k₉ with | mk second k₁₀ =>
  exact ⟨w₅, w₆, w₇, w₈, first, second, rfl, ⟨k, congrArg Prod.fst h₅⟩, ⟨k₅, congrArg Prod.fst h₆⟩,
    ⟨k₆, congrArg Prod.fst h₇⟩, ⟨k₇, congrArg Prod.fst h₈⟩, ⟨k₈, congrArg Prod.fst h₉⟩,
    ⟨k₉, congrArg Prod.fst h₁₀⟩⟩

theorem sampled_of_gives {rows : Nat} {width : Int64} {w : Except Fault Window}
    (h : Gives (sampled rows width) w) : Window.Sampled rows width w := by
  obtain ⟨k, rfl⟩ := h
  exact Window.sampled_run rows width k

/-- The scenarios to come with the windows they are made from. -/
theorem exists_planned (rows : Nat) (k : Keystream) :
    ∃ w₅ w₆ w₇ w₈ first second,
      planned rows k =
        [⟨Scenario.summationHeading, w₅.map Scenario.summation⟩,
         ⟨Scenario.additionHeading, w₆.map Scenario.addition⟩,
         ⟨Scenario.subtractionHeading, w₇.map Scenario.subtraction⟩,
         ⟨Scenario.leastGreatestHeading, w₈.map Scenario.leastGreatest⟩,
         ⟨Scenario.conjunctionHeading, do return Scenario.conjunction (← first) (← second)⟩] ∧
      Window.Sampled rows (widthFor rows summationShare) w₅ ∧
      Window.Sampled rows arithmeticWidth w₆ ∧ Window.Sampled rows arithmeticWidth w₇ ∧
      Window.Sampled rows (widthFor rows leastGreatestShare) w₈ ∧
      Window.Sampled rows (widthFor rows conjunctionShare) first ∧
      Window.Sampled rows (widthFor rows conjunctionShare) second := by
  obtain ⟨w₅, w₆, w₇, w₈, first, second, hplanned, h₅, h₆, h₇, h₈, h₉, h₁₀⟩ :=
    exists_plannedFrom (sampled rows (widthFor rows summationShare)) (sampled rows arithmeticWidth)
      (sampled rows (widthFor rows leastGreatestShare))
      (sampled rows (widthFor rows conjunctionShare)) k
  refine ⟨w₅, w₆, w₇, w₈, first, second, ?_, sampled_of_gives h₅, sampled_of_gives h₆,
    sampled_of_gives h₇, sampled_of_gives h₈, sampled_of_gives h₉, sampled_of_gives h₁₀⟩
  rw [planned, hplanned]

/-- The scenarios that are made from windows, with the headings they have. -/
inductive FromWindows : Heading → Scenario → Prop
  | summation (w : Window) : FromWindows Scenario.summationHeading (Scenario.summation w)
  | addition (w : Window) : FromWindows Scenario.additionHeading (Scenario.addition w)
  | subtraction (w : Window) : FromWindows Scenario.subtractionHeading (Scenario.subtraction w)
  | leastGreatest (w : Window) :
      FromWindows Scenario.leastGreatestHeading (Scenario.leastGreatest w)
  | conjunction (first second : Window) :
      FromWindows Scenario.conjunctionHeading (Scenario.conjunction first second)

theorem fromWindows_of_planned {rows : Nat} {k : Keystream} :
    ∀ p ∈ planned rows k, ∀ s, p.scenario = .ok s → FromWindows p.heading s := by
  obtain ⟨w₅, w₆, w₇, w₈, first, second, hplanned, -⟩ := exists_planned rows k
  rw [hplanned]
  intro p hp s hs
  simp only [List.mem_cons, List.not_mem_nil, or_false] at hp
  have hmade : ∀ {make : Window → Scenario} {heading : Heading} {w : Except Fault Window},
      (∀ w, FromWindows heading (make w)) → w.map make = .ok s → FromWindows heading s := by
    intro make heading w hmake hw
    cases w with
    | error fault => cases hw
    | ok w =>
      cases hw
      exact hmake w
  rcases hp with rfl | rfl | rfl | rfl | rfl
  · exact hmade .summation hs
  · exact hmade .addition hs
  · exact hmade .subtraction hs
  · exact hmade .leastGreatest hs
  · obtain ⟨a, -, hs⟩ := bind_eq_ok_iff.mp hs
    obtain ⟨b, -, hs⟩ := bind_eq_ok_iff.mp hs
    cases hs
    exact .conjunction a b

theorem heading_of_fromWindows {heading : Heading} {s : Scenario} (h : FromWindows heading s) :
    s.heading = heading := by
  cases h <;> rfl

theorem numbers_planned (rows : Nat) (k : Keystream) :
    (planned rows k).map (·.heading.number) = [5, 6, 7, 8, 9] := by
  obtain ⟨w₅, w₆, w₇, w₈, first, second, hplanned, -⟩ := exists_planned rows k
  rw [hplanned]
  rfl

/-! ### The outcomes -/

theorem conduct_of_ok (directory : String) {text : String} {catalog last : Catalog} {s : Scenario}
    (h : s.evaluate catalog = .ok (text, last)) :
    conduct directory catalog s =
      ⟨⟨s.heading, directory, s.windows, none⟩, pair directory s text, some last⟩ := by
  rw [conduct, h]

theorem conduct_of_error (directory : String) {catalog : Catalog} {s : Scenario} {fault : Fault}
    (h : s.evaluate catalog = .error fault) :
    conduct directory catalog s =
      ⟨⟨s.heading, directory, s.windows, some fault⟩, [], none⟩ := by
  rw [conduct, h]

/-- An outcome with the files of its scenario or without any. -/
inductive Outcome.Filed (directory : String) : Outcome → Prop
  | pair (s : Scenario) (text : String) (windows : List Window) (fault : Option Fault)
      (after : Option Catalog) :
      Filed directory ⟨⟨s.heading, directory, windows, fault⟩, pair directory s text, after⟩
  | none (r : Record) (after : Option Catalog) : Filed directory ⟨r, [], after⟩

theorem filed_conduct (directory : String) (catalog : Catalog) (s : Scenario) :
    (conduct directory catalog s).Filed directory := by
  unfold conduct
  split
  · exact .pair s _ _ _ _
  · exact .none _ _

theorem filed_plannedConduct (directory : String) (catalog : Catalog) (p : Planned) :
    (p.conduct directory catalog).Filed directory := by
  unfold Planned.conduct
  split
  · exact filed_conduct directory catalog _
  · exact .none _ _

/-- The outcomes of the scenarios that come before the wide table. -/
def narrowOutcomes (c : Config) (t : Tables) : List Outcome :=
  (narrowScenarios c).map (conduct c.outputDirectory t.first)

/-- The outcomes of the scenarios on the wide table: the first with the table
as it is loaded, the others after the inserts. -/
def wideOutcomes (c : Config) (t : Tables) (k : Keystream) : List Outcome :=
  conduct c.outputDirectory t.loaded (Scenario.loadWide c.dataDirectory) ::
    (planned c.wideRows k).map (Planned.conduct c.outputDirectory t.inserted)

/-- The outcomes of all scenarios in the directory of the suite, in order. -/
def outcomes (c : Config) (t : Tables) (k : Keystream) : List Outcome :=
  narrowOutcomes c t ++ wideOutcomes c t k

theorem filed_narrowOutcomes (c : Config) (t : Tables) :
    ∀ o ∈ narrowOutcomes c t, o.Filed c.outputDirectory := by
  intro o ho
  obtain ⟨s, -, rfl⟩ := List.mem_map.mp ho
  exact filed_conduct _ _ s

theorem filed_wideOutcomes (c : Config) (t : Tables) (k : Keystream) :
    ∀ o ∈ wideOutcomes c t k, o.Filed c.outputDirectory := by
  intro o ho
  rcases List.mem_cons.mp ho with rfl | ho
  · exact filed_conduct _ _ _
  · obtain ⟨p, -, rfl⟩ := List.mem_map.mp ho
    exact filed_plannedConduct _ _ p

theorem heading_conduct (directory : String) (catalog : Catalog) (s : Scenario) :
    (conduct directory catalog s).record.heading = s.heading := by
  unfold conduct
  split <;> rfl

theorem heading_plannedConduct (directory : String) (catalog : Catalog) {p : Planned}
    (hp : ∀ s, p.scenario = .ok s → s.heading = p.heading) :
    (p.conduct directory catalog).record.heading = p.heading := by
  unfold Planned.conduct
  split
  · rename_i s hs
    exact (heading_conduct directory catalog s).trans (hp s hs)
  · rfl

theorem numbers_narrowOutcomes (c : Config) (t : Tables) :
    (narrowOutcomes c t).map (·.record.heading.number) = [1, 2, 3] := by
  simp only [narrowOutcomes, narrowScenarios, List.map_cons, List.map_nil, heading_conduct]
  rfl

theorem numbers_wideOutcomes (c : Config) (t : Tables) (k : Keystream) :
    (wideOutcomes c t k).map (·.record.heading.number) = [4, 5, 6, 7, 8, 9] := by
  have hplanned : ((planned c.wideRows k).map
      (Planned.conduct c.outputDirectory t.inserted)).map (·.record.heading.number) =
        (planned c.wideRows k).map (·.heading.number) := by
    rw [List.map_map]
    refine List.map_congr_left fun p hp => ?_
    exact congrArg Heading.number
      (heading_plannedConduct c.outputDirectory t.inserted fun s hs =>
        heading_of_fromWindows (fromWindows_of_planned p hp s hs))
  rw [wideOutcomes, List.map_cons, hplanned, numbers_planned, heading_conduct]
  rfl

/-- The scenarios come in the order of their numbers. -/
theorem numbers_outcomes (c : Config) (t : Tables) (k : Keystream) :
    (outcomes c t k).map (·.record.heading.number) = [1, 2, 3, 4, 5, 6, 7, 8, 9] := by
  rw [outcomes, List.map_append, numbers_narrowOutcomes, numbers_wideOutcomes]
  rfl

theorem carry_eq (os : List Outcome) :
    Outcome.carry os = ⟨os.flatMap Outcome.actions, .ok (os.map Outcome.record)⟩ := by
  rw [Outcome.carry, Plan.bind_of_ok rfl]
  exact congrArg (Plan.mk · _) (List.append_nil _)

/-- What is written for the scenarios in the directory of the suite. -/
def mainWrites (c : Config) (t : Tables) (k : Keystream) : List Action :=
  dataFile c.outputDirectory Fixture.narrowFile t.narrow ::
    ((narrowOutcomes c t).flatMap Outcome.actions ++
      dataFile c.outputDirectory Fixture.wideFile t.wide ::
        (wideOutcomes c t k).flatMap Outcome.actions)

/-- The plan of the main part in terms of the tables. -/
theorem mainPart_eq {c : Config} {k : Keystream} {t : Tables} (h : Tables.Made c k t) :
    mainPart c = ⟨.makeDirectory c.outputDirectory :: mainWrites c t k,
      .ok ((outcomes c t k).map Outcome.record)⟩ := by
  have hloading := conduct_of_ok c.outputDirectory h.evaluate_loadWide
  have hloaded : (Catalog.empty.register t.narrow).register t.wide = t.loaded := rfl
  -- the draws of the later scenarios stay folded, as nothing here depends on them
  unfold mainPart
  simp only [h.narrow, h.wide, bind, Plan.andThen, Plan.act, Plan.given, pure, carry_eq, hloaded,
    hloading]
  simp [mainWrites, outcomes, narrowOutcomes, wideOutcomes, Tables.first, hloading]

/-! ### A suite that is made -/

/-- The other tables are always there, so all depends on the wide one. -/
theorem exists_made_of_wide {c : Config} {wide : Table} {k : Keystream}
    (hwide : (Fixture.wide c.wideRows).run (Keystream.ofSeed c.seed) = (.ok wide, k)) :
    ∃ t k, Tables.Made c k t := by
  obtain ⟨narrow, hnarrow, hconforms, hnheader, -⟩ :=
    Fixture.exists_narrow c.narrowRows c.narrowSeed
  obtain ⟨hname, hheader⟩ := Fixture.header_of_wide hwide
  obtain ⟨grown, hinsert, hgrown, -⟩ :=
    Table.exists_grown (Fixture.length_eq_of_mem_insertedRows hheader)
  exact ⟨⟨narrow, wide, grown⟩, k, hnarrow, hconforms, hnheader, hwide, hname, hheader, hinsert,
    hgrown⟩

theorem exists_made {c : Config} {m : Manifest} (hm : (generate c).result = .ok m) :
    ∃ t k, Tables.Made c k t := by
  obtain ⟨records, hmain, -⟩ := Plan.exists_of_bind_eq_ok hm
  -- the first three parts are the directory, the narrow table and its files
  obtain ⟨_, -, hmain⟩ := Plan.exists_of_bind_eq_ok hmain
  obtain ⟨narrow, hnarrow, hmain⟩ := Plan.exists_of_bind_eq_ok hmain
  obtain ⟨_, -, hmain⟩ := Plan.exists_of_bind_eq_ok hmain
  obtain ⟨_, -, hmain⟩ := Plan.exists_of_bind_eq_ok hmain
  cases hdraw : (Fixture.wide c.wideRows).run (Keystream.ofSeed c.seed) with | mk drawn k =>
  simp only [hdraw] at hmain
  obtain ⟨wide, hwide, -⟩ := Plan.exists_of_bind_eq_ok hmain
  obtain rfl : drawn = .ok wide := hwide
  exact exists_made_of_wide hdraw

/-- A run that succeeds has carried out the whole plan. -/
theorem exists_of_run_eq_ok {c : Config} {d d' : Disk} {m : Manifest}
    (h : run c d = (.ok m, d')) :
    c.validate = .ok () ∧ d.performAll (generate c).actions = (true, d') ∧
      (generate c).result = .ok m := by
  unfold run at h
  cases hvalid : c.validate with
  | error fault =>
    rw [hvalid] at h
    cases h
  | ok _ =>
    rw [hvalid] at h
    simp only at h
    cases hperform : d.performAll (generate c).actions with
    | mk carried last =>
      rw [hperform] at h
      cases carried with
      | false => cases h
      | true =>
        obtain ⟨hresult, rfl⟩ := Prod.mk.inj h
        refine ⟨rfl, rfl, ?_⟩
        cases hplan : (generate c).result with
        | error fault =>
          rw [hplan] at hresult
          cases hresult
        | ok m' =>
          rw [hplan] at hresult
          cases hresult
          rfl

/-- The manifest has the records of the scenarios in the directory of the
suite and then those of the sweep. -/
theorem Tables.Made.exists_records {c : Config} {k : Keystream} {t : Tables} (h : Made c k t)
    {m : Manifest} (hm : (generate c).result = .ok m) :
    ∃ swept, (sweepAll c).result = .ok swept ∧
      m = ⟨c, (outcomes c t k).map Outcome.record ++ swept⟩ := by
  unfold generate at hm
  rw [mainPart_eq h] at hm
  obtain ⟨records, hrecords, hm⟩ := Plan.exists_of_bind_eq_ok hm
  cases hrecords
  obtain ⟨swept, hswept, hm⟩ := Plan.exists_of_bind_eq_ok hm
  obtain ⟨_, -, hm⟩ := Plan.exists_of_bind_eq_ok hm
  cases hm
  exact ⟨swept, hswept, rfl⟩

theorem exists_records {c : Config} {k : Keystream} {t : Tables} (h : Tables.Of c k t)
    {m : Manifest} (hm : (generate c).result = .ok m) :
    ∃ swept, (sweepAll c).result = .ok swept ∧
      m = ⟨c, (outcomes c t k).map Outcome.record ++ swept⟩ :=
  h.made.exists_records hm

/-- The directory of the suite is made first. -/
theorem Tables.Made.exists_actions_eq {c : Config} {k : Keystream} {t : Tables} (h : Made c k t) :
    ∃ rest, (generate c).actions = .makeDirectory c.outputDirectory :: rest := by
  rw [generate, mainPart_eq h, Plan.bind_of_ok rfl]
  exact ⟨_, rfl⟩

/-- After the main part and the sweep there is only the manifest. -/
theorem generate_eq_of_swept {c : Config} {k : Keystream} {t : Tables} (h : Tables.Made c k t)
    {actions : List Action} {swept : List Record} (hsweep : sweepAll c = ⟨actions, .ok swept⟩) :
    let m : Manifest := ⟨c, (outcomes c t k).map Outcome.record ++ swept⟩
    generate c = ⟨.makeDirectory c.outputDirectory :: (mainWrites c t k ++ (actions ++
      [.write (manifestPath c.outputDirectory) m.text])), .ok m⟩ := by
  intro m
  unfold generate
  rw [mainPart_eq h, hsweep]
  simp only [bind, Plan.andThen, Plan.act, pure, List.append_nil, List.cons_append]
  rfl

theorem sweepAll_of_none {c : Config} (hsweep : c.sweep = none) : sweepAll c = ⟨[], .ok []⟩ := by
  rw [sweepAll, hsweep]
  rfl

theorem generate_eq {c : Config} {k : Keystream} {t : Tables} (h : Tables.Made c k t)
    (hsweep : c.sweep = none) :
    let m : Manifest := ⟨c, (outcomes c t k).map Outcome.record⟩
    generate c = ⟨.makeDirectory c.outputDirectory :: (mainWrites c t k ++
      [.write (manifestPath c.outputDirectory) m.text]), .ok m⟩ := by
  simpa only [List.nil_append, List.append_nil] using
    generate_eq_of_swept h (sweepAll_of_none hsweep)

end Suite
end Columnar
