/-
# What a run prints, field by field

A print writes its arguments side by side, also where there is only one of them
(`printed_eq_sideBySide`): rows of fields, with commas between the fields and a
newline after every row. No field has a comma or a newline in it, so the text
splits into its rows and these into their fields again. A run prints what its
prints write, one after another, and so it is rows of fields as well.

A variable holds no average but one that shows what it is (`Session.Shows`):
aggregates alone make averages, and these are rounded. So no field of anything
that is printed is a negative zero, and an average stands in its field with two
places or as a word for infinity (`Session.fields_of_run`).

Key definitions: `pieces`, `rowsText`, `fieldRows`, `IsPrintout`,
`Session.Shows`.
Key theorems: `sideBySide_eq_ok_iff`, `printed_eq_sideBySide`,
`printed_scalars`, `isPrintout_printed`, `Session.shows_visit`, `Session.fields_of_run`.
-/
import Columnar.Proofs.Figures
import Columnar.Proofs.Script

namespace Columnar

open Script (IsField notMem_intercalate splitOn_unlines)

/-! ### Rows of fields as text -/

/-- What stands before, between and after the occurrences of a character. -/
def pieces (mark : Char) (text : String) : List String :=
  (text.toList.splitOn mark).map String.ofList

/-- Rows of fields as lines, with commas between the fields. -/
def rowsText (rows : List (List String)) : String :=
  unlines (rows.map fun row => ",".intercalate row)

theorem rowsText_append (rows others : List (List String)) :
    rowsText (rows ++ others) = rowsText rows ++ rowsText others := by
  simp [rowsText, unlines]

theorem pieces_of_notMem {mark : Char} {text : String} (h : mark ∉ text.toList) :
    pieces mark text = [text] := by
  rw [pieces, List.splitOn_eq_singleton h, List.map_singleton, String.ofList_toList]

/-- After the last newline stands nothing. -/
theorem pieces_unlines {lines : List String} (h : ∀ line ∈ lines, '\n' ∉ line.toList) :
    pieces '\n' (unlines lines) = lines ++ [""] := by
  rw [pieces, splitOn_unlines h, List.map_append, List.map_map]
  simp [Function.comp_def]

theorem pieces_intercalate {row : List String} (hne : row ≠ [])
    (h : ∀ field ∈ row, ',' ∉ field.toList) : pieces ',' (",".intercalate row) = row := by
  have hfields : ∀ field ∈ row.map String.toList, ',' ∉ field := by
    intro field hfield
    obtain ⟨f, hf, rfl⟩ := List.mem_map.mp hfield
    exact h f hf
  have hcomma : ",".toList = [','] := rfl
  rw [pieces, String.toList_intercalate, hcomma, List.splitOn_intercalate ',' hfields (by simpa),
    List.map_map]
  simp [Function.comp_def]

theorem notMem_intercalate_fields {row : List String} (h : ∀ field ∈ row, '\n' ∉ field.toList) :
    '\n' ∉ (",".intercalate row).toList := by
  have hcomma : ",".toList = [','] := rfl
  rw [String.toList_intercalate, hcomma]
  refine notMem_intercalate (by decide) fun field hfield => ?_
  obtain ⟨f, hf, rfl⟩ := List.mem_map.mp hfield
  exact h f hf

theorem pieces_rowsText {rows : List (List String)}
    (h : ∀ row ∈ rows, ∀ field ∈ row, '\n' ∉ field.toList) :
    pieces '\n' (rowsText rows) = rows.map (fun row => ",".intercalate row) ++ [""] := by
  refine pieces_unlines fun line hline => ?_
  obtain ⟨row, hrow, rfl⟩ := List.mem_map.mp hline
  exact notMem_intercalate_fields (h row hrow)

/-! ### A print -/

/-- The length of the first column. -/
def height : List (Array String) → Nat
  | [] => 0
  | first :: _ => first.size

/-- The fields of columns row by row. -/
def fieldRows (columns : List (Array String)) : List (List String) :=
  (List.range (height columns)).map (fieldsAt columns)

theorem sideBySide_eq_ok_iff {columns : List (Array String)} {text : String} :
    sideBySide columns = .ok text ↔
      (∀ c ∈ columns, c.size = height columns) ∧ text = rowsText (fieldRows columns) := by
  cases columns with
  | nil => simp [sideBySide, fieldRows, height, rowsText, unlines, eq_comm]
  | cons first rest =>
    rw [sideBySide]
    split
    · rename_i c hc
      have hmem := List.mem_of_find?_eq_some hc
      have hsize : c.size ≠ first.size := by simpa using List.find?_some hc
      simp only [reduceCtorEq, false_iff, not_and]
      exact fun hall => absurd (hall c (List.mem_cons_of_mem _ hmem)) hsize
    · rename_i hnone
      have hall : ∀ c ∈ rest, c.size = first.size := by
        simpa [List.find?_eq_none] using hnone
      have heven : ∀ c ∈ first :: rest, c.size = height (first :: rest) :=
        List.forall_mem_cons.mpr ⟨rfl, hall⟩
      rw [Except.ok.injEq, rowsText, fieldRows, List.map_map]
      exact ⟨fun h => ⟨heven, h.symm⟩, fun h => h.2.symm⟩

/-- A vector alone is written as it would be beside others. -/
theorem printed_eq_sideBySide (args : List Printable) :
    printed args = sideBySide (args.map Printable.fields) := by
  unfold printed
  split
  · rename_i values
    symm
    rw [List.map_singleton, sideBySide_eq_ok_iff]
    refine ⟨fun c hc => by rw [List.mem_singleton.mp hc]; rfl, ?_⟩
    rw [vectorText, rowsText, fieldRows, List.map_map]
    refine congrArg unlines (List.ext_getElem ?_ fun i hi hi' => ?_)
    · simp [height, Printable.fields]
    · simp only [List.length_map] at hi
      simp [fieldsAt, Printable.fields, hi]
  · rfl

theorem printed_scalars {xs : List Scalar} (hne : xs ≠ []) :
    printed (xs.map .scalar) = .ok (rowsText [xs.map Scalar.field]) := by
  rw [printed_eq_sideBySide, sideBySide_eq_ok_iff]
  obtain ⟨x, rest, rfl⟩ := List.exists_cons_of_ne_nil hne
  constructor
  · intro c hc
    simp only [List.map_map, List.mem_map] at hc
    obtain ⟨y, -, rfl⟩ := hc
    rfl
  · simp [fieldRows, height, fieldsAt, Printable.fields, Function.comp_def]

/-! ### No negative zeros -/

/-- Rows of fields, none of which is a negative zero. -/
def IsPrintout (text : String) : Prop :=
  ∃ rows, text = rowsText rows ∧
    ∀ row ∈ rows, row ≠ [] ∧ ∀ field ∈ row, IsField field ∧ ¬ IsNegativeZero field

theorem isPrintout_empty : IsPrintout "" := ⟨[], rfl, fun _ h => by cases h⟩

theorem IsPrintout.append {text other : String} (h : IsPrintout text) (h' : IsPrintout other) :
    IsPrintout (text ++ other) := by
  obtain ⟨rows, rfl, hrows⟩ := h
  obtain ⟨others, rfl, hothers⟩ := h'
  refine ⟨rows ++ others, (rowsText_append rows others).symm, fun row hrow => ?_⟩
  rcases List.mem_append.mp hrow with hrow | hrow
  · exact hrows row hrow
  · exact hothers row hrow

/-- Split into lines and these at their commas, a printout has no negative
zero. -/
theorem IsPrintout.not_isNegativeZero {text : String} (h : IsPrintout text) :
    ∀ line ∈ pieces '\n' text, ∀ field ∈ pieces ',' line, ¬ IsNegativeZero field := by
  obtain ⟨rows, rfl, hrows⟩ := h
  rw [pieces_rowsText fun row hrow f hf => ((hrows row hrow).2 f hf).1.2]
  intro line hline
  rcases List.mem_append.mp hline with hline | hline
  · obtain ⟨row, hrow, rfl⟩ := List.mem_map.mp hline
    obtain ⟨hne, hfields⟩ := hrows row hrow
    rw [pieces_intercalate hne fun f hf => (hfields f hf).1.1]
    exact fun f hf => (hfields f hf).2
  · rw [List.mem_singleton.mp hline, pieces_of_notMem (by decide)]
    intro field hfield
    rw [List.mem_singleton.mp hfield]
    decide

/-- An argument of a print that is an average shows what it is. -/
def Printable.Shows : Printable → Prop
  | scalar (.average x) => x.Shows
  | _ => True

theorem Printable.field_cases {a : Printable} {field : String} (h : field ∈ a.fields) :
    (∃ v : Value, field = v.field) ∨ ∃ x, a = .scalar (.average x) ∧ field = averageField x := by
  match a with
  | .scalar (.value v) => exact .inl ⟨v, Array.mem_singleton.mp h⟩
  | .scalar (.average x) => exact .inr ⟨x, rfl, Array.mem_singleton.mp h⟩
  | .vector values =>
    obtain ⟨v, -, rfl⟩ := List.mem_map.mp (List.mem_toArray.mp h)
    exact .inl ⟨v, rfl⟩

theorem Printable.isField_of_mem_fields (a : Printable) : ∀ field ∈ a.fields, IsField field := by
  intro field hfield
  rcases field_cases hfield with ⟨v, rfl⟩ | ⟨x, -, rfl⟩
  · exact v.isField_field
  · exact x.isField_averageField

theorem Printable.field_of_shows {a : Printable} (h : a.Shows) :
    ∀ field ∈ a.fields, IsField field ∧ ¬ IsNegativeZero field := by
  intro field hfield
  refine ⟨a.isField_of_mem_fields field hfield, ?_⟩
  rcases field_cases hfield with ⟨v, rfl⟩ | ⟨x, rfl, rfl⟩
  · exact v.not_isNegativeZero_field
  · exact Binary64.Shows.not_isNegativeZero h

/-- Every row of columns of one length is made of fields of the columns, and there
is one. -/
theorem row_of_columns {columns : List (Array String)} {P : String → Prop}
    (hfields : ∀ c ∈ columns, ∀ field ∈ c, P field)
    (heven : ∀ c ∈ columns, c.size = height columns) {i : Nat} (hi : i < height columns) :
    fieldsAt columns i ≠ [] ∧ ∀ field ∈ fieldsAt columns i, P field := by
  constructor
  · -- a row of no fields would be one of no rows
    cases columns with
    | nil => exact absurd hi (Nat.not_lt_zero i)
    | cons c cs => exact List.cons_ne_nil _ _
  · intro field hfield
    obtain ⟨c, hc, rfl⟩ := List.mem_map.mp hfield
    have hsize : i < c.size := heven c hc ▸ hi
    refine hfields c hc _ ?_
    rw [Array.getD_eq_getD_getElem?, Array.getElem?_eq_getElem hsize]
    exact Array.getElem_mem hsize

/-- Every row of a print has a field for each argument, and none of these is a
negative zero. -/
theorem row_of_shows {args : List Printable} (hargs : ∀ a ∈ args, a.Shows)
    (heven : ∀ c ∈ args.map Printable.fields, c.size = height (args.map Printable.fields))
    {i : Nat} (hi : i < height (args.map Printable.fields)) :
    fieldsAt (args.map Printable.fields) i ≠ [] ∧
      ∀ field ∈ fieldsAt (args.map Printable.fields) i, IsField field ∧ ¬ IsNegativeZero field :=
  row_of_columns (List.forall_mem_map.mpr fun a ha => Printable.field_of_shows (hargs a ha)) heven hi

theorem isPrintout_printed {args : List Printable} {text : String} (hargs : ∀ a ∈ args, a.Shows)
    (h : printed args = .ok text) : IsPrintout text := by
  rw [printed_eq_sideBySide, sideBySide_eq_ok_iff] at h
  obtain ⟨heven, rfl⟩ := h
  refine ⟨_, rfl, fun row hrow => ?_⟩
  obtain ⟨i, hi, rfl⟩ := List.mem_map.mp hrow
  exact row_of_shows hargs heven (List.mem_range.mp hi)

/-- A single result stands on a line with the others, at its own place. -/
theorem exists_line_of_printed {args : List Printable} {text : String}
    (hargs : ∀ a ∈ args, a.Shows) (h : printed args = .ok text) {i : Nat} {x : Scalar}
    (hi : args[i]? = some (.scalar x)) :
    ∃ line, text = line ++ "\n" ∧ '\n' ∉ line.toList ∧ (pieces ',' line)[i]? = some x.field := by
  rw [printed_eq_sideBySide, sideBySide_eq_ok_iff] at h
  obtain ⟨heven, rfl⟩ := h
  have hmem : (Printable.scalar x).fields ∈ args.map Printable.fields :=
    List.mem_map.mpr ⟨_, List.mem_of_getElem? hi, rfl⟩
  have hone : height (args.map Printable.fields) = 1 := (heven _ hmem).symm
  obtain ⟨hne, hfields⟩ := row_of_shows hargs heven (i := 0) (by omega)
  refine ⟨",".intercalate (fieldsAt (args.map Printable.fields) 0), ?_,
    notMem_intercalate_fields fun f hf => (hfields f hf).1.2, ?_⟩
  · rw [fieldRows, hone]
    simp [rowsText, unlines]
  · rw [pieces_intercalate hne fun f hf => (hfields f hf).1.1, fieldsAt, List.map_map,
      List.getElem?_map, hi]
    rfl

namespace Session

/-! ### The averages of a session -/

/-- Every average that a variable holds shows what it is. -/
def Shows (s : Session) : Prop :=
  ∀ name x, s.bindings name = some (.scalar (.average x)) → x.Shows

theorem shows_start (c : Catalog) : (start c).Shows := fun _ _ h => by cases h

/-- An aggregate gives an average only as it rounds it. -/
theorem shows_of_apply {function : Aggregate} {values : List Value} {x : Binary64}
    (h : function.apply values = .ok (.average x)) : x.Shows := by
  cases function with
  | average =>
    cases h
    exact shows_averageOf values
  | sum =>
    cases hsum : sumOf values <;> simp [Aggregate.apply, hsum, Except.map] at h
  | least =>
    cases hleast : leastOf values <;> simp [Aggregate.apply, hleast, Except.map] at h
  | greatest =>
    cases hgreatest : greatestOf values <;> simp [Aggregate.apply, hgreatest, Except.map] at h

theorem shows_after_assign {s : Session} (hs : s.Shows) {target : String} {b : Binding}
    (hb : ∀ x, b = .scalar (.average x) → x.Shows) : (s.after (.assign target b)).Shows := by
  intro name x hx
  by_cases hname : name = target
  · subst hname
    rw [bindings_after_assign, Option.some.injEq] at hx
    exact hb x hx
  · rw [bindings_after_assign_of_ne s b hname] at hx
    exact hs name x hx

theorem shows_after {s : Session} (hs : s.Shows) {c : Command} {e : Effect}
    (h : Performs s c e) : (s.after e).Shows := by
  cases h with
  | aggregate hvalues hresult =>
    refine shows_after_assign hs fun x hx => ?_
    cases hx
    exact shows_of_apply hresult
  | select | selectFrom | fetch | arithmetic => exact shows_after_assign hs fun x hx => by cases hx
  | _ => exact hs

theorem shows_visit {s : Session} (hs : s.Shows) (cs : List Command) : (s.visit cs).2.Shows :=
  @visit_induction (fun _ s => s.Shows) (fun hs h => shows_after hs h) cs [] s hs

theorem shows_of_printable {s : Session} (hs : s.Shows) {name : String} {a : Printable}
    (h : s.printable name = .ok a) : a.Shows := by
  rw [printable, bind_eq_ok_iff] at h
  obtain ⟨b, hb, ha⟩ := h
  rw [lookup_eq_ok_iff] at hb
  cases b with
  | selection sel => cases ha
  | vector values source =>
    cases ha
    trivial
  | scalar x =>
    cases ha
    cases x with
    | value v => trivial
    | average x => exact hs name x hb

theorem shows_of_mapM_printable {s : Session} (hs : s.Shows) {names : List String}
    {args : List Printable} (h : names.mapM s.printable = .ok args) : ∀ a ∈ args, a.Shows := by
  intro a ha
  have hmem : (.ok a : Except Fault Printable) ∈ names.map s.printable := by
    rw [mapM_eq_ok_iff.mp h]
    exact List.mem_map.mpr ⟨a, ha, rfl⟩
  obtain ⟨name, -, hname⟩ := List.mem_map.mp hmem
  exact shows_of_printable hs hname

/-! ### A run -/

/-- A run of two scripts one after another that succeeds is two runs. -/
theorem exists_run_of_append {s last : Session} {cs ds : List Command} {output : String}
    (h : s.run (cs ++ ds) = (.ok output, last)) :
    ∃ above below mid, s.run cs = (.ok above, mid) ∧ mid.run ds = (.ok below, last) ∧
      output = above ++ below := by
  rcases hcs : s.run cs with ⟨fault | above, mid⟩
  · rw [run, runFrom_append, ← run, hcs] at h
    cases h
  · rw [run_append hcs] at h
    rcases hds : mid.run ds with ⟨fault | below, last'⟩
    · rw [hds] at h
      cases h
    · rw [hds] at h
      cases h
      exact ⟨above, below, mid, rfl, hds, rfl⟩

theorem exists_effect_of_run {s last : Session} {c : Command} {cs : List Command} {output : String}
    (h : s.run (c :: cs) = (.ok output, last)) :
    ∃ e below, s.effect c = .ok e ∧ (s.after e).run cs = (.ok below, last) ∧
      output = e.text ++ below := by
  rcases he : s.effect c with fault | e
  · rw [run_cons_error he] at h
    cases h
  · rw [run_cons_ok he] at h
    rcases hcs : (s.after e).run cs with ⟨fault | below, last'⟩
    · rw [hcs] at h
      cases h
    · rw [hcs] at h
      cases h
      exact ⟨e, below, rfl, hcs, rfl⟩

theorem isPrintout_text {s : Session} (hs : s.Shows) {c : Command} {e : Effect}
    (h : Performs s c e) : IsPrintout e.text := by
  cases h with
  | print hargs htext => exact isPrintout_printed (shows_of_mapM_printable hs hargs) htext
  | _ => exact isPrintout_empty

/-- What a run prints is what its commands print. -/
theorem isPrintout_of_run {cs : List Command} : ∀ {s last : Session} {output : String},
    s.Shows → s.run cs = (.ok output, last) → IsPrintout output ∧ last.Shows := by
  induction cs with
  | nil =>
    intro s last output hs h
    cases h
    exact ⟨isPrintout_empty, hs⟩
  | cons c cs ih =>
    intro s last output hs h
    obtain ⟨e, below, he, hrun, rfl⟩ := exists_effect_of_run h
    have hperforms := performs_of_effect he
    obtain ⟨hbelow, hlast⟩ := ih (shows_after hs hperforms) hrun
    exact ⟨(isPrintout_text hs hperforms).append hbelow, hlast⟩

/-- **Nothing is printed as a negative zero.** In a session on any catalog,
after whatever was done in it before, a script that succeeds prints no field
`-0` or `-0.00`. And wherever it prints a variable that holds an average, it
prints one line, in which the field at the place of the variable is a word for
infinity or a number with two places. -/
theorem fields_of_run (catalog : Catalog) (earlier commands : List Command) {output : String}
    {last : Session}
    (h : ((start catalog).visit earlier).2.run commands = (.ok output, last)) :
    (∀ line ∈ pieces '\n' output, ∀ field ∈ pieces ',' line, field ≠ "-0" ∧ field ≠ "-0.00") ∧
    ∀ before (names : List String) after, commands = before ++ .print names :: after →
      ∃ above text below mid, output = above ++ text ++ below ∧
        ((start catalog).visit earlier).2.run before = (.ok above, mid) ∧
        mid.effect (.print names) = .ok (.output text) ∧
        ∀ (i : Nat) name x, names[i]? = some name → mid.bindings name = some (.scalar (.average x)) →
          ∃ line, text = line ++ "\n" ∧ '\n' ∉ line.toList ∧
            (pieces ',' line)[i]? = some (averageField x) ∧ IsAverageText (averageField x) := by
  have hs : ((start catalog).visit earlier).2.Shows := shows_visit (shows_start catalog) earlier
  constructor
  · intro line hline field hfield
    obtain ⟨hprintout, -⟩ := isPrintout_of_run hs h
    exact ne_of_not_isNegativeZero (hprintout.not_isNegativeZero line hline field hfield)
  · rintro before names after rfl
    obtain ⟨above, rest, mid, hbefore, hrest, rfl⟩ := exists_run_of_append h
    obtain ⟨e, below, he, -, rfl⟩ := exists_effect_of_run hrest
    obtain ⟨-, hmid⟩ := isPrintout_of_run hs hbefore
    cases performs_of_effect he with
    | @print _ args text hargs htext =>
      refine ⟨above, text, below, mid, String.append_assoc.symm, hbefore, he, ?_⟩
      intro i name x hi hx
      have hshows := shows_of_mapM_printable hmid hargs
      have harg : args[i]? = some (.scalar (.average x)) := by
        have hmap := congrArg (·[i]?) (mapM_eq_ok_iff.mp hargs)
        simp only [List.getElem?_map, hi, Option.map_some, printable_of_scalar hx] at hmap
        obtain ⟨a, ha, heq⟩ := Option.map_eq_some_iff.mp hmap.symm
        cases heq
        exact ha
      obtain ⟨line, hline, hnewline, hfield⟩ := exists_line_of_printed hshows htext harg
      exact ⟨line, hline, hnewline, hfield, x.isAverageText_averageField⟩

/-- A thousandth below zero, and the negative zero. -/
def belowZero : Catalog :=
  Catalog.empty.register
    ⟨"t", [⟨"x", #[.float (Binary64.ofRatio true Magnitude.one 1000),
      .float (Binary64.zero true)]⟩], 2, by decide, by decide⟩

/-- The average of the two and the lesser of them. -/
def averageAndLeast : List Command :=
  [.aggregate "a" .average (.stored "t.x"), .aggregate "m" .least (.stored "t.x"),
   .print ["a", "m"]]

/-- The average is half a thousandth below zero and printed as zero; the lesser
number keeps its sign. -/
theorem fields_of_run_belowZero :
    ∃ last, ((start belowZero).visit []).2.run averageAndLeast = (.ok "0.00,-0.001\n", last) ∧
      ∀ line ∈ pieces '\n' "0.00,-0.001\n", ∀ field ∈ pieces ',' line,
        field ≠ "-0" ∧ field ≠ "-0.00" := by
  have houtput : (((start belowZero).visit []).2.run averageAndLeast).1 =
      .ok "0.00,-0.001\n" := by decide +kernel
  rcases hrun : ((start belowZero).visit []).2.run averageAndLeast with ⟨result, last⟩
  rw [hrun] at houtput
  cases houtput
  exact ⟨last, rfl, (fields_of_run belowZero [] averageAndLeast hrun).1⟩

end Session
end Columnar
