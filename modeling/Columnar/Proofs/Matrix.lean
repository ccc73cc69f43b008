/-
# A print is the matrix of its fields

A print succeeds if and only if its arguments are equally long, a single result being
of length one; otherwise the first argument that is not as long as the first of all
is the one reported. The text has a line for each item and in it a field for each
argument. The items stand where they belong: cut at its newlines, and the lines at
their commas, the text gives back item `i` of argument `j` as field `j` of line `i`,
since no item has a comma or a newline in it. This holds of a vector alone as it does
of several arguments, although it is written in another way.

Key definitions: `Printable.length`.
Key theorems: `getElem?_fieldRows`, `printed_eq_error_iff`, `printed_eq_ok_iff`,
`printed_matrix`.
-/
import Columnar.Proofs.Printing

namespace Columnar

open Script (IsField)

/-! ### Arguments -/

namespace Printable

/-- The number of items: a single result is one. -/
def length : Printable → Nat
  | scalar _ => 1
  | vector values => values.length

theorem size_fields (a : Printable) : a.fields.size = a.length := by
  cases a with
  | scalar s => rfl
  | vector values => simp [fields, length]

end Printable

/-! ### Rows and columns -/

/-- Of columns of one length the rows have the fields at the same places. -/
theorem getElem?_fieldRows {columns : List (Array String)}
    (heven : ∀ c ∈ columns, c.size = height columns) (i j : Nat) :
    (fieldRows columns)[i]?.bind (·[j]?) = columns[j]?.bind (·[i]?) := by
  rw [fieldRows, List.getElem?_map]
  by_cases hi : i < height columns
  · rw [List.getElem?_range hi, Option.map_some, Option.bind_some, fieldsAt, List.getElem?_map]
    cases hj : columns[j]? with
    | none => rfl
    | some c =>
      have hsize : i < c.size := heven c (List.mem_of_getElem? hj) ▸ hi
      rw [Option.map_some, Option.bind_some, Array.getD_eq_getD_getElem?,
        Array.getElem?_eq_getElem hsize, Option.getD_some]
  · -- no row is there, and no column reaches so far
    have hnone : (List.range (height columns))[i]? = none := by simpa using hi
    rw [hnone, Option.map_none, Option.bind_none]
    cases hj : columns[j]? with
    | none => rfl
    | some c =>
      have hsize : c.size ≤ i := heven c (List.mem_of_getElem? hj) ▸ Nat.le_of_not_lt hi
      rw [Option.bind_some, Array.getElem?_eq_none hsize]

/-! ### A print -/

section

variable {args : List Printable}

theorem printed_cons_eq_error_iff {first : Printable} {rest : List Printable} {fault : Fault} :
    printed (first :: rest) = .error fault ↔
      ∃ other, rest.find? (fun a => a.length ≠ first.length) = some other ∧
        fault = .lengthMismatch first.length other.length := by
  rw [printed_eq_sideBySide, List.map_cons, sideBySide, List.find?_map]
  simp only [Function.comp_def, Printable.size_fields]
  cases rest.find? fun a => a.length ≠ first.length with
  | none => simp
  | some other => simp [Printable.size_fields, eq_comm]

/-- **A print fails** at the first argument that is not as long as the first of all,
and reports the two lengths. -/
theorem printed_eq_error_iff {fault : Fault} :
    printed args = .error fault ↔
      ∃ first same other rest, args = first :: (same ++ other :: rest) ∧
        (∀ a ∈ same, a.length = first.length) ∧ other.length ≠ first.length ∧
        fault = .lengthMismatch first.length other.length := by
  cases args with
  | nil => simp [printed, sideBySide]
  | cons first rest =>
    simp only [printed_cons_eq_error_iff, List.find?_eq_some_iff_append]
    constructor
    · rintro ⟨other, ⟨hother, same, rest, rfl, hsame⟩, rfl⟩
      exact ⟨first, same, other, rest, rfl, by simpa using hsame, by simpa using hother, rfl⟩
    · rintro ⟨first', same, other, rest', hsplit, hsame, hother, rfl⟩
      obtain ⟨rfl, rfl⟩ := List.cons.inj hsplit
      exact ⟨other, ⟨by simpa using hother, same, rest', rfl, by simpa using hsame⟩, rfl⟩

/-- **Arguments of one length are written row by row**, and no others. -/
theorem printed_eq_ok_iff {text : String} :
    printed args = .ok text ↔
      (∀ c ∈ args.map Printable.fields, c.size = height (args.map Printable.fields)) ∧
        text = rowsText (fieldRows (args.map Printable.fields)) := by
  rw [printed_eq_sideBySide, sideBySide_eq_ok_iff]

section

variable {text : String} (h : printed args = .ok text)

include h

theorem length_of_printed :
    ∀ a ∈ args, a.length = (fieldRows (args.map Printable.fields)).length := by
  intro a ha
  rw [fieldRows, List.length_map, List.length_range, ← a.size_fields]
  exact (printed_eq_ok_iff.mp h).1 _ (List.mem_map_of_mem ha)

/-- Every row has a field for each argument, with no comma and no newline in it. -/
theorem row_of_printed : ∀ row ∈ fieldRows (args.map Printable.fields),
    row.length = args.length ∧ row ≠ [] ∧ ∀ field ∈ row, IsField field := by
  intro row hrow
  obtain ⟨i, hi, rfl⟩ := List.mem_map.mp hrow
  have hfields : ∀ c ∈ args.map Printable.fields, ∀ field ∈ c, IsField field :=
    List.forall_mem_map.mpr fun a _ => a.isField_of_mem_fields
  refine ⟨?_, row_of_columns hfields (printed_eq_ok_iff.mp h).1 (List.mem_range.mp hi)⟩
  rw [fieldsAt, List.length_map, List.length_map]

/-- The lines are the rows with commas between the fields. -/
theorem pieces_of_printed :
    pieces '\n' text = (fieldRows (args.map Printable.fields)).map (",".intercalate ·) ++ [""] := by
  rw [(printed_eq_ok_iff.mp h).2]
  exact pieces_rowsText fun row hrow field hfield => ((row_of_printed h row hrow).2.2 field hfield).2

theorem pieces_of_row : ∀ row ∈ fieldRows (args.map Printable.fields),
    pieces ',' (",".intercalate row) = row := by
  intro row hrow
  obtain ⟨-, hne, hfields⟩ := row_of_printed h row hrow
  exact pieces_intercalate hne fun field hfield => (hfields field hfield).1

end

theorem exists_printed_error_iff :
    (∃ fault, printed args = .error fault) ↔ ∃ a ∈ args, ∃ b ∈ args, a.length ≠ b.length := by
  constructor
  · rintro ⟨fault, h⟩
    obtain ⟨first, same, other, rest, rfl, -, hother, -⟩ := printed_eq_error_iff.mp h
    exact ⟨other, List.mem_cons_of_mem first List.mem_append_cons_self, first,
      List.mem_cons_self, hother⟩
  · rintro ⟨a, ha, b, hb, hne⟩
    cases h : printed args with
    | error fault => exact ⟨fault, rfl⟩
    | ok text => exact absurd ((length_of_printed h a ha).trans (length_of_printed h b hb).symm) hne

end

/-- **A print is the matrix of its fields.** It fails if and only if two arguments
differ in length, at the first that differs from the first of all. Otherwise it has
as many lines as every argument has items, each with its newline. Cut at its commas,
a line has a field for each argument: item `i` of argument `j` is field `j` of line
`i`. A vector alone, which takes a shorter way, is written as it would be beside
others. -/
theorem printed_matrix (args : List Printable) :
    ((∃ fault, printed args = .error fault) ↔ ∃ a ∈ args, ∃ b ∈ args, a.length ≠ b.length) ∧
    (∀ fault, printed args = .error fault ↔
      ∃ first same other rest, args = first :: (same ++ other :: rest) ∧
        (∀ a ∈ same, a.length = first.length) ∧ other.length ≠ first.length ∧
        fault = .lengthMismatch first.length other.length) ∧
    (∀ text, printed args = .ok text →
      ∃ lines, text = unlines lines ∧ pieces '\n' text = lines ++ [""] ∧
        (∀ a ∈ args, a.length = lines.length) ∧ (args = [] → lines = []) ∧
        (∀ line ∈ lines, (pieces ',' line).length = args.length) ∧
        ∀ i j : Nat, lines[i]?.bind (fun line => (pieces ',' line)[j]?) =
          args[j]?.bind (·.fields[i]?)) ∧
    printed args = sideBySide (args.map Printable.fields) := by
  refine ⟨exists_printed_error_iff, fun fault => printed_eq_error_iff, fun text h => ?_,
    printed_eq_sideBySide args⟩
  obtain ⟨heven, htext⟩ := printed_eq_ok_iff.mp h
  refine ⟨_, htext, pieces_of_printed h, fun a ha => ?_, ?_, ?_, fun i j => ?_⟩
  · rw [List.length_map]
    exact length_of_printed h a ha
  · rintro rfl
    rfl
  · refine List.forall_mem_map.mpr fun row hrow => ?_
    rw [pieces_of_row h row hrow]
    exact (row_of_printed h row hrow).1
  · calc ((fieldRows (args.map Printable.fields)).map (",".intercalate ·))[i]?.bind
          (fun line => (pieces ',' line)[j]?)
        = (fieldRows (args.map Printable.fields))[i]?.bind (·[j]?) := by
          rw [List.getElem?_map, Option.bind_map]
          refine Option.bind_congr fun row hrow => ?_
          rw [Function.comp_apply, pieces_of_row h row (List.mem_of_getElem? hrow)]
      _ = (args.map Printable.fields)[j]?.bind (·[i]?) := getElem?_fieldRows heven i j
      _ = args[j]?.bind (·.fields[i]?) := by
          rw [List.getElem?_map, Option.bind_map]
          rfl

/-- A vector beside two results that are no vectors, and one of another length. -/
example :
    printed [.vector [.int 4], .scalar (.value (.int (-2))), .scalar (.average .nan)] =
        .ok "4,-2,0.00\n" ∧
      printed [.vector [.int 4, .int 0], .vector [.int 7, .int 1], .scalar (.value (.int 1))] =
        .error (.lengthMismatch 2 1) := by
  decide +kernel

end Columnar
