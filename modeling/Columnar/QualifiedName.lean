/-
# Qualified names

A column is named in a script by its table and its own name with a dot
between, and a table's name holds dots of its own: what follows the last dot
is the column, all before it the table.

Key definitions: `qualify`, `splitAtLast`, `splitQualified`.
Key theorems: `splitAtLast_eq_some_iff`, `splitAtLast_eq_none_iff`.
-/
import Columnar.Fault

namespace Columnar

/-- The name of a column together with its table's. -/
def qualify (table column : String) : String := table ++ "." ++ column

/-- What stands before and after the last occurrence of `c`. -/
def splitAtLast (c : Char) : List Char → Option (List Char × List Char)
  | [] => none
  | x :: xs =>
    match splitAtLast c xs with
    | some (before, after) => some (x :: before, after)
    | none => if x = c then some ([], xs) else none

/-- Table and column of a qualified name. -/
def splitQualified (name : String) : Except Fault (String × String) :=
  match splitAtLast '.' name.toList with
  | some (table, column) => .ok (String.ofList table, String.ofList column)
  | none => .error (.unknownColumn name)

theorem splitAtLast_eq_none_iff {c : Char} : ∀ {l : List Char},
    splitAtLast c l = none ↔ c ∉ l
  | [] => by simp [splitAtLast]
  | x :: xs => by
    rw [splitAtLast]
    have ih := @splitAtLast_eq_none_iff c xs
    cases h : splitAtLast c xs with
    | some p => simp only [reduceCtorEq, List.mem_cons, not_or, false_iff, not_and, Decidable.not_not]
                rw [h] at ih
                simp only [reduceCtorEq, false_iff, Decidable.not_not] at ih
                exact fun _ => ih
    | none =>
      have hxs : c ∉ xs := ih.mp h
      by_cases hx : x = c
      · simp [hx]
      · simp [hx, hxs, Ne.symm hx]

/-- The split gives back the text, and no occurrence comes after it. -/
theorem splitAtLast_eq_some_iff {c : Char} : ∀ {l before after : List Char},
    splitAtLast c l = some (before, after) ↔ l = before ++ c :: after ∧ c ∉ after
  | [], before, after => by simp [splitAtLast]
  | x :: xs, before, after => by
    rw [splitAtLast]
    cases h : splitAtLast c xs with
    | some p =>
      obtain ⟨b, a⟩ := p
      obtain ⟨hxs, ha⟩ := splitAtLast_eq_some_iff.mp h
      simp only [Option.some.injEq, Prod.mk.injEq]
      constructor
      · rintro ⟨rfl, rfl⟩
        exact ⟨by rw [hxs, List.cons_append], ha⟩
      · rintro ⟨hl, hn⟩
        cases before with
        | nil =>
          rw [List.nil_append, List.cons.injEq] at hl
          exact absurd (by rw [← hl.2, hxs]; simp) hn
        | cons y ys =>
          rw [List.cons_append, List.cons.injEq] at hl
          have := splitAtLast_eq_some_iff.mpr ⟨hl.2, hn⟩
          rw [h, Option.some.injEq, Prod.mk.injEq] at this
          exact ⟨by rw [hl.1, this.1], this.2⟩
    | none =>
      have hxs : c ∉ xs := splitAtLast_eq_none_iff.mp h
      by_cases hx : x = c
      · simp only [hx, if_true, Option.some.injEq, Prod.mk.injEq]
        constructor
        · rintro ⟨rfl, rfl⟩
          exact ⟨rfl, hxs⟩
        · rintro ⟨hl, hn⟩
          cases before with
          | nil =>
            rw [List.nil_append, List.cons.injEq] at hl
            exact ⟨rfl, hl.2⟩
          | cons y ys =>
            rw [List.cons_append, List.cons.injEq] at hl
            exact absurd (by rw [hl.2]; simp) hxs
      · simp only [hx, if_false, reduceCtorEq, false_iff, not_and]
        intro hl
        cases before with
        | nil =>
          rw [List.nil_append, List.cons.injEq] at hl
          exact absurd hl.1 hx
        | cons y ys =>
          rw [List.cons_append, List.cons.injEq] at hl
          exact absurd (by rw [hl.2]; simp) hxs

end Columnar
