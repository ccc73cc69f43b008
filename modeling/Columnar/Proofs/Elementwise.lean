/-
# Elementwise results

Two vectors of one length have a result at each index, or one of their pairs fails
and the whole vector with it. A pair fails only if both values are integers and 64
bits do not hold the exact result (`Arithmetic.apply_eq_error_iff`).

Two vectors of integers are read as rows with two columns. A third column is their
result if and only if it is so in every row, exactly (`Arithmetic.apply_columns_iff`).
Laws of exact integers are therefore laws of vectors, without a word on overflow:
what is added can be exchanged, what was added or subtracted can be undone, and the
sum of a column of results is the result of the sums of the columns.

Key definitions: `Arithmetic.Overflows`, `Arithmetic.inverse`.
Key theorems: `Arithmetic.apply_eq_ok_iff`, `Arithmetic.apply_eq_error_iff`,
`Arithmetic.apply_columns_iff`, `Arithmetic.apply_undo`, `Arithmetic.apply_any`.
-/
import Columnar.Proofs.Sums

namespace Columnar
namespace Arithmetic

/-- Whether two integers stand at one index with a result that 64 bits do not
hold. -/
def Overflows (op : Arithmetic) (left right : List Value) : Prop :=
  ∃ (i : Nat) (m n : Int64), left[i]? = some (.int m) ∧ right[i]? = some (.int n) ∧
    ¬ InInt64 (op.onInts m.toInt n.toInt)

/-- The operation that takes back what was done. -/
def inverse : Arithmetic → Arithmetic
  | add => subtract
  | subtract => add

/-! ### One pair -/

theorem onValues_int (op : Arithmetic) (m n : Int64) :
    op.onValues (.int m) (.int n) = Value.exact (op.onInts m.toInt n.toInt) := by
  cases op <;> rfl

theorem onValues_eq_error_iff {op : Arithmetic} {v w : Value} {fault : Fault} :
    op.onValues v w = .error fault ↔
      fault = .overflow ∧
        ∃ m n, v = .int m ∧ w = .int n ∧ ¬ InInt64 (op.onInts m.toInt n.toInt) := by
  match v, w with
  | .int m, .int n =>
    rw [onValues_int, Value.exact_eq, ite_eq_error_iff]
    simp
  | .int m, .float y => cases op <;> simp [onValues, Value.add, Value.subtract]
  | .float x, w => cases op <;> simp [onValues, Value.add, Value.subtract]

/-! ### Two vectors -/

section

variable {op : Arithmetic} {left right : List Value}

/-- **A result stands at every index** of vectors of one length. -/
theorem apply_eq_ok_iff {results : List Value} :
    op.apply left right = .ok results ↔
      left.length = right.length ∧ List.zipWith op.onValues left right = results.map .ok := by
  unfold apply
  split
  · rename_i hlength
    rw [mapM_eq_ok_iff, List.map_zip_eq_zipWith, and_iff_right hlength]
    rfl
  · rename_i hlength
    simp [hlength]

theorem length_of_apply {results : List Value} (h : op.apply left right = .ok results) :
    results.length = left.length := by
  obtain ⟨hlength, hresults⟩ := apply_eq_ok_iff.mp h
  have hmap := congrArg List.length hresults
  rw [List.length_zipWith, ← hlength, Nat.min_self, List.length_map] at hmap
  exact hmap.symm

theorem result_of_apply {results : List Value} (h : op.apply left right = .ok results) {i : Nat}
    {v w : Value} (hv : left[i]? = some v) (hw : right[i]? = some w) :
    ∃ r, results[i]? = some r ∧ op.onValues v w = .ok r := by
  have hplaces := congrArg (·[i]?) (apply_eq_ok_iff.mp h).2
  simp only [List.getElem?_zipWith, hv, hw, List.getElem?_map] at hplaces
  obtain ⟨r, hr, hresult⟩ := Option.map_eq_some_iff.mp hplaces.symm
  exact ⟨r, hr, hresult.symm⟩

theorem Overflows.apply_ne_ok (h : op.Overflows left right) {results : List Value} :
    op.apply left right ≠ .ok results := by
  intro hok
  obtain ⟨i, m, n, hm, hn, hfits⟩ := h
  obtain ⟨r, -, hresult⟩ := result_of_apply hok hm hn
  rw [onValues_eq_error_iff.mpr ⟨rfl, m, n, rfl, rfl, hfits⟩] at hresult
  cases hresult

theorem overflows_of_apply_eq_error (hlength : left.length = right.length) {fault : Fault}
    (h : op.apply left right = .error fault) : fault = .overflow ∧ op.Overflows left right := by
  rw [apply, if_pos hlength, mapM_eq_error_iff] at h
  obtain ⟨front, ⟨v, w⟩, rest, hsplit, -, hfails⟩ := h
  obtain ⟨hfault, m, n, rfl, rfl, hfits⟩ := onValues_eq_error_iff.mp hfails
  have hpair : (left.zip right)[front.length]? = some (.int m, .int n) := by
    rw [hsplit, List.getElem?_append_right (Nat.le_refl _), Nat.sub_self]
    rfl
  obtain ⟨hm, hn⟩ := List.getElem?_zip_eq_some.mp hpair
  exact ⟨hfault, front.length, m, n, hm, hn, hfits⟩

/-- **Two vectors have no result** if their lengths differ, which is found first, or
if two integers at one index overflow. -/
theorem apply_eq_error_iff {fault : Fault} :
    op.apply left right = .error fault ↔
      (left.length ≠ right.length ∧ fault = .lengthMismatch left.length right.length) ∨
      (left.length = right.length ∧ fault = .overflow ∧ op.Overflows left right) := by
  by_cases hlength : left.length = right.length
  · simp only [hlength, ne_eq, not_true_eq_false, false_and, false_or, true_and]
    constructor
    · exact overflows_of_apply_eq_error hlength
    · rintro ⟨rfl, hoverflows⟩
      cases h : op.apply left right with
      | ok results => exact absurd h hoverflows.apply_ne_ok
      | error fault => rw [(overflows_of_apply_eq_error hlength h).1]
  · rw [apply_of_length_ne hlength]
    simp [hlength, eq_comm]

end

/-! ### Columns of integers -/

theorem onInts_inverse_iff (op : Arithmetic) {x y z : Int} :
    x = op.inverse.onInts z y ↔ z = op.onInts x y := by
  cases op with
  | add =>
    show x = z - y ↔ z = x + y
    omega
  | subtract =>
    show x = z + y ↔ z = x - y
    omega

section

variable {ρ : Type} {rows : List ρ} {f g h : ρ → Int64} {op : Arithmetic}

theorem exists_column_of_apply {results : List Value}
    (happly : op.apply (ints (integersOf f rows)) (ints (integersOf g rows)) = .ok results) :
    ∃ h : ρ → Int64, results = ints (integersOf h rows) ∧
      ∀ r ∈ rows, (h r).toInt = op.onInts (f r).toInt (g r).toInt := by
  rw [apply_ints] at happly
  split at happly
  · rename_i hfits
    cases happly
    have hexact : ∀ r ∈ rows, (Int64.ofInt (op.onInts (f r).toInt (g r).toInt)).toInt =
        op.onInts (f r).toInt (g r).toInt :=
      fun r hr => Value.toInt_ofInt (hfits _ (List.mem_map.mpr ⟨r, hr, rfl⟩))
    refine ⟨fun r => Int64.ofInt (op.onInts (f r).toInt (g r).toInt), ?_, hexact⟩
    exact congrArg ints (List.map_congr_left fun r hr => (hexact r hr).symm)
  · cases happly

theorem map_int_column (f : ρ → Int64) (rows : List ρ) :
    (rows.map f).map Value.int = ints (integersOf f rows) := by
  rw [map_int_eq_ints, List.map_map]
  rfl

theorem exact_of_sumOf_column {v : Value} (h : sumOf (ints (integersOf f rows)) = .ok v) :
    ∃ n, v = .int n ∧ n.toInt = (integersOf f rows).sum := by
  rw [← map_int_column] at h
  obtain ⟨n, rfl, hn⟩ := exact_of_sumOf_int64 h
  rw [List.map_map] at hn
  exact ⟨n, rfl, hn⟩

theorem integersOf_eq_iff {f g : ρ → Int64} :
    ints (integersOf f rows) = ints (integersOf g rows) ↔ ∀ r ∈ rows, f r = g r := by
  simp only [ints, integersOf, List.map_map, List.map_inj_left, Function.comp_apply,
    ← Value.int_eq_ofInt, Value.int.injEq]

/-- **A column is the result of two** if it is so, exactly, in every row. -/
theorem apply_columns_iff :
    op.apply (ints (integersOf f rows)) (ints (integersOf g rows)) = .ok (ints (integersOf h rows)) ↔
      ∀ r ∈ rows, (h r).toInt = op.onInts (f r).toInt (g r).toInt := by
  constructor
  · intro happly
    obtain ⟨k, hk, hexact⟩ := exists_column_of_apply happly
    intro r hr
    rw [integersOf_eq_iff.mp hk r hr]
    exact hexact r hr
  · intro hexact
    have hresults : op.results f g rows = integersOf h rows :=
      List.map_congr_left fun r hr => (hexact r hr).symm
    rw [apply_ints, hresults, if_pos (inInt64_integersOf h rows)]

/-- The sum of the results is the result of the sums. -/
theorem sum_of_results : ∀ {rows : List ρ},
    (∀ r ∈ rows, (h r).toInt = op.onInts (f r).toInt (g r).toInt) →
    (integersOf h rows).sum = op.onInts (integersOf f rows).sum (integersOf g rows).sum
  | [], _ => by cases op <;> rfl
  | r :: rows, hexact => by
    obtain ⟨hr, hrows⟩ := List.forall_mem_cons.mp hexact
    have ih := sum_of_results hrows
    simp only [integersOf, List.map_cons, List.sum_cons] at ih ⊢
    rw [hr, ih]
    cases op <;> simp only [onInts] <;> omega

end

/-! ### Vectors of integers -/

theorem exists_rows {xs ys : List Int64} (h : xs.length = ys.length) :
    ∃ rows : List (Int64 × Int64), xs.map Value.int = ints (integersOf Prod.fst rows) ∧
      ys.map Value.int = ints (integersOf Prod.snd rows) := by
  have hfst : (xs.zip ys).map Prod.fst = xs := List.map_fst_zip (Nat.le_of_eq h)
  have hsnd : (xs.zip ys).map Prod.snd = ys := List.map_snd_zip (Nat.le_of_eq h.symm)
  refine ⟨xs.zip ys, ?_, ?_⟩
  · rw [← map_int_column, hfst]
  · rw [← map_int_column, hsnd]

section

variable {op : Arithmetic} {xs ys : List Int64} {results : List Value}

/-- Two vectors of integers that have a result, read as columns: the results are a
third column. -/
theorem exists_columns (h : op.apply (xs.map .int) (ys.map .int) = .ok results) :
    ∃ (rows : List (Int64 × Int64)) (third : Int64 × Int64 → Int64),
      xs.map Value.int = ints (integersOf Prod.fst rows) ∧
      ys.map Value.int = ints (integersOf Prod.snd rows) ∧
      results = ints (integersOf third rows) ∧
      ∀ r ∈ rows, (third r).toInt = op.onInts r.1.toInt r.2.toInt := by
  have hlength : xs.length = ys.length := by simpa using (apply_eq_ok_iff.mp h).1
  obtain ⟨rows, hxs, hys⟩ := exists_rows hlength
  rw [hxs, hys] at h
  obtain ⟨third, hresults, hexact⟩ := exists_column_of_apply h
  exact ⟨rows, third, hxs, hys, hresults, hexact⟩

/-- **What was done can be undone.** -/
theorem apply_undo (h : op.apply (xs.map .int) (ys.map .int) = .ok results) :
    op.inverse.apply results (ys.map .int) = .ok (xs.map .int) := by
  obtain ⟨rows, third, hxs, hys, rfl, hexact⟩ := exists_columns h
  rw [hxs, hys, apply_columns_iff]
  exact fun r hr => (onInts_inverse_iff op).mpr (hexact r hr)

/-- Either vector can be added to the other. -/
theorem apply_add_comm (h : add.apply (xs.map .int) (ys.map .int) = .ok results) :
    add.apply (ys.map .int) (xs.map .int) = .ok results := by
  obtain ⟨rows, third, hxs, hys, rfl, hexact⟩ := exists_columns h
  rw [hxs, hys, apply_columns_iff]
  exact fun r hr => (hexact r hr).trans (Int.add_comm _ _)

/-- **The sum of results is the result of the sums**, where there are these sums. -/
theorem sumOf_results (h : op.apply (xs.map .int) (ys.map .int) = .ok results) {s t u : Value}
    (hs : sumOf (xs.map .int) = .ok s) (ht : sumOf (ys.map .int) = .ok t)
    (hu : sumOf results = .ok u) :
    ∃ l m n : Int64, s = .int l ∧ t = .int m ∧ u = .int n ∧
      n.toInt = op.onInts l.toInt m.toInt := by
  obtain ⟨rows, third, hxs, hys, rfl, hexact⟩ := exists_columns h
  rw [hxs] at hs
  rw [hys] at ht
  obtain ⟨l, rfl, hl⟩ := exact_of_sumOf_column hs
  obtain ⟨m, rfl, hm⟩ := exact_of_sumOf_column ht
  obtain ⟨n, rfl, hn⟩ := exact_of_sumOf_column hu
  refine ⟨l, m, n, rfl, rfl, rfl, ?_⟩
  rw [hn, hl, hm]
  exact sum_of_results hexact

end

/-- **What elementwise arithmetic does to any vectors.** It fails if the lengths
differ, and it names both, and otherwise if two integers at one index overflow; in no
other case. Else there is a vector of the common length with the result of each pair
at its index. Vectors of integers can be added in either order, their sums are undone
by a difference and their differences by a sum, and the sum of the results is that of
the one vector plus or minus that of the other. -/
theorem apply_any (left right : List Value) :
    (∀ (op : Arithmetic) (fault : Fault), op.apply left right = .error fault ↔
      (left.length ≠ right.length ∧ fault = .lengthMismatch left.length right.length) ∨
      (left.length = right.length ∧ fault = .overflow ∧ op.Overflows left right)) ∧
    (∀ op : Arithmetic, left.length = right.length → ¬ op.Overflows left right →
      ∃ results, op.apply left right = .ok results ∧ results.length = left.length ∧
        ∀ (i : Nat) v w, left[i]? = some v → right[i]? = some w →
          ∃ r, results[i]? = some r ∧ op.onValues v w = .ok r) ∧
    ∀ xs ys : List Int64, left = xs.map .int → right = ys.map .int →
      (∀ sums, add.apply left right = .ok sums →
        add.apply right left = .ok sums ∧ subtract.apply sums right = .ok left ∧
        ∀ s t u, sumOf left = .ok s → sumOf right = .ok t → sumOf sums = .ok u →
          ∃ l m n : Int64, s = .int l ∧ t = .int m ∧ u = .int n ∧
            n.toInt = l.toInt + m.toInt) ∧
      ∀ differences, subtract.apply left right = .ok differences →
        add.apply differences right = .ok left ∧
        ∀ s t u, sumOf left = .ok s → sumOf right = .ok t → sumOf differences = .ok u →
          ∃ l m n : Int64, s = .int l ∧ t = .int m ∧ u = .int n ∧
            n.toInt = l.toInt - m.toInt := by
  refine ⟨fun op fault => apply_eq_error_iff, fun op hlength hfits => ?_, ?_⟩
  · cases happly : op.apply left right with
    | ok results =>
      exact ⟨results, rfl, length_of_apply happly, fun i v w hv hw => result_of_apply happly hv hw⟩
    | error fault => exact absurd (overflows_of_apply_eq_error hlength happly).2 hfits
  · rintro xs ys rfl rfl
    constructor
    · intro sums hsums
      exact ⟨apply_add_comm hsums, apply_undo hsums, fun s t u hs ht hu =>
        sumOf_results hsums hs ht hu⟩
    · intro differences hdifferences
      exact ⟨apply_undo hdifferences, fun s t u hs ht hu => sumOf_results hdifferences hs ht hu⟩

/-- There and back at the end of the range. -/
example :
    subtract.apply [.int (-9223372036854775808)] [.int (-1)] = .ok [.int (-9223372036854775807)] ∧
      add.apply [.int (-9223372036854775807)] [.int (-1)] =
        .ok [.int (-9223372036854775808)] := by
  decide

end Arithmetic
end Columnar
