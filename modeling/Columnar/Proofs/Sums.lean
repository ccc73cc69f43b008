/-
# Sums of any values

A sum is taken from left to right. As long as the values are integers it is the
exact integer, and it fails at the first prefix whose sum 64 bits do not hold. From
the first float on it is a float, to which whatever follows is added as a float, so
it fails no more (`foldlM_add_float`). Every vector is cut at its first float, if
there is one (`exists_ints_before_float`), and a prefix of integers stops there at
the latest (`prefix_append_float_iff`); so whether a sum fails is up to the integers
before the first float.

Key definitions: `OverflowsAtPrefix`.
Key theorems: `sumOf_int64`, `sumOf_append_float`, `sumOf_eq_error_iff`,
`sumOf_any`.
-/
import Columnar.Proofs.Integers
import Mathlib.Algebra.BigOperators.Group.List.Basic

namespace Columnar

/-- Whether some prefix has only integers, and a sum that 64 bits do not hold. -/
def OverflowsAtPrefix (values : List Value) : Prop :=
  ∃ xs : List Int64, xs.map Value.int <+: values ∧ ¬ InInt64 (xs.map Int64.toInt).sum

/-! ### Up to the first float -/

theorem Value.int_injective : Function.Injective Value.int := fun _ _ h => Value.int.inj h

/-- A vector has no float, or integers before its first float. -/
theorem exists_ints_before_float : ∀ values : List Value,
    (∃ xs : List Int64, values = xs.map .int) ∨
      ∃ (xs : List Int64) (x : Binary64) (rest : List Value),
        values = xs.map .int ++ .float x :: rest
  | [] => .inl ⟨[], rfl⟩
  | .float x :: rest => .inr ⟨[], x, rest, rfl⟩
  | .int n :: values => by
    rcases exists_ints_before_float values with ⟨xs, rfl⟩ | ⟨xs, x, rest, rfl⟩
    · exact .inl ⟨n :: xs, rfl⟩
    · exact .inr ⟨n :: xs, x, rest, rfl⟩

/-- A prefix of integers ends before the first float. -/
theorem prefix_append_float_iff {x : Binary64} {rest : List Value} : ∀ {ps xs : List Int64},
    ps.map Value.int <+: xs.map Value.int ++ .float x :: rest ↔ ps.map Value.int <+: xs.map Value.int
  | [], _ => by simp
  | p :: ps, [] => by simp
  | p :: ps, y :: xs => by
    simp only [List.map_cons, List.cons_append, List.cons_prefix_cons, prefix_append_float_iff]

theorem overflowsAtPrefix_append_float {xs : List Int64} {x : Binary64} {rest : List Value} :
    OverflowsAtPrefix (xs.map .int ++ .float x :: rest) ↔ OverflowsAtPrefix (xs.map .int) := by
  simp only [OverflowsAtPrefix, prefix_append_float_iff]

theorem overflowsAtPrefix_map_int {xs : List Int64} :
    OverflowsAtPrefix (xs.map .int) ↔ ¬ PrefixesFit (xs.map Int64.toInt) := by
  simp only [OverflowsAtPrefix, PrefixesFit, List.prefix_map_iff_of_injective Value.int_injective,
    List.map_inits, List.forall_mem_map, List.mem_inits, not_forall, exists_prop]

/-! ### The sum up to there, and from there on -/

/-- **A sum of integers** is exact, or some prefix does not fit. -/
theorem sumOf_int64 (xs : List Int64) :
    sumOf (xs.map .int) =
      if PrefixesFit (xs.map Int64.toInt) then .ok (.ofInt (xs.map Int64.toInt).sum)
      else .error .overflow := by
  rw [map_int_eq_ints]
  exact sumOf_ints (inInt64_integersOf id xs)

theorem Value.add_float (v : Value) (x : Binary64) :
    v.add (.float x) = .ok (.float (v.toBinary64.add x)) := by
  cases v <;> rfl

/-- Once the sum is a float it stays one, and does not fail. -/
theorem foldlM_add_float : ∀ (values : List Value) (x : Binary64),
    values.foldlM Value.add (.float x) =
      .ok (.float (values.foldl (fun acc v => acc.add v.toBinary64) x))
  | [], _ => rfl
  | .int n :: values, x => foldlM_add_float values (x.add (Binary64.ofInt n.toInt))
  | .float y :: values, x => foldlM_add_float values (x.add y)

/-- **A sum with a float in it** is a float, or some prefix before the first float
does not fit. -/
theorem sumOf_append_float (xs : List Int64) (x : Binary64) (rest : List Value) :
    sumOf (xs.map .int ++ .float x :: rest) =
      if PrefixesFit (xs.map Int64.toInt) then
        .ok (.float (rest.foldl (fun acc v => acc.add v.toBinary64)
          ((Binary64.ofInt (xs.map Int64.toInt).sum).add x)))
      else .error .overflow := by
  have hints : (xs.map Value.int).foldlM Value.add (.int 0) = _ := sumOf_int64 xs
  rw [sumOf, List.foldlM_append, hints]
  split
  · rename_i hfits
    have hsum : (Value.ofInt (xs.map Int64.toInt).sum).toBinary64 =
        Binary64.ofInt (xs.map Int64.toInt).sum :=
      congrArg Binary64.ofInt (Value.toInt_ofInt hfits.inInt64_sum)
    rw [ok_bind, List.foldlM_cons, Value.add_float, ok_bind, foldlM_add_float, hsum]
  · rfl

/-! ### Whether it fails, and what it is -/

theorem ite_eq_error_iff {p : Prop} [Decidable p] {v : Value} {fault : Fault} :
    (if p then .ok v else .error .overflow : Except Fault Value) = .error fault ↔
      fault = .overflow ∧ ¬ p := by
  split
  · rename_i hp
    simp [hp]
  · rename_i hp
    simp [hp, eq_comm]

/-- **A sum fails** if and only if it overflows before the first float. -/
theorem sumOf_eq_error_iff {values : List Value} {fault : Fault} :
    sumOf values = .error fault ↔ fault = .overflow ∧ OverflowsAtPrefix values := by
  rcases exists_ints_before_float values with ⟨xs, rfl⟩ | ⟨xs, x, rest, rfl⟩
  · rw [sumOf_int64, ite_eq_error_iff, overflowsAtPrefix_map_int]
  · rw [sumOf_append_float, ite_eq_error_iff, overflowsAtPrefix_append_float,
      overflowsAtPrefix_map_int]

theorem exact_of_sumOf_int64 {xs : List Int64} {v : Value} (h : sumOf (xs.map .int) = .ok v) :
    ∃ n, v = .int n ∧ n.toInt = (xs.map Int64.toInt).sum := by
  rw [sumOf_int64] at h
  split at h
  · rename_i hfits
    cases h
    exact ⟨_, rfl, Value.toInt_ofInt hfits.inInt64_sum⟩
  · cases h

theorem float_of_sumOf {values : List Value} {x : Binary64} {v : Value} (hx : .float x ∈ values)
    (h : sumOf values = .ok v) : ∃ y, v = .float y := by
  rcases exists_ints_before_float values with ⟨xs, rfl⟩ | ⟨xs, y, rest, rfl⟩
  · obtain ⟨n, -, hn⟩ := List.mem_map.mp hx
    cases hn
  · rw [sumOf_append_float] at h
    split at h
    · cases h
      exact ⟨_, rfl⟩
    · cases h

/-- **What the sum of any values is.** It fails if and only if the sum of some prefix
of integers does not fit. Otherwise it is the exact integer if all values are integers,
and a float if one is a float. Two orders of the same integers that both have a sum
have the same, exact one. -/
theorem sumOf_any (values : List Value) :
    (∀ fault, sumOf values = .error fault ↔ fault = .overflow ∧ OverflowsAtPrefix values) ∧
    (¬ OverflowsAtPrefix values →
      (∀ xs : List Int64, values = xs.map .int →
        ∃ n, sumOf values = .ok (.int n) ∧ n.toInt = (xs.map Int64.toInt).sum) ∧
      ((∃ x, .float x ∈ values) → ∃ x, sumOf values = .ok (.float x))) ∧
    ∀ xs ys : List Int64, values = xs.map .int → xs.Perm ys →
      ∀ v w, sumOf values = .ok v → sumOf (ys.map .int) = .ok w →
        ∃ n, v = .int n ∧ w = .int n ∧ n.toInt = (xs.map Int64.toInt).sum := by
  refine ⟨fun fault => sumOf_eq_error_iff, fun hfits => ?_, ?_⟩
  · -- nothing else fails, so there is a sum
    have hsum : ∃ v, sumOf values = .ok v := by
      cases hvalues : sumOf values with
      | error fault => exact absurd (sumOf_eq_error_iff.mp hvalues).2 hfits
      | ok v => exact ⟨v, rfl⟩
    obtain ⟨v, hv⟩ := hsum
    rw [hv]
    constructor
    · rintro xs rfl
      obtain ⟨n, rfl, hn⟩ := exact_of_sumOf_int64 hv
      exact ⟨n, rfl, hn⟩
    · rintro ⟨x, hx⟩
      obtain ⟨y, rfl⟩ := float_of_sumOf hx hv
      exact ⟨y, rfl⟩
  · rintro xs ys rfl hperm v w hv hw
    obtain ⟨n, rfl, hn⟩ := exact_of_sumOf_int64 hv
    obtain ⟨m, rfl, hm⟩ := exact_of_sumOf_int64 hw
    have hsame : m.toInt = n.toInt := by rw [hn, hm, (hperm.map Int64.toInt).sum_eq]
    rw [Int64.toInt_inj.mp hsame]
    exact ⟨n, rfl, rfl, hn⟩

/-- The order decides whether there is a sum. -/
example :
    sumOf [.int 9223372036854775807, .int 1, .int (-1)] = .error .overflow ∧
      sumOf [.int 9223372036854775807, .int (-1), .int 1] = .ok (.int 9223372036854775807) := by
  decide

end Columnar
