/-
# The least and the greatest of any values

A scan for an extreme holds one value, compares each later one with that alone and
never looks back at what it has passed. That nothing it has passed beats the value
it ends with is due to transitivity: what was given up is beaten by what came
after, so a value that beat the last would have beaten the one held when it was
passed (`not_beats_keep`).

Strict order is transitive although equality is not: two integers that are rounded
to one number are both equal to it and still differ. Ranks decide, and where all
ranks are equal a strict order is one of integers, which are compared exactly
(`Value.compare?_lt_trans`). A NaN stands in no order. So it takes no place in a scan, and
held from the start it is never given up (`isNumber_keep_iff`).

Key theorems: `Value.compare?_lt_trans`, `Value.compare?_trans`, `keep_eq_or_beats`,
`not_beats_keep`, `exists_extreme`, `extremes_of_any`.
-/
import Columnar.Aggregate
import Columnar.Proofs.Order

namespace Columnar

/-! ### Strict order -/

namespace Value

variable {v w x : Value}

theorem compare?_int_lt_iff {i j : Int64} :
    (int i).compare? (int j) = some .lt ↔ i.toInt < j.toInt := by
  rw [compare?, Option.some.injEq, Int.compare_eq_lt]

theorem compare?_gt_iff : v.compare? w = some .gt ↔ w.compare? v = some .lt := by
  rw [compare?_swap v w]
  cases v.compare? w with
  | none => simp
  | some order => cases order <;> simp

/-- **Strict order is transitive**, among integers, floats and both. -/
theorem compare?_lt_trans (h : v.compare? w = some .lt) (h' : w.compare? x = some .lt) :
    v.compare? x = some .lt := by
  obtain ⟨a, ha⟩ := exists_rank (IsNumber.of_compare? h).1
  obtain ⟨b, hb⟩ := exists_rank (IsNumber.of_compare? h).2
  obtain ⟨c, hc⟩ := exists_rank (IsNumber.of_compare? h').2
  have hab : a ≤ b := AtMost.rank_le ha hb (.inl h)
  have hbc : b ≤ c := AtMost.rank_le hb hc (.inl h')
  by_cases hac : a = c
  · -- all three have one rank, so both comparisons are of integers
    rcases compare?_of_rank_eq ha hb (by omega) with heq | ⟨i, j, rfl, rfl⟩
    · rw [h] at heq
      cases heq
    rcases compare?_of_rank_eq hb hc (by omega) with heq | ⟨-, k, -, rfl⟩
    · rw [h'] at heq
      cases heq
    have hij := compare?_int_lt_iff.mp h
    have hjk := compare?_int_lt_iff.mp h'
    exact compare?_int_lt_iff.mpr (by omega)
  · rw [compare?_of_rank_ne ha hc hac, Int.compare_eq_lt.mpr (by omega)]

section

variable {wins : Ordering} (hwins : wins ≠ .eq)

include hwins

theorem compare?_trans (h : v.compare? w = some wins) (h' : w.compare? x = some wins) :
    v.compare? x = some wins := by
  cases wins with
  | lt => exact compare?_lt_trans h h'
  | eq => exact absurd rfl hwins
  | gt => exact compare?_gt_iff.mpr (compare?_lt_trans (compare?_gt_iff.mp h') (compare?_gt_iff.mp h))

theorem compare?_self_ne (v : Value) : v.compare? v ≠ some wins := by
  intro h
  have hswap := compare?_swap v v
  rw [h, Option.map_some, Option.some.injEq] at hswap
  cases wins with
  | eq => exact hwins rfl
  | lt | gt => cases hswap

end

end Value

/-! ### A scan -/

theorem keep_mem (wins : Ordering) : ∀ (best : Value) (vs : List Value),
    keep wins best vs ∈ best :: vs
  | best, [] => List.mem_singleton_self best
  | best, v :: vs => by
    rw [keep]
    split
    · exact List.mem_cons_of_mem best (keep_mem wins v vs)
    · rcases List.mem_cons.mp (keep_mem wins best vs) with h | h
      · rw [h]
        exact List.mem_cons_self
      · exact List.mem_cons_of_mem best (List.mem_cons_of_mem v h)

/-- A NaN is kept if and only if the scan starts with it. -/
theorem isNumber_keep_iff (wins : Ordering) : ∀ (best : Value) (vs : List Value),
    (keep wins best vs).IsNumber ↔ best.IsNumber
  | _, [] => Iff.rfl
  | best, v :: vs => by
    rw [keep, isNumber_keep_iff wins _ vs]
    split
    · rename_i hbeats
      obtain ⟨hv, hbest⟩ := Value.IsNumber.of_compare? hbeats
      exact iff_of_true hv hbest
    · rfl

section

variable {wins : Ordering} (hwins : wins ≠ .eq)

include hwins

/-- The value at the end is the one held before, or beats it. -/
theorem keep_eq_or_beats : ∀ (best : Value) (vs : List Value),
    keep wins best vs = best ∨ (keep wins best vs).compare? best = some wins
  | _, [] => .inl rfl
  | best, v :: vs => by
    rw [keep]
    split
    · rename_i hbeats
      right
      rcases keep_eq_or_beats v vs with h | h
      · rw [h]
        exact hbeats
      · exact Value.compare?_trans hwins h hbeats
    · exact keep_eq_or_beats best vs

theorem not_beats_keep_of_not_beats {u best : Value} (h : u.compare? best ≠ some wins)
    (vs : List Value) : u.compare? (keep wins best vs) ≠ some wins := by
  rcases keep_eq_or_beats hwins best vs with hkept | hbeats
  · rw [hkept]
    exact h
  · exact fun hu => h (Value.compare?_trans hwins hu hbeats)

/-- **Nothing that was passed beats what the scan ends with.** -/
theorem not_beats_keep (best : Value) (vs : List Value) :
    ∀ u ∈ best :: vs, u.compare? (keep wins best vs) ≠ some wins := by
  have hbest := Value.compare?_self_ne hwins best
  refine List.forall_mem_cons.mpr ⟨not_beats_keep_of_not_beats hwins hbest vs, ?_⟩
  induction vs generalizing best with
  | nil => simp
  | cons v vs ih =>
    have hv := Value.compare?_self_ne hwins v
    rw [keep]
    split
    · -- the value takes the place of the one held
      exact List.forall_mem_cons.mpr ⟨not_beats_keep_of_not_beats hwins hv vs, ih v hv⟩
    · rename_i hbeats
      exact List.forall_mem_cons.mpr ⟨not_beats_keep_of_not_beats hwins hbeats vs, ih best hbest⟩

/-- **An extreme** is one of the values, and none of them beats it. -/
theorem exists_extreme (function : Aggregate) (first : Value) (rest : List Value) :
    ∃ m ∈ first :: rest, extreme function wins (first :: rest) = .ok m ∧
      (∀ v ∈ first :: rest, v.compare? m ≠ some wins) ∧ (m.IsNumber ↔ first.IsNumber) :=
  ⟨keep wins first rest, keep_mem wins first rest, rfl, not_beats_keep hwins first rest,
    isNumber_keep_iff wins first rest⟩

theorem exists_extreme_of_ints (function : Aggregate) {xs : List Int64} (hne : xs ≠ []) :
    ∃ m ∈ xs, extreme function wins (xs.map .int) = .ok (.int m) ∧
      ∀ x ∈ xs, (Value.int x).compare? (.int m) ≠ some wins := by
  obtain ⟨x, xs, rfl⟩ := List.exists_cons_of_ne_nil hne
  obtain ⟨v, hv, hextreme, hbeaten, -⟩ := exists_extreme hwins function (.int x) (xs.map .int)
  obtain ⟨m, hm, rfl⟩ := List.mem_map.mp (show v ∈ (x :: xs).map Value.int from hv)
  exact ⟨m, hm, hextreme, fun y hy => hbeaten (.int y) (List.mem_map_of_mem (f := Value.int) hy)⟩

end

/-- **The least and the greatest of any values.** There is none of each if and only
if there are no values. Otherwise the least value is one of them and none is below
it, the greatest is one of them and none is above it, and neither is a NaN unless
the first value is. Of integers alone they are the minimum and the maximum. -/
theorem extremes_of_any (values : List Value) :
    (∀ fault, leastOf values = .error fault ↔ values = [] ∧ fault = .emptyAggregate .least) ∧
    (∀ fault, greatestOf values = .error fault ↔
      values = [] ∧ fault = .emptyAggregate .greatest) ∧
    (∀ first rest, values = first :: rest →
      (∃ m ∈ values, leastOf values = .ok m ∧ (∀ v ∈ values, v.compare? m ≠ some .lt) ∧
        (m.IsNumber ↔ first.IsNumber)) ∧
      ∃ m ∈ values, greatestOf values = .ok m ∧ (∀ v ∈ values, v.compare? m ≠ some .gt) ∧
        (m.IsNumber ↔ first.IsNumber)) ∧
    ∀ xs : List Int64, values = xs.map .int → xs ≠ [] →
      (∃ m ∈ xs, leastOf values = .ok (.int m) ∧ ∀ x ∈ xs, m.toInt ≤ x.toInt) ∧
      ∃ m ∈ xs, greatestOf values = .ok (.int m) ∧ ∀ x ∈ xs, x.toInt ≤ m.toInt := by
  refine ⟨fun fault => extreme_eq_error_iff, fun fault => extreme_eq_error_iff, ?_, ?_⟩
  · rintro first rest rfl
    exact ⟨exists_extreme (by decide) .least first rest,
      exists_extreme (by decide) .greatest first rest⟩
  · rintro xs rfl hne
    constructor
    · obtain ⟨m, hm, hleast, hbelow⟩ :=
        exists_extreme_of_ints (show Ordering.lt ≠ .eq by decide) .least hne
      refine ⟨m, hm, hleast, fun x hx => ?_⟩
      have hlt := hbelow x hx
      rw [ne_eq, Value.compare?_int_lt_iff] at hlt
      omega
    · obtain ⟨m, hm, hgreatest, habove⟩ :=
        exists_extreme_of_ints (show Ordering.gt ≠ .eq by decide) .greatest hne
      refine ⟨m, hm, hgreatest, fun x hx => ?_⟩
      have hgt := habove x hx
      rw [ne_eq, Value.compare?_gt_iff, Value.compare?_int_lt_iff] at hgt
      omega

/-- Each of the first two is equal to `2 ^ 53` as a float, and yet the last integer is
below the first. -/
example :
    leastOf [.int 9007199254740993, .float (Binary64.ofInt 9007199254740992),
      .int 9007199254740992] = .ok (.int 9007199254740992) := by
  decide +kernel

end Columnar
