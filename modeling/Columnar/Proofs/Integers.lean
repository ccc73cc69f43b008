/-
# Vectors of integers

What the operations on vectors give if all values are integers. A sum is the
integer sum, and it fails if and only if 64 bits do not hold the sum of some
prefix (`sumOf_ints`). An average divides the exact sum, so it never fails.
The scans for the least and the greatest value end with the minimum and the
maximum, and elementwise arithmetic fails if one of the results does not fit.

Key definitions: `Value.ofInt`, `ints`, `integersOf`, `PrefixesFit`, `meanOf`,
`Aggregate.extreme?`, `Arithmetic.results`.
Key theorems: `sumOf_ints`, `averageOf_ints`, `leastOf_ints`,
`greatestOf_ints`, `Aggregate.apply_extreme`, `Arithmetic.apply_ints`.
-/
import Columnar.Aggregate
import Columnar.Elementwise
import Columnar.Print
import Columnar.Proofs.Lookup
import Mathlib.Algebra.Ring.Int.Defs
import Mathlib.Data.List.Infix

namespace Columnar

/-- The value of an integer that 64 bits hold. -/
def Value.ofInt (i : Int) : Value := .int (Int64.ofInt i)

/-- The vector of integers. -/
def ints (xs : List Int) : List Value := xs.map Value.ofInt

/-- The integers of a column, row by row. -/
def integersOf {ρ : Type} (f : ρ → Int64) (rows : List ρ) : List Int := rows.map fun r => (f r).toInt

/-- Whether 64 bits hold the sum of every prefix. -/
def PrefixesFit (xs : List Int) : Prop := ∀ p ∈ xs.inits, InInt64 p.sum

instance (xs : List Int) : Decidable (PrefixesFit xs) :=
  inferInstanceAs (Decidable (∀ p ∈ xs.inits, InInt64 p.sum))

/-- The mean with two decimals. -/
def meanOf (xs : List Int) : Binary64 :=
  if xs.isEmpty then .nan
  else ((Binary64.ofInt xs.sum).div (Binary64.ofInt xs.length)).roundPlaces 2

theorem inInt64_toInt (n : Int64) : InInt64 n.toInt := ⟨n.le_toInt, n.toInt_lt⟩

theorem map_int_eq_ints (xs : List Int64) : xs.map Value.int = ints (xs.map Int64.toInt) := by
  simp [ints, Value.ofInt, Function.comp_def]

theorem inInt64_integersOf {ρ : Type} (f : ρ → Int64) (rows : List ρ) :
    ∀ x ∈ integersOf f rows, InInt64 x :=
  List.forall_mem_map.mpr fun r _ => inInt64_toInt (f r)

theorem PrefixesFit.inInt64_sum {xs : List Int} (h : PrefixesFit xs) : InInt64 xs.sum :=
  h xs ((List.mem_inits xs xs).mpr (List.prefix_refl xs))

/-! ### One value -/

namespace Value

theorem int_eq_ofInt (n : Int64) : Value.int n = ofInt n.toInt := by
  rw [ofInt, Int64.ofInt_toInt]

theorem field_ofInt {i : Int} (h : InInt64 i) : (ofInt i).field = i.repr := by
  rw [ofInt, field, toInt_ofInt h]

theorem exact_eq (i : Int) :
    exact i = if InInt64 i then .ok (ofInt i) else .error .overflow := rfl

section

variable {a b : Int} (ha : InInt64 a) (hb : InInt64 b)

include ha hb

theorem add_ofInt : (ofInt a).add (ofInt b) = exact (a + b) := by
  simp only [ofInt, add, toInt_ofInt ha, toInt_ofInt hb]

theorem subtract_ofInt : (ofInt a).subtract (ofInt b) = exact (a - b) := by
  simp only [ofInt, subtract, toInt_ofInt ha, toInt_ofInt hb]

theorem compare?_ofInt : (ofInt a).compare? (ofInt b) = some (compare a b) := by
  simp only [ofInt, compare?, toInt_ofInt ha, toInt_ofInt hb]

end

end Value

open Value (ofInt)

/-! ### Aggregates -/

/-- The sum so far stands in front of every prefix. -/
theorem foldlM_add_ints : ∀ {xs : List Int} {acc : Int}, InInt64 acc → (∀ x ∈ xs, InInt64 x) →
    (ints xs).foldlM Value.add (ofInt acc) =
      if ∀ p ∈ xs.inits, InInt64 (acc + p.sum) then .ok (ofInt (acc + xs.sum))
      else .error .overflow
  | [], acc, hacc, _ => by
    have hfits : ∀ p ∈ ([] : List Int).inits, InInt64 (acc + p.sum) :=
      List.forall_mem_singleton.mpr (by simpa using hacc)
    rw [if_pos hfits, List.sum_nil, Int.add_zero]
    rfl
  | x :: xs, acc, hacc, hxs => by
    obtain ⟨hx, hxs⟩ := List.forall_mem_cons.mp hxs
    have hprefixes : (∀ p ∈ (x :: xs).inits, InInt64 (acc + p.sum)) ↔
        ∀ p ∈ xs.inits, InInt64 (acc + x + p.sum) := by
      simp only [List.inits_cons, List.forall_mem_cons, List.forall_mem_map, List.sum_nil,
        Int.add_zero, List.sum_cons, ← Int.add_assoc, hacc, true_and]
    rw [ints, List.map_cons, List.foldlM_cons, Value.add_ofInt hacc hx, Value.exact_eq]
    split
    · rename_i hfits
      have ih := foldlM_add_ints hfits hxs
      rw [ok_bind, ← ints, ih, List.sum_cons, ← Int.add_assoc]
      exact if_congr hprefixes.symm rfl rfl
    · rename_i hfits
      have hfails : ¬ ∀ p ∈ (x :: xs).inits, InInt64 (acc + p.sum) := fun h =>
        hfits (by simpa using hprefixes.mp h [] ((List.mem_inits _ _).mpr (List.nil_prefix)))
      rw [if_neg hfails]
      rfl

section

variable {xs : List Int} (hxs : ∀ x ∈ xs, InInt64 x)

include hxs

/-- **A sum of integers is exact, and fails at a prefix that does not fit.** -/
theorem sumOf_ints :
    sumOf (ints xs) = if PrefixesFit xs then .ok (ofInt xs.sum) else .error .overflow := by
  have hzero : InInt64 0 := by decide
  have hfold := foldlM_add_ints hzero hxs
  simp only [Int.zero_add] at hfold
  exact hfold

theorem map_whole_ints : (ints xs).map Value.whole = xs := by
  rw [ints, List.map_map]
  exact (List.map_congr_left fun x hx => Value.toInt_ofInt (hxs x hx)).trans (List.map_id xs)

theorem total_ints : total (ints xs) = Binary64.ofInt xs.sum := by
  have hall : (ints xs).all (fun v => !v.isFloat) = true := by simp [ints, ofInt, Value.isFloat]
  have hsum : (ints xs).foldl (fun acc v => acc + v.whole) 0 = xs.sum := by
    rw [← List.foldl_map, map_whole_ints hxs, List.sum_eq_foldl]
  rw [total, if_pos hall, hsum]

theorem averageOf_ints : averageOf (ints xs) = meanOf xs := by
  rw [averageOf, total_ints hxs, meanOf, ints, List.isEmpty_map, List.length_map]

end

/-- A scan that keeps what `choose` chooses of two integers ends with what it
chooses of all. -/
theorem keep_ints {wins : Ordering} {choose : Int → Int → Int}
    (hchoose : ∀ a b, (if compare b a = wins then b else a) = choose a b) :
    ∀ {xs : List Int} {best : Int}, InInt64 best → (∀ x ∈ xs, InInt64 x) →
      keep wins (ofInt best) (ints xs) = ofInt (xs.foldl choose best)
  | [], _, _, _ => rfl
  | x :: xs, best, hbest, hxs => by
    obtain ⟨hx, hxs⟩ := List.forall_mem_cons.mp hxs
    have hkept : (if (ofInt x).compare? (ofInt best) = some wins then ofInt x else ofInt best) =
        ofInt (choose best x) := by
      simp only [Value.compare?_ofInt hx hbest, Option.some.injEq, ← hchoose, apply_ite ofInt]
    have hchosen : InInt64 (choose best x) := by
      rw [← hchoose]
      split
      · exact hx
      · exact hbest
    rw [ints, List.map_cons, keep, hkept]
    exact keep_ints hchoose hchosen hxs

theorem leastOf_ints : ∀ {xs : List Int}, (∀ x ∈ xs, InInt64 x) →
    leastOf (ints xs) = (xs.min?.map ofInt).elim (.error (.emptyAggregate .least)) .ok
  | [], _ => rfl
  | x :: xs, h => by
    obtain ⟨hx, hxs⟩ := List.forall_mem_cons.mp h
    have hmin : ∀ a b : Int, (if compare b a = .lt then b else a) = min a b := by
      intro a b
      simp only [Int.compare_eq_lt]
      split <;> omega
    exact congrArg Except.ok (keep_ints hmin hx hxs)

theorem greatestOf_ints : ∀ {xs : List Int}, (∀ x ∈ xs, InInt64 x) →
    greatestOf (ints xs) = (xs.max?.map ofInt).elim (.error (.emptyAggregate .greatest)) .ok
  | [], _ => rfl
  | x :: xs, h => by
    obtain ⟨hx, hxs⟩ := List.forall_mem_cons.mp h
    have hmax : ∀ a b : Int, (if compare b a = .gt then b else a) = max a b := by
      intro a b
      simp only [Int.compare_eq_gt]
      split <;> omega
    exact congrArg Except.ok (keep_ints hmax hx hxs)

theorem exists_least {ρ : Type} {rows : List ρ} (h : rows ≠ []) (f : ρ → Int64) :
    ∃ m, (integersOf f rows).min? = some m :=
  Option.isSome_iff_exists.mp (List.isSome_min?_of_ne_nil (mt List.map_eq_nil_iff.mp h))

theorem exists_greatest {ρ : Type} {rows : List ρ} (h : rows ≠ []) (f : ρ → Int64) :
    ∃ m, (integersOf f rows).max? = some m :=
  Option.isSome_iff_exists.mp (List.isSome_max?_of_ne_nil (mt List.map_eq_nil_iff.mp h))

/-- The minimum or the maximum, for the aggregates that ask for it. -/
def Aggregate.extreme? : Aggregate → List Int → Option Int
  | least, xs => xs.min?
  | greatest, xs => xs.max?
  | _, _ => none

theorem Aggregate.mem_of_extreme? {function : Aggregate} {xs : List Int} {m : Int}
    (h : function.extreme? xs = some m) : m ∈ xs := by
  cases function with
  | sum | average => cases h
  | least => exact List.min?_mem h
  | greatest => exact List.max?_mem h

theorem Aggregate.apply_extreme {function : Aggregate} {xs : List Int} {m : Int}
    (h : function.extreme? xs = some m) (hxs : ∀ x ∈ xs, InInt64 x) :
    function.apply (ints xs) = .ok (.value (ofInt m)) := by
  cases function with
  | sum | average => cases h
  | least =>
    have hmin : xs.min? = some m := h
    rw [apply, leastOf_ints hxs, hmin]
    rfl
  | greatest =>
    have hmax : xs.max? = some m := h
    rw [apply, greatestOf_ints hxs, hmax]
    rfl

/-! ### Elementwise arithmetic -/

namespace Arithmetic

def onInts : Arithmetic → Int → Int → Int
  | add => (· + ·)
  | subtract => (· - ·)

theorem onValues_ofInt (op : Arithmetic) {a b : Int} (ha : InInt64 a) (hb : InInt64 b) :
    op.onValues (ofInt a) (ofInt b) = Value.exact (op.onInts a b) := by
  cases op with
  | add => exact Value.add_ofInt ha hb
  | subtract => exact Value.subtract_ofInt ha hb

end Arithmetic

theorem mapM_exact {ρ : Type} {result : ρ → Except Fault Value} {f : ρ → Int} :
    ∀ {rows : List ρ}, (∀ r ∈ rows, result r = Value.exact (f r)) →
      rows.mapM result =
        if ∀ r ∈ rows, InInt64 (f r) then .ok (ints (rows.map f)) else .error .overflow
  | [], _ => rfl
  | r :: rows, h => by
    obtain ⟨hresult, hresults⟩ := List.forall_mem_cons.mp h
    rw [List.mapM_cons, hresult, mapM_exact hresults, Value.exact_eq]
    by_cases hr : InInt64 (f r)
    · by_cases hrows : ∀ r ∈ rows, InInt64 (f r)
      · have hall : ∀ r' ∈ r :: rows, InInt64 (f r') := List.forall_mem_cons.mpr ⟨hr, hrows⟩
        rw [if_pos hr, if_pos hrows, if_pos hall]
        rfl
      · have hsome : ¬ ∀ r' ∈ r :: rows, InInt64 (f r') := fun h =>
          hrows (List.forall_mem_cons.mp h).2
        rw [if_pos hr, if_neg hrows, if_neg hsome]
        rfl
    · have hsome : ¬ ∀ r' ∈ r :: rows, InInt64 (f r') := fun h => hr (List.forall_mem_cons.mp h).1
      rw [if_neg hr, if_neg hsome]
      rfl

/-- The exact results of two columns, row by row. -/
def Arithmetic.results {ρ : Type} (op : Arithmetic) (f g : ρ → Int64) (rows : List ρ) : List Int :=
  rows.map fun r => op.onInts (f r).toInt (g r).toInt

/-- **Row by row, the results of two columns of integers**, if 64 bits hold all
of them. -/
theorem Arithmetic.apply_ints {ρ : Type} (op : Arithmetic) (f g : ρ → Int64) (rows : List ρ) :
    op.apply (ints (integersOf f rows)) (ints (integersOf g rows)) =
      if ∀ x ∈ op.results f g rows, InInt64 x then .ok (ints (op.results f g rows))
      else .error .overflow := by
  have hlength : (ints (integersOf f rows)).length = (ints (integersOf g rows)).length := by
    simp [ints, integersOf]
  have hpairs : (ints (integersOf f rows)).zip (ints (integersOf g rows)) =
      rows.map fun r => (ofInt (f r).toInt, ofInt (g r).toInt) := by
    simp only [ints, integersOf, List.map_map, List.zip_map', Function.comp_def]
  have hresults : rows.mapM (fun r => op.onValues (ofInt (f r).toInt) (ofInt (g r).toInt)) =
      if ∀ r ∈ rows, InInt64 (op.onInts (f r).toInt (g r).toInt) then
        .ok (ints (op.results f g rows))
      else .error .overflow :=
    mapM_exact fun r _ => op.onValues_ofInt (inInt64_toInt (f r)) (inInt64_toInt (g r))
  rw [apply, if_pos hlength, hpairs, List.mapM_map]
  exact hresults.trans (if_congr List.forall_mem_map.symm rfl rfl)

end Columnar
