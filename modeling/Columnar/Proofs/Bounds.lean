/-
# Integers that stay in 64 bits

Sums and differences of integers are exact and fail only where 64 bits do not
hold the result. Where it is known how far the integers are from zero at most
(`Value.Within`), a sum of two and a difference are within the sum of the
bounds, and the sum of a vector is within its length times the bound. As long
as that is below `2 ^ 63` nothing overflows.

Key definitions: `Value.Within`.
Key theorems: `exists_sumOf`, `Arithmetic.exists_apply`.
-/
import Columnar.Aggregate
import Columnar.Elementwise
import Columnar.Proofs.Lookup
import Mathlib.Algebra.Group.Nat.Defs

namespace Columnar

namespace Value

/-- An integer no further than `b` from zero. -/
def Within (b : Nat) (v : Value) : Prop := ∃ n : Int64, v = .int n ∧ n.toInt.natAbs ≤ b

theorem Within.mono {a b : Nat} {v : Value} (h : v.Within a) (hab : a ≤ b) : v.Within b := by
  obtain ⟨n, hv, hn⟩ := h
  exact ⟨n, hv, Nat.le_trans hn hab⟩

theorem exists_exact {i : Int} {b : Nat} (hi : i.natAbs ≤ b) (hb : b < 2 ^ 63) :
    ∃ v, exact i = .ok v ∧ v.Within b := by
  have hin : InInt64 i := ⟨by omega, by omega⟩
  refine ⟨.int (Int64.ofInt i), exact_eq_ok_iff.mpr ⟨hin, rfl⟩, _, rfl, ?_⟩
  rwa [toInt_ofInt hin]

theorem Within.add {v w : Value} {a b : Nat} (hv : v.Within a) (hw : w.Within b)
    (hab : a + b < 2 ^ 63) : ∃ u, v.add w = .ok u ∧ u.Within (a + b) := by
  obtain ⟨m, rfl, hm⟩ := hv
  obtain ⟨n, rfl, hn⟩ := hw
  exact exists_exact (by omega) hab

theorem Within.subtract {v w : Value} {a b : Nat} (hv : v.Within a) (hw : w.Within b)
    (hab : a + b < 2 ^ 63) : ∃ u, v.subtract w = .ok u ∧ u.Within (a + b) := by
  obtain ⟨m, rfl, hm⟩ := hv
  obtain ⟨n, rfl, hn⟩ := hw
  exact exists_exact (by omega) hab

end Value

theorem exists_foldlM_add {b : Nat} : ∀ {values : List Value} {acc : Value} {a : Nat},
    acc.Within a → (∀ v ∈ values, v.Within b) → a + values.length * b < 2 ^ 63 →
    ∃ v, values.foldlM Value.add acc = .ok v
  | [], acc, _, _, _, _ => ⟨acc, rfl⟩
  | v :: vs, acc, a, hacc, hvalues, hlt => by
    obtain ⟨hv, hvs⟩ := List.forall_mem_cons.mp hvalues
    rw [List.length_cons, Nat.succ_mul] at hlt
    obtain ⟨u, hu, hwithin⟩ := hacc.add hv (by omega)
    obtain ⟨w, hw⟩ := exists_foldlM_add hwithin hvs (by omega)
    refine ⟨w, ?_⟩
    rw [List.foldlM_cons, hu]
    exact hw

/-- A sum succeeds if the bound, as often as there are values, fits. -/
theorem exists_sumOf {values : List Value} {b : Nat} (h : ∀ v ∈ values, v.Within b)
    (hlt : values.length * b < 2 ^ 63) : ∃ v, sumOf values = .ok v :=
  exists_foldlM_add (a := 0) ⟨0, rfl, by decide⟩ h (by omega)

namespace Arithmetic

theorem exists_onValues {v w : Value} {a b : Nat} (op : Arithmetic) (hv : v.Within a)
    (hw : w.Within b) (hab : a + b < 2 ^ 63) :
    ∃ u, op.onValues v w = .ok u ∧ u.Within (a + b) := by
  cases op with
  | add => exact hv.add hw hab
  | subtract => exact hv.subtract hw hab

theorem exists_mapM_onValues {a b : Nat} (op : Arithmetic) (hab : a + b < 2 ^ 63) :
    ∀ {pairs : List (Value × Value)}, (∀ p ∈ pairs, p.1.Within a ∧ p.2.Within b) →
      ∃ us, (pairs.mapM fun p => op.onValues p.1 p.2) = .ok us ∧ us.length = pairs.length ∧
        ∀ u ∈ us, u.Within (a + b)
  | [], _ => ⟨[], rfl, rfl, fun _ h => absurd h List.not_mem_nil⟩
  | p :: ps, h => by
    obtain ⟨hp, hps⟩ := List.forall_mem_cons.mp h
    obtain ⟨u, hu, hwithin⟩ := exists_onValues op hp.1 hp.2 hab
    obtain ⟨us, hus, hlength, hall⟩ := exists_mapM_onValues op hab hps
    refine ⟨u :: us, ?_, by rw [List.length_cons, List.length_cons, hlength], ?_⟩
    · rw [List.mapM_cons, hu, ok_bind, hus]
      rfl
    · exact List.forall_mem_cons.mpr ⟨hwithin, hall⟩

/-- Vectors of one length have a vector of sums or differences, if the bounds
together fit. -/
theorem exists_apply {left right : List Value} {a b : Nat} (op : Arithmetic)
    (hlength : left.length = right.length) (hleft : ∀ v ∈ left, v.Within a)
    (hright : ∀ v ∈ right, v.Within b) (hab : a + b < 2 ^ 63) :
    ∃ us, op.apply left right = .ok us ∧ us.length = left.length ∧
      ∀ u ∈ us, u.Within (a + b) := by
  have hpairs : ∀ p ∈ left.zip right, p.1.Within a ∧ p.2.Within b := fun p hp =>
    ⟨hleft p.1 (List.of_mem_zip hp).1, hright p.2 (List.of_mem_zip hp).2⟩
  obtain ⟨us, hus, hus_length, hall⟩ := exists_mapM_onValues op hab hpairs
  refine ⟨us, ?_, ?_, hall⟩
  · rw [apply, if_pos hlength, hus]
  · rw [hus_length, List.length_zip, ← hlength, Nat.min_self]

end Arithmetic
end Columnar
