/-
# Fetched values in place of the column

A vector fetched at the positions of a set holds, for each position, the
value of the column there. So to test the values paired with the positions
(`PositionSet.selectPaired`) is to test the rows of the column itself
(`Column.selectAmong`), and neither can fail.

Key theorems: `Column.fetch_eq_ok_iff`, `Column.exists_fetch`,
`Column.selectAmong_of_fetch`, `PositionSet.selectPaired_of_fetch`.
-/
import Columnar.Proofs.Growth

namespace Columnar

namespace Column

theorem fetch_eq_ok_iff {c : Column} {s : PositionSet} {values : List Value} :
    c.fetch s = .ok values ↔ s.positions.map (c.values[·]?) = values.map some := by
  rw [fetch, mapM_eq_ok_iff]
  generalize s.positions = ps
  induction ps generalizing values with
  | nil => simp
  | cons p ps ih =>
    cases values with
    | nil => simp
    | cons v values =>
      simp only [List.map_cons, List.cons.injEq, valueAt_eq_ok_iff, ih]

theorem length_of_fetch {c : Column} {s : PositionSet} {values : List Value}
    (h : c.fetch s = .ok values) : s.size = values.length := by
  simpa [PositionSet.size] using congrArg List.length (fetch_eq_ok_iff.mp h)

theorem exists_value_of_fetch {c : Column} {s : PositionSet} {values : List Value}
    (h : c.fetch s = .ok values) {p : Nat} (hp : p ∈ s) : ∃ v, c.values[p]? = some v := by
  have hmem : c.values[p]? ∈ values.map some :=
    fetch_eq_ok_iff.mp h ▸ List.mem_map.mpr ⟨p, hp, rfl⟩
  obtain ⟨v, -, hv⟩ := List.mem_map.mp hmem
  exact ⟨v, hv.symm⟩

theorem exists_fetch {c : Column} {s : PositionSet} (h : ∀ p ∈ s, p < c.size) :
    ∃ values, c.fetch s = .ok values := by
  refine ⟨s.positions.map fun p => c.values.getD p (.int 0), fetch_eq_ok_iff.mpr ?_⟩
  rw [List.map_map]
  refine List.map_congr_left fun p hp => ?_
  have hlt : p < c.values.size := h p hp
  simp [Array.getD_eq_getD_getElem?, hlt]

theorem Extends.fetch {c d : Column} (h : c.Extends d) {s : PositionSet} {values : List Value}
    (hf : c.fetch s = .ok values) : d.fetch s = .ok values := by
  rw [fetch_eq_ok_iff, ← fetch_eq_ok_iff.mp hf]
  refine List.map_congr_left fun p hp => ?_
  obtain ⟨v, hv⟩ := exists_value_of_fetch hf hp
  rw [hv]
  exact h p v hv

end Column

/-- Row by row, the value paired with a position is the column's own. -/
theorem map_fst_filter_zip {c : Column} {r : Range} : ∀ {ps : List Nat} {values : List Value},
    ps.map (c.values[·]?) = values.map some →
    ((ps.zip values).filter fun p => r.contains p.2).map (·.1) = ps.filter (c.inRange r)
  | [], _, _ => by simp
  | _ :: _, [], h => by simp at h
  | p :: ps, v :: values, h => by
    simp only [List.map_cons, List.cons.injEq] at h
    have ih := map_fst_filter_zip (r := r) h.2
    have hv : c.inRange r p = r.contains v := by simp [Column.inRange, h.1]
    rw [List.zip_cons_cons, List.filter_cons, List.filter_cons, hv]
    split
    · rw [List.map_cons, ih]
    · exact ih

/-- Fetched values select the rows of the column that lie in the range. -/
theorem PositionSet.selectPaired_of_fetch {c : Column} {s : PositionSet} {values : List Value}
    (h : c.fetch s = .ok values) (r : Range) :
    s.selectPaired values r = .ok (s.filter (c.inRange r)) := by
  rw [selectPaired, if_pos (Column.length_of_fetch h), Except.ok.injEq]
  exact PositionSet.ext (map_fst_filter_zip (Column.fetch_eq_ok_iff.mp h))

/-- Where values were fetched, the column itself can be searched again. -/
theorem Column.selectAmong_of_fetch {c : Column} {s : PositionSet} {values : List Value}
    (h : c.fetch s = .ok values) (r : Range) :
    c.selectAmong r s = .ok (s.filter (c.inRange r)) := by
  unfold selectAmong
  cases hlast : s.last? with
  | some p =>
    obtain ⟨v, hv⟩ := exists_value_of_fetch h (List.mem_of_getLast? hlast)
    exact if_pos (Array.getElem?_eq_some_iff.mp hv).1
  | none =>
    have hnil : s.positions = [] := List.getLast?_eq_none_iff.mp hlast
    rw [Except.ok.injEq]
    exact PositionSet.ext (by simp [PositionSet.filter, hnil])

/-! ### Positions are only left out -/

theorem Column.mem_of_selectAmong {c : Column} {r : Range} {s kept : PositionSet}
    (h : c.selectAmong r s = .ok kept) {p : Nat} (hp : p ∈ kept) : p ∈ s := by
  unfold selectAmong at h
  split at h
  · split at h
    · cases h
      exact (PositionSet.mem_filter.mp hp).1
    · cases h
  · cases h
    exact hp

theorem PositionSet.mem_of_selectPaired {r : Range} {values : List Value} {s kept : PositionSet}
    (h : s.selectPaired values r = .ok kept) {p : Nat} (hp : p ∈ kept) : p ∈ s := by
  unfold selectPaired at h
  split at h
  · cases h
    exact ((List.filter_sublist.map _).trans (map_fst_zip_sublist _ _)).subset hp
  · cases h

end Columnar
