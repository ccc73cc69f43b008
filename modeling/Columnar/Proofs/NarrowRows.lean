/-
# The rows of the narrow table

One column of the narrow table counts the rows, and the other has ten more, shuffled.
The shuffle exchanges items in place, from the last place down, each with one at or
before it. So both places are there whenever items are exchanged: a shuffle that
stopped where one was missing would never stop (`shuffle?_eq`), and nothing is
lost or doubled, whatever is drawn.

In a column that counts the rows the positions of a window are the integers in it, as
far as there are rows (`Fixture.select_counting`).

Key definitions: `shuffle?`, `PositionSet.between`.
Key theorems: `shuffle?_eq`, `Fixture.map_toInt_counting`,
`Fixture.select_counting`, `Fixture.narrow_row_by_row`.
-/
import Columnar.Proofs.Answers
import Columnar.Proofs.Chaining
import Columnar.Proofs.Fixtures

namespace Columnar

/-! ### Exchanges -/

/-- The exchanges of a shuffle, which stops where one of the two places is missing. -/
def shuffleDown? {α : Type} (limit : Nat) :
    Nat → Array α → Keystream → Option (Array α × Keystream)
  | 0, items, k => some (items, k)
  | i + 1, items, k =>
    let (j, k) := belowWithin (indexLane (i + 2)) (i + 2) limit k
    if h : i + 1 < items.size ∧ j < items.size then
      shuffleDown? limit i (items.swap (i + 1) j h.1 h.2) k
    else none

/-- From any place on down, both places of every exchange are there. -/
theorem shuffleDown?_eq {α : Type} (limit : Nat) : ∀ (i : Nat) (items : Array α) (k : Keystream),
    i ≤ items.size - 1 → shuffleDown? limit i items k = some (shuffleDown limit i items k)
  | 0, _, _, _ => rfl
  | i + 1, items, k, hi => by
    have hbelow := belowWithin_lt (indexLane (i + 2)) (Nat.succ_pos (i + 1)) limit k
    have hplaces : i + 1 < items.size ∧
        (belowWithin (indexLane (i + 2)) (i + 2) limit k).1 < items.size :=
      ⟨by omega, Nat.lt_of_lt_of_le hbelow (by omega)⟩
    rw [shuffleDown?, shuffleDown]
    simp only [hplaces, and_self, dif_pos, Array.swapIfInBounds_def]
    refine shuffleDown?_eq limit i _ _ ?_
    rw [Array.size_swap]
    omega

/-- The items in random order, if every exchange finds both its places. -/
def shuffle? {α : Type} (limit : Nat) (items : Array α) (k : Keystream) :
    Option (Array α × Keystream) :=
  shuffleDown? limit (items.size - 1) items k

theorem shuffle?_eq {α : Type} (limit : Nat) (items : Array α) (k : Keystream) :
    shuffle? limit items k = some (shuffleWithin limit items k) :=
  shuffleDown?_eq limit _ items k (Nat.le_refl _)

/-! ### Positions one after another -/

namespace PositionSet

/-- The positions from `first` up to but without `past`. -/
def between (first past : Nat) : PositionSet :=
  ⟨List.range' first (past - first), List.pairwise_lt_range'⟩

theorem mem_between {first past p : Nat} : p ∈ between first past ↔ first ≤ p ∧ p < past := by
  have hmem : p ∈ between first past ↔ first ≤ p ∧ p < first + (past - first) :=
    List.mem_range'_1
  rw [hmem]
  omega

end PositionSet

namespace Fixture

/-! ### Counting -/

theorem map_toInt_counting {first count : Nat} (h : first + count ≤ 2 ^ 63) :
    (counting first count).map Int64.toInt =
      (List.range count).map fun i => ((first + i : Nat) : Int) := by
  rw [counting, List.map_map]
  refine List.map_congr_left fun i hi => Int64.toInt_ofNat_of_lt ?_
  have hlt := List.mem_range.mp hi
  omega

theorem getElem?_counting {first count i : Nat} (hi : i < count) :
    (counting first count)[i]? = some (Int64.ofNat (first + i)) := by
  simp [counting, hi]

/-- In a column that counts its rows the positions of a window are its integers. -/
theorem select_counting (field : String) {rows : Nat} (hrows : rows ≤ 2 ^ 63) (w : Window) :
    (Column.ofInts field (counting 0 rows)).select w.range =
      PositionSet.between (max w.low.toInt 0).toNat (min w.high.toInt rows).toNat := by
  refine PositionSet.eq_of_mem_iff fun p => ?_
  rw [counting, select_ofInts, positionsWhere, PositionSet.mem_filter, PositionSet.mem_all,
    PositionSet.mem_between, List.length_range]
  rcases Nat.lt_or_ge p rows with hp | hp
  · have hvalue : (Int64.ofNat (0 + p)).toInt = p := by
      rw [Nat.zero_add]
      exact Int64.toInt_ofNat_of_lt (by omega)
    rw [List.getElem?_range hp, Option.any_some, w.contains_range, Window.holds]
    simp only [Bool.and_eq_true, decide_eq_true_eq, Int64.le_iff_toInt_le,
      Int64.lt_iff_toInt_lt, hvalue]
    omega
  · omega

/-- **The narrow table counts its rows and has ten more, each once.** Of less than
`2 ^ 62` rows, from every seed and for every limit of refusals the table is made, with
its name, its two columns and as many rows as were asked for. The shuffle of the
second column finds both places of every exchange. The first column has the number of
each row; the second has every integer from ten up to but without ten more than the
rows, once, and no other. So a window on the first column selects the rows from its
low end on that are below its high end. -/
theorem narrow_row_by_row (limit : Nat) {rows : Nat} (hrows : rows < 2 ^ 62) (seed : UInt64) :
    ∃ t xs ys, narrowWithin limit rows seed = .ok t ∧ t.name = narrowName ∧ t.rowCount = rows ∧
      t.columns = [Column.ofInts "col1" xs, Column.ofInts "col2" ys] ∧
      (∃ last, shuffle? limit (counting 10 rows).toArray (Keystream.ofSeed seed) =
        some (ys.toArray, last)) ∧
      (∀ i < rows, ∃ x, xs[i]? = some x ∧ x.toInt = i) ∧
      (ys.map Int64.toInt).Perm ((List.range rows).map fun i => ((10 + i : Nat) : Int)) ∧
      (∀ v, (ys.map Int64.toInt).count v = if 10 ≤ v ∧ v < rows + 10 then 1 else 0) ∧
      ∀ w : Window, (Column.ofInts "col1" xs).select w.range =
        PositionSet.between (max w.low.toInt 0).toNat (min w.high.toInt rows).toNat := by
  obtain ⟨t, ys, ht, hname, hcount, hshuffle, hperm, hcols⟩ := exists_narrow_columns limit rows seed
  have hexchanged : shuffle? limit (counting 10 rows).toArray (Keystream.ofSeed seed) =
      some (ys.toArray,
        (shuffleWithin limit (counting 10 rows).toArray (Keystream.ofSeed seed)).2) := by
    rw [shuffle?_eq, ← hshuffle, Array.toArray_toList]
  have hints : (ys.map Int64.toInt).Perm ((List.range rows).map fun i => ((10 + i : Nat) : Int)) := by
    rw [← map_toInt_counting (by omega)]
    exact hperm.map Int64.toInt
  refine ⟨t, counting 0 rows, ys, ht, hname, hcount, hcols, ⟨_, hexchanged⟩, fun i hi => ?_,
    hints, fun v => ?_, select_counting "col1" (by omega)⟩
  · refine ⟨_, getElem?_counting hi, ?_⟩
    rw [Nat.zero_add]
    exact Int64.toInt_ofNat_of_lt (by omega)
  · have hnodup : ((List.range rows).map fun i => ((10 + i : Nat) : Int)).Nodup :=
      List.nodup_range.map fun i j hij => by omega
    have hmem : v ∈ (List.range rows).map (fun i => ((10 + i : Nat) : Int)) ↔
        10 ≤ v ∧ v < rows + 10 := by
      rw [List.mem_map]
      constructor
      · rintro ⟨i, hi, rfl⟩
        have hlt := List.mem_range.mp hi
        omega
      · rintro ⟨hge, hlt⟩
        exact ⟨(v - 10).toNat, List.mem_range.mpr (by omega), by omega⟩
    rw [hints.count_eq, hnodup.count]
    simp only [hmem]

/-- Four rows, and a window that begins before the first. -/
theorem narrow_row_by_row_four : 4 < 2 ^ 62 ∧ ∃ t xs ys, narrow 4 47 = .ok t ∧
    t.rowCount = 4 ∧ t.columns = [Column.ofInts "col1" xs, Column.ofInts "col2" ys] ∧
      (ys.map Int64.toInt).Perm [10, 11, 12, 13] ∧
      (Column.ofInts "col1" xs).select (Window.range ⟨-3, 2⟩) = PositionSet.between 0 2 := by
  have hrows : 4 < 2 ^ 62 := by decide
  obtain ⟨t, xs, ys, ht, -, hcount, hcols, -, -, hperm, -, hselect⟩ :=
    narrow_row_by_row redrawLimit hrows 47
  exact ⟨hrows, t, xs, ys, ht, hcount, hcols, hperm, hselect ⟨-3, 2⟩⟩

end Fixture
end Columnar
