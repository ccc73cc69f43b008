/-
# The rows of the wide table

The wide table is made out of one stream of draws (`Fixture.WideDraws`). First comes
a block with four numbers for every row, then the third column, then the fourth. The
block is read four by four: row `i` has the number at `4 * i` for its first integer
and the sum of that and the one at `4 * i + 1` for its second, and the other two are
not used (`Fixture.getElem?_leadingPairs`).

So each integer is bounded by the interval that it, or the number added for it, is
drawn from, whatever the keystream and the limit of refusals, and up to `2 ^ 60` rows
no sum leaves 64 bits (`Fixture.wide_row_by_row`).

Key definitions: `Fixture.IsWideRow`.
Key theorems: `Fixture.getElem?_leadingPairs`, `Fixture.map_cell_ofInts`,
`Fixture.wide_row_by_row`.
-/
import Columnar.Proofs.Fixtures

namespace Columnar
namespace Fixture

/-! ### Rows of integers -/

theorem cell_ofInts {name : String} {xs : List Int64} {i : Nat} {x : Int64} (h : xs[i]? = some x) :
    (Column.ofInts name xs).cell i = .int x := by
  simp [Column.cell, Column.ofInts, Array.getD_eq_getD_getElem?, h]

theorem map_cell_ofInts {i : Nat} : ∀ {names : List String} {ints : List (List Int64)}
    {row : List Int64}, ints.length = names.length → ints.map (·[i]?) = row.map some →
    (List.zipWith Column.ofInts names ints).map (·.cell i) = row.map .int
  | [], [], [], _, _ => rfl
  | [], _ :: _, _, h, _ => by simp at h
  | _ :: _, [], _, h, _ => by simp at h
  | [], [], _ :: _, _, h => by simp at h
  | _ :: _, _ :: _, [], _, h => by simp at h
  | name :: names, xs :: ints, x :: row, hlength, h => by
    simp only [List.map_cons, List.cons.injEq] at h
    rw [List.zipWith_cons_cons, List.map_cons, List.map_cons, cell_ofInts h.1,
      map_cell_ofInts (Nat.succ.inj hlength) h.2]

/-! ### The block -/

/-- The block is read four by four. -/
theorem getElem?_leadingPairs : ∀ {n i : Nat} {block : List Int64}, block.length = n * 4 → i < n →
    ∃ x y, block[4 * i]? = some x ∧ block[4 * i + 1]? = some y ∧
      (leadingPairs block)[i]? = some (x, y)
  | 0, i, _, _, hi => absurd hi (Nat.not_lt_zero i)
  | n + 1, 0, x :: y :: _ :: _ :: _, _, _ => ⟨x, y, rfl, rfl, rfl⟩
  | n + 1, i + 1, _ :: _ :: _ :: _ :: rest, hlength, hi => by
    have hrest : rest.length = n * 4 := by
      simp only [List.length_cons] at hlength
      omega
    obtain ⟨x, y, hx, hy, hpair⟩ := getElem?_leadingPairs hrest (Nat.lt_of_succ_lt_succ hi)
    exact ⟨x, y, hx, hy, hpair⟩
  | n + 1, _, [], h, _ | n + 1, _, [_], h, _ | n + 1, _, [_, _], h, _
  | n + 1, _, [_, _, _], h, _ => by
    simp only [List.length_cons, List.length_nil] at h
    omega

/-! ### The rows -/

/-- What the integers of a row are, where `half` is half the number of rows. -/
structure IsWideRow (half : Int) (a b c d : Int64) : Prop where
  first : -half ≤ a.toInt ∧ a.toInt < max half (1 - half)
  second : -half ≤ b.toInt - a.toInt ∧ b.toInt - a.toInt < max half (1 - half)
  third : 0 ≤ c.toInt ∧ c.toInt < 100
  fourth : 2 ^ 31 - 10000 ≤ d.toInt ∧ d.toInt < 2 ^ 31

/-- **Every row of the wide table has its draws.** Of up to `2 ^ 60` rows, from every
keystream and for every limit of refusals the table is made, with its name, its four
columns and as many rows as were asked for. The first integer of row `i` is the draw
`4 * i` of the block, and the second is the draw after that with the first added to
it; the third and the fourth are the draws `i` of those that follow the block. No sum
wraps, and each of the four integers is within its bounds. -/
theorem wide_row_by_row (limit : Nat) {rows : Nat} (hrows : rows ≤ 2 ^ 60) (k : Keystream) :
    ∃ t block small large last, WideDraws limit rows k block small large last ∧
      (wideWithin limit rows).run k = (.ok t, last) ∧ t.name = wideName ∧
      t.columns.map Column.name = ["col1", "col2", "col3", "col4"] ∧ t.rowCount = rows ∧
      (block.length = 4 * rows ∧ small.length = rows ∧ large.length = rows) ∧
      ∀ i < rows, ∃ a y c d, t.rowAt i = [.int a, .int (y + a), .int c, .int d] ∧
        block[4 * i]? = some a ∧ block[4 * i + 1]? = some y ∧
        small[i]? = some c ∧ large[i]? = some d ∧
        (y + a).toInt = y.toInt + a.toInt ∧ IsWideRow (rows / 2 : Nat) a (y + a) c d := by
  have hword : rows < 2 ^ 64 := by omega
  obtain ⟨t, block, small, large, last, hdraws, ht, hname, hcount, hcols, ⟨hlength₁, hin₁⟩,
    ⟨hlength₂, hin₂⟩, hlength₃, hin₃⟩ := exists_wide_columns limit hword k
  refine ⟨t, block, small, large, last, hdraws, ht, hname, ?_, hcount,
    ⟨by omega, hlength₂, hlength₃⟩, fun i hi => ?_⟩
  · rw [hcols, map_name_ofInts rfl]
    rfl
  · obtain ⟨a, y, ha, hy, hpair⟩ := getElem?_leadingPairs hlength₁ hi
    have hc : small[i]? = some small[i] := List.getElem?_eq_getElem (by omega)
    have hd : large[i]? = some large[i] := List.getElem?_eq_getElem (by omega)
    have hplaces : [(leadingPairs block).map (·.1), (leadingPairs block).map (fun p => p.2 + p.1),
        small, large].map (·[i]?) = [a, y + a, small[i], large[i]].map some := by
      simp [hpair, hc, hd]
    have hrow : t.rowAt i = [.int a, .int (y + a), .int small[i], .int large[i]] := by
      rw [Table.rowAt, hcols]
      exact map_cell_ofInts rfl hplaces
    have hina := hin₁ a (List.mem_of_getElem? ha)
    have hiny := hin₁ y (List.mem_of_getElem? hy)
    have hsum := toInt_add_of_block hrows hiny hina
    obtain ⟨hlow, hhigh⟩ := toInt_block hword
    rw [InInterval, hlow, hhigh] at hina hiny
    refine ⟨a, y, small[i], large[i], hrow, ha, hy, hc, hd, hsum, hina, ?_, ?_, ?_⟩
    · rw [hsum, Int.add_sub_cancel]
      exact hiny
    · exact hin₂ _ (List.getElem_mem _)
    · exact hin₃ _ (List.getElem_mem _)

/-- The last of three rows: the block has its numbers at eight and nine. -/
theorem wide_row_by_row_three : 3 ≤ 2 ^ 60 ∧ ∃ t block small large last,
    WideDraws redrawLimit 3 (Keystream.ofSeed 47) block small large last ∧
      (wide 3).run (Keystream.ofSeed 47) = (.ok t, last) ∧ t.rowCount = 3 ∧
      ∃ a y c d, t.rowAt 2 = [.int a, .int (y + a), .int c, .int d] ∧ block[8]? = some a ∧
        block[9]? = some y ∧ small[2]? = some c ∧ large[2]? = some d ∧
        IsWideRow 1 a (y + a) c d := by
  have hrows : 3 ≤ 2 ^ 60 := by decide
  obtain ⟨t, block, small, large, last, hdraws, ht, -, -, hcount, -, hrow⟩ :=
    wide_row_by_row redrawLimit hrows (Keystream.ofSeed 47)
  obtain ⟨a, y, c, d, hcells, ha, hy, hc, hd, -, hbounds⟩ := hrow 2 (by decide)
  exact ⟨hrows, t, block, small, large, last, hdraws, ht, hcount, a, y, c, d, hcells, ha, hy, hc,
    hd, hbounds⟩

end Fixture
end Columnar
