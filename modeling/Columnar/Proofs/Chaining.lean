/-
# Selections one after another

A position set is determined by its members, since it is ascending
(`PositionSet.eq_of_mem_iff`). So the three ways to narrow a set by a range can be
compared row by row: to test the column at the positions of the set
(`Column.selectAmong`), to scan the whole column and intersect
(`Column.filter_inRange_eq_inter`), and to test the values fetched at the positions
(`PositionSet.selectPaired_of_fetch`).

They also agree on when there is nothing to test. A fetch finds the first
position past the end of the column (`Column.fetch_eq_error_iff`), a selection
looks only at the last position of the set (`Column.selectAmong_eq_error_iff`); in
an ascending list the last position is past the end if any is. So a selection that
has passed its one check reads no position past the end.

Key theorems: `PositionSet.eq_of_mem_iff`, `Column.selectAmong_eq_error_iff`,
`Column.fetch_eq_error_iff`, `Column.select_chained`, `Column.fetch_agrees`.
-/
import Columnar.Proofs.Fetch
import Columnar.Proofs.Tiling
import Mathlib.Data.List.Sort

namespace Columnar

/-! ### Positions in order -/

namespace PositionSet

/-- **A position set is its members.** -/
theorem eq_of_mem_iff {s t : PositionSet} (h : ∀ p, p ∈ s ↔ p ∈ t) : s = t :=
  PositionSet.ext (s.ascending.eq_of_mem_iff t.ascending h)

theorem le_of_last? {s : PositionSet} {p : Nat} (h : s.last? = some p) :
    p ∈ s ∧ ∀ q ∈ s, q ≤ p := by
  refine ⟨List.mem_of_getLast? h, fun q hq => ?_⟩
  obtain ⟨front, hfront⟩ := List.getLast?_eq_some_iff.mp h
  have hascending := s.ascending
  have hmem : q ∈ s.positions := hq
  rw [hfront] at hascending hmem
  rcases List.mem_append.mp hmem with hq | hq
  · exact Nat.le_of_lt ((List.pairwise_append.mp hascending).2.2 q hq p List.mem_cons_self)
  · exact Nat.le_of_eq (List.mem_singleton.mp hq)

theorem exists_last? {s : PositionSet} {p : Nat} (hp : p ∈ s) : ∃ q, s.last? = some q :=
  ⟨_, List.getLast?_eq_some_getLast (List.ne_nil_of_mem hp)⟩

/-- **The last position is the largest.** -/
theorem last?_eq_some_iff {s : PositionSet} {p : Nat} :
    s.last? = some p ↔ p ∈ s ∧ ∀ q ∈ s, q ≤ p := by
  refine ⟨le_of_last?, fun ⟨hp, hle⟩ => ?_⟩
  obtain ⟨q, hlast⟩ := exists_last? hp
  obtain ⟨hq, hge⟩ := le_of_last? hlast
  rw [hlast, Nat.le_antisymm (hle q hq) (hge p hp)]

end PositionSet

/-! ### Positions past the end -/

namespace Column

variable {c : Column} {s : PositionSet}

/-- **A selection fails with the last position** if that is past the end. -/
theorem selectAmong_eq_error_iff {r : Range} {fault : Fault} :
    c.selectAmong r s = .error fault ↔
      ∃ p ∈ s, (∀ q ∈ s, q ≤ p) ∧ c.size ≤ p ∧ fault = .positionOutOfRange p c.size := by
  constructor
  · intro h
    unfold selectAmong at h
    split at h
    · rename_i p hlast
      obtain ⟨hp, hle⟩ := PositionSet.le_of_last? hlast
      split at h
      · cases h
      · rename_i hge
        exact ⟨p, hp, hle, Nat.le_of_not_lt hge, (Except.error.inj h).symm⟩
    · cases h
  · rintro ⟨p, hp, hle, hge, rfl⟩
    have hlast : s.last? = some p := PositionSet.last?_eq_some_iff.mpr ⟨hp, hle⟩
    rw [selectAmong, hlast]
    exact if_neg (Nat.not_lt.mpr hge)

theorem exists_selectAmong_error_iff {r : Range} :
    (∃ p, c.selectAmong r s = .error (.positionOutOfRange p c.size)) ↔ ∃ p ∈ s, c.size ≤ p := by
  constructor
  · rintro ⟨p, h⟩
    obtain ⟨q, hq, -, hge, -⟩ := selectAmong_eq_error_iff.mp h
    exact ⟨q, hq, hge⟩
  · rintro ⟨p, hp, hge⟩
    obtain ⟨q, hlast⟩ := PositionSet.exists_last? hp
    obtain ⟨hq, hle⟩ := PositionSet.le_of_last? hlast
    exact ⟨q, selectAmong_eq_error_iff.mpr ⟨q, hq, hle, Nat.le_trans hge (hle p hp), rfl⟩⟩

theorem valueAt_eq_error_iff {p : Nat} {fault : Fault} :
    c.valueAt p = .error fault ↔ c.size ≤ p ∧ fault = .positionOutOfRange p c.size := by
  unfold valueAt
  rcases Nat.lt_or_ge p c.size with hlt | hge
  · rw [Array.getElem?_eq_getElem hlt]
    simp [Nat.not_le.mpr hlt]
  · rw [Array.getElem?_eq_none hge]
    simp [hge, eq_comm]

/-- **A fetch fails with the first position** that is past the end. -/
theorem fetch_eq_error_iff {fault : Fault} :
    c.fetch s = .error fault ↔
      ∃ p ∈ s, (∀ q ∈ s, c.size ≤ q → p ≤ q) ∧ c.size ≤ p ∧
        fault = .positionOutOfRange p c.size := by
  have hascending := s.ascending
  rw [fetch, mapM_eq_error_iff]
  constructor
  · rintro ⟨front, p, rest, hsplit, hfront, hp⟩
    obtain ⟨hge, hfault⟩ := valueAt_eq_error_iff.mp hp
    rw [hsplit, List.pairwise_append, List.pairwise_cons] at hascending
    refine ⟨p, (hsplit ▸ List.mem_append_cons_self : p ∈ s.positions), fun q hq hge' => ?_, hge,
      hfault⟩
    have hmem : q ∈ front ++ p :: rest := hsplit ▸ hq
    rcases List.mem_append.mp hmem with hq | hq
    · obtain ⟨v, hv⟩ := hfront q hq
      rw [valueAt_eq_error_iff.mpr ⟨hge', rfl⟩] at hv
      cases hv
    · rcases List.mem_cons.mp hq with rfl | hq
      · exact Nat.le_refl _
      · exact Nat.le_of_lt (hascending.2.1.1 q hq)
  · rintro ⟨p, hp, hleast, hge, hfault⟩
    obtain ⟨front, rest, hsplit⟩ := List.append_of_mem (show p ∈ s.positions from hp)
    rw [hsplit, List.pairwise_append] at hascending
    refine ⟨front, p, rest, hsplit, fun q hq => ?_, valueAt_eq_error_iff.mpr ⟨hge, hfault⟩⟩
    have hlt := hascending.2.2 q hq p List.mem_cons_self
    have hq' : q ∈ s.positions := hsplit ▸ List.mem_append_left _ hq
    cases hvalue : c.valueAt q with
    | ok v => exact ⟨v, rfl⟩
    | error _ =>
      have hle := hleast q hq' (valueAt_eq_error_iff.mp hvalue).1
      omega

theorem exists_fetch_error_iff :
    (∃ p, c.fetch s = .error (.positionOutOfRange p c.size)) ↔ ∃ p ∈ s, c.size ≤ p := by
  constructor
  · rintro ⟨p, h⟩
    obtain ⟨q, hq, -, hge, -⟩ := fetch_eq_error_iff.mp h
    exact ⟨q, hq, hge⟩
  · rintro ⟨p, hp, hge⟩
    cases hfetch : c.fetch s with
    | ok values =>
      obtain ⟨v, hv⟩ := exists_value_of_fetch hfetch hp
      have hlt : p < c.size := (Array.getElem?_eq_some_iff.mp hv).1
      omega
    | error fault =>
      obtain ⟨q, -, -, -, rfl⟩ := fetch_eq_error_iff.mp hfetch
      exact ⟨q, rfl⟩

/-! ### The rows in a range -/

theorem inRange_iff {r : Range} {p : Nat} :
    c.inRange r p = true ↔ ∃ v, c.values[p]? = some v ∧ r.contains v = true := by
  unfold inRange
  cases c.values[p]? <;> simp

theorem exists_getElem?_of_fetch {values : List Value} (h : c.fetch s = .ok values) {i p : Nat}
    (hp : s.positions[i]? = some p) : ∃ v, values[i]? = some v ∧ c.values[p]? = some v := by
  have hplaces := congrArg (·[i]?) (fetch_eq_ok_iff.mp h)
  simp only [List.getElem?_map, hp, Option.map_some] at hplaces
  obtain ⟨v, hv, hvalue⟩ := Option.map_eq_some_iff.mp hplaces.symm
  exact ⟨v, hv, hvalue.symm⟩

/-- Where all positions are rows, a selection keeps those in the range. -/
theorem selectAmong_of_inBounds (h : ∀ p ∈ s, p < c.size) (r : Range) :
    c.selectAmong r s = .ok (s.filter (c.inRange r)) := by
  obtain ⟨values, hvalues⟩ := exists_fetch h
  exact selectAmong_of_fetch hvalues r

theorem filter_inRange_eq_inter (c : Column) (s : PositionSet) (r : Range) :
    s.filter (c.inRange r) = s.inter (c.select r) := by
  refine PositionSet.eq_of_mem_iff fun p => ?_
  rw [PositionSet.mem_filter, PositionSet.mem_inter, mem_select, inRange_iff]

end Column

/-! ### What a range contains -/

namespace Bound

theorem admitsAsLow_iff {b : Bound} {v : Value} :
    b.admitsAsLow v = true ↔ ∀ l, b = .at l → l.AtMost v := by
  cases b with
  | unbounded => simp [admitsAsLow]
  | «at» l => simp [admitsAsLow_at]

theorem admitsAsHigh_iff {b : Bound} {v : Value} :
    b.admitsAsHigh v = true ↔ ∀ h, b = .at h → v.compare? h = some .lt := by
  cases b with
  | unbounded => simp [admitsAsHigh]
  | «at» h => simp [admitsAsHigh_at]

end Bound

/-- A NaN is in no range that has a bound. -/
theorem Range.contains_nan_iff {r : Range} : r.contains (.float .nan) = true ↔ r = .full := by
  have hnumber : ∀ v : Value, (Value.float .nan).compare? v = none := fun v => by cases v <;> rfl
  obtain ⟨low, high⟩ := r
  rw [contains_iff]
  cases low <;> cases high <;>
    simp [full, Bound.admitsAsLow, Bound.admitsAsHigh, hnumber]

namespace Column

/-- **A selection among selected rows is an intersection.** The rows of a
selection are, in order, those whose value is at the lower bound or above and
below the upper one; a NaN is selected only without bounds. To select among them
in another column fails if and only if one of them is past the end of that
column, and gives the rows that both selections have otherwise. -/
theorem select_chained (c₁ c₂ : Column) (r₁ r₂ : Range) :
    let s := c₁.select r₁
    s.positions.Pairwise (· < ·) ∧
    (∀ p, p ∈ s ↔ ∃ v, c₁.values[p]? = some v ∧
      (∀ l, r₁.low = .at l → l.AtMost v) ∧ ∀ h, r₁.high = .at h → v.compare? h = some .lt) ∧
    (∀ p, c₁.values[p]? = some (.float .nan) → (p ∈ s ↔ r₁ = .full)) ∧
    ((∃ p, c₂.selectAmong r₂ s = .error (.positionOutOfRange p c₂.size)) ↔
      ∃ p ∈ s, c₂.size ≤ p) ∧
    ((∀ p ∈ s, p < c₂.size) → c₂.selectAmong r₂ s = .ok (s.inter (c₂.select r₂))) := by
  intro s
  refine ⟨s.ascending, fun p => ?_, fun p hp => ?_, ?_, fun h => ?_⟩
  · simp only [s, mem_select, Range.contains_iff, Bound.admitsAsLow_iff, Bound.admitsAsHigh_iff]
  · rw [mem_select, hp, ← Range.contains_nan_iff]
    simp
  · exact exists_selectAmong_error_iff
  · rw [selectAmong_of_inBounds h, filter_inRange_eq_inter]

/-- **Fetching and selecting agree.** Both fail if a position of the set is past
the end of the column, and in no other case. If none is, a fetch gives the value
at each position, and the values that were fetched select what the column itself
selects. -/
theorem fetch_agrees (c : Column) (s : PositionSet) (r : Range) :
    ((∃ p, c.fetch s = .error (.positionOutOfRange p c.size)) ↔ ∃ p ∈ s, c.size ≤ p) ∧
    ((∃ p, c.selectAmong r s = .error (.positionOutOfRange p c.size)) ↔ ∃ p ∈ s, c.size ≤ p) ∧
    ((∀ p ∈ s, p < c.size) → ∃ values kept,
      c.fetch s = .ok values ∧ c.selectAmong r s = .ok kept ∧ values.length = s.size ∧
        (∀ i p : Nat, s.positions[i]? = some p → ∃ v, values[i]? = some v ∧ c.values[p]? = some v) ∧
        s.selectPaired values r = .ok kept) := by
  refine ⟨exists_fetch_error_iff, exists_selectAmong_error_iff, fun h => ?_⟩
  obtain ⟨values, hvalues⟩ := exists_fetch h
  exact ⟨values, s.filter (c.inRange r), hvalues, selectAmong_of_fetch hvalues r,
    (length_of_fetch hvalues).symm, fun i p hp => exists_getElem?_of_fetch hvalues hp,
    PositionSet.selectPaired_of_fetch hvalues r⟩

end Column
end Columnar
