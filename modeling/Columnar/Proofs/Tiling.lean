/-
# Ranges that share a bound

A half-open range that is cut at a value of its own falls into two halves. The
halves have no row in common, and a row of the whole range is in one of them.
A row of a half need not be in the whole range, though: values are compared
exactly if both are integers and as binary64 numbers otherwise, and with the
three values of a cut the two ways can disagree. An integer may be below the cut
while rounding makes it equal to the upper bound (`MergesAbove`), or below the
lower bound while rounding makes it equal to the cut (`MergesBelow`). These rows
and no others are in a half and not in the whole range (`Column.select_halves`).

Rounding tells the integers from `-2 ^ 53` up to `2 ^ 53` from every greater one,
so among these the halves make up the whole range.

Key definitions: `MergesAbove`, `MergesBelow`, `Value.IsSmall`.
Key theorems: `Range.contains_whole_iff`, `Column.select_halves`.
-/
import Columnar.Proofs.Order
import Columnar.Selection

namespace Columnar

/-- Below the middle as an integer, and not told from the upper bound, a float. -/
def MergesAbove (middle : Value) (high : Bound) (v : Value) : Prop :=
  ∃ i m x, v = .int i ∧ middle = .int m ∧ high = .at (.float x) ∧
    i.toInt < m.toInt ∧ v.compare? (.float x) = some .eq

/-- Below the lower bound as an integer, and not told from the middle, a float. -/
def MergesBelow (low : Bound) (middle v : Value) : Prop :=
  ∃ i l x, v = .int i ∧ low = .at (.int l) ∧ middle = .float x ∧
    i.toInt < l.toInt ∧ v.compare? (.float x) = some .eq

namespace Bound

theorem admitsAsLow_at {l v : Value} : (Bound.at l).admitsAsLow v = true ↔ l.AtMost v := by
  rw [Value.atMost_swap]
  simp [admitsAsLow]

theorem admitsAsHigh_at {h v : Value} :
    (Bound.at h).admitsAsHigh v = true ↔ v.compare? h = some .lt := by
  simp [admitsAsHigh]

section

variable {low high : Bound} {middle v : Value}

theorem admitsAsHigh_of_lt (hhigh : ∀ h, high = .at h → middle.AtMost h)
    (hlt : v.compare? middle = some .lt) (hmerges : ¬ MergesAbove middle high v) :
    high.admitsAsHigh v = true := by
  cases high with
  | unbounded => rfl
  | «at» h =>
    have hle := hhigh h rfl
    obtain ⟨a, ha⟩ := Value.exists_rank (Value.IsNumber.of_compare? hlt).1
    obtain ⟨b, hb⟩ := Value.exists_rank hle.isNumber.1
    obtain ⟨c, hc⟩ := Value.exists_rank hle.isNumber.2
    have hab := Value.AtMost.rank_le ha hb (.inl hlt)
    have hbc := hle.rank_le hb hc
    rw [admitsAsHigh_at]
    rcases Int.lt_or_eq_of_le (Int.le_trans hab hbc) with hac | hac
    · rw [Value.compare?_of_rank_ne ha hc (Int.ne_of_lt hac), Int.compare_eq_lt.mpr hac]
    · -- all three have one rank, so the value and the middle are integers
      rcases Value.compare?_of_rank_eq ha hb (by omega) with heq | ⟨i, m, rfl, rfl⟩
      · rw [hlt] at heq
        cases heq
      · have him : i.toInt < m.toInt := by
          simpa only [Value.compare?, Option.some.injEq, Int.compare_eq_lt] using hlt
        cases h with
        | int k =>
          have hmk := Value.atMost_int.mp hle
          rw [Value.compare?, Int.compare_eq_lt.mpr (by omega)]
        | float x =>
          have heq := Value.compare?_float ha hc rfl hac
          exact absurd ⟨i, m, x, rfl, rfl, rfl, him, heq⟩ hmerges

theorem admitsAsLow_of_atMost (hlow : ∀ l, low = .at l → l.AtMost middle)
    (hle : middle.AtMost v) (hmerges : ¬ MergesBelow low middle v) :
    low.admitsAsLow v = true := by
  cases low with
  | unbounded => rfl
  | «at» l =>
    have hle' := hlow l rfl
    obtain ⟨a, ha⟩ := Value.exists_rank hle'.isNumber.1
    obtain ⟨b, hb⟩ := Value.exists_rank hle.isNumber.1
    obtain ⟨c, hc⟩ := Value.exists_rank hle.isNumber.2
    have hab := hle'.rank_le ha hb
    have hbc := hle.rank_le hb hc
    rw [admitsAsLow_at]
    rcases Int.lt_or_eq_of_le (Int.le_trans hab hbc) with hac | hac
    · left
      rw [Value.compare?_of_rank_ne ha hc (Int.ne_of_lt hac), Int.compare_eq_lt.mpr hac]
    · rcases Value.compare?_of_rank_eq ha hc hac with heq | ⟨k, i, rfl, rfl⟩
      · exact .inr heq
      · rw [Value.atMost_int]
        by_contra hlt
        cases middle with
        | int m =>
          have hkm := Value.atMost_int.mp hle'
          have hmi := Value.atMost_int.mp hle
          omega
        | float x =>
          have heq := Value.compare?_float hc hb rfl (by omega)
          exact hmerges ⟨i, k, x, rfl, rfl, rfl, by omega, heq⟩

theorem not_mergesAbove (h : high.admitsAsHigh v = true) : ¬ MergesAbove middle high v := by
  rintro ⟨i, m, x, rfl, rfl, rfl, -, heq⟩
  rw [admitsAsHigh_at, heq] at h
  cases h

theorem not_mergesBelow (h : low.admitsAsLow v = true) : ¬ MergesBelow low middle v := by
  rintro ⟨i, l, x, rfl, rfl, rfl, hlt, -⟩
  rw [admitsAsLow_at, Value.atMost_int] at h
  omega

end

end Bound

/-! ### One value -/

namespace Range

variable {low high : Bound} {middle v : Value}

theorem contains_iff {r : Range} :
    r.contains v = true ↔ r.low.admitsAsLow v = true ∧ r.high.admitsAsHigh v = true := by
  rw [contains, Bool.and_eq_true]

/-- No value is in both halves. -/
theorem not_contains_both (hbelow : (⟨low, .at middle⟩ : Range).contains v = true) :
    ¬ (⟨.at middle, high⟩ : Range).contains v = true := by
  intro habove
  have hlt := Bound.admitsAsHigh_at.mp (contains_iff.mp hbelow).2
  have hle := Bound.admitsAsLow_at.mp (contains_iff.mp habove).1
  rw [Value.atMost_swap, hlt] at hle
  rcases hle with hle | hle <;> cases hle

/-- **A value is in the whole range** if it is in one of the halves and does not
merge with a bound. -/
theorem contains_whole_iff (hv : v.IsNumber) (hmiddle : middle.IsNumber)
    (hlow : ∀ l, low = .at l → l.AtMost middle) (hhigh : ∀ h, high = .at h → middle.AtMost h) :
    (⟨low, high⟩ : Range).contains v = true ↔
      ((⟨low, .at middle⟩ : Range).contains v = true ∨
        (⟨.at middle, high⟩ : Range).contains v = true) ∧
      ¬ MergesAbove middle high v ∧ ¬ MergesBelow low middle v := by
  simp only [contains_iff, Bound.admitsAsLow_at, Bound.admitsAsHigh_at]
  constructor
  · rintro ⟨hadmitsLow, hadmitsHigh⟩
    refine ⟨?_, Bound.not_mergesAbove hadmitsHigh, Bound.not_mergesBelow hadmitsLow⟩
    rcases Value.lt_or_atMost hv hmiddle with hlt | hle
    · exact .inl ⟨hadmitsLow, hlt⟩
    · exact .inr ⟨hle, hadmitsHigh⟩
  · rintro ⟨⟨hadmitsLow, hlt⟩ | ⟨hle, hadmitsHigh⟩, habove, hbelow⟩
    · exact ⟨hadmitsLow, Bound.admitsAsHigh_of_lt hhigh hlt habove⟩
    · exact ⟨Bound.admitsAsLow_of_atMost hlow hle hbelow, hadmitsHigh⟩

end Range

/-! ### Integers that do not merge -/

/-- If the value is an integer, rounding tells it from every greater one. -/
def Value.IsSmall : Value → Prop
  | int i => -2 ^ 53 ≤ i.toInt ∧ i.toInt < 2 ^ 53
  | float _ => True

section

variable {low high : Bound} {middle v : Value} {i j : Int64} {x : Binary64}

/-- No greater integer becomes the number that such an integer becomes. -/
theorem toInt_le_of_merged (hi : (Value.int i).IsSmall)
    (heq : (Value.int i).compare? (.float x) = some .eq) (hle : (Value.int j).AtMost (.float x)) :
    j.toInt ≤ i.toInt := by
  obtain ⟨hlow, hhigh⟩ := hi
  have hge : (Value.float x).AtMost (.int i) := Value.atMost_swap.mpr (.inr heq)
  obtain ⟨a, ha⟩ := Value.exists_rank hge.isNumber.2
  obtain ⟨b, hb⟩ := Value.exists_rank hle.isNumber.1
  obtain ⟨c, hc⟩ := Value.exists_rank hle.isNumber.2
  have hca := hge.rank_le hc ha
  have hbc := hle.rank_le hb hc
  by_contra hlt
  have hab := Binary64.rank_ofInt_lt hlow hhigh (Int.not_le.mp hlt) ha hb
  omega

variable (hv : v.IsSmall)

include hv

theorem Value.IsSmall.not_mergesAbove (hhigh : ∀ h, high = .at h → middle.AtMost h) :
    ¬ MergesAbove middle high v := by
  rintro ⟨i, m, x, rfl, rfl, rfl, hlt, heq⟩
  have hle := toInt_le_of_merged hv heq (hhigh _ rfl)
  omega

theorem Value.IsSmall.not_mergesBelow (hlow : ∀ l, low = .at l → l.AtMost middle) :
    ¬ MergesBelow low middle v := by
  rintro ⟨i, l, x, rfl, rfl, rfl, hlt, heq⟩
  have hle := toInt_le_of_merged hv heq (hlow _ rfl)
  omega

end

/-! ### A column -/

/-- **The halves of a range** have no row in common, and the rows of the whole
range are those of the halves whose values do not merge with a bound: all of
them, if the integers of the column are not large. -/
theorem Column.select_halves {c : Column} {low high : Bound} {middle : Value}
    (hnumbers : ∀ v ∈ c.values, v.IsNumber) (hmiddle : middle.IsNumber)
    (hlow : ∀ l, low = .at l → l.AtMost middle) (hhigh : ∀ h, high = .at h → middle.AtMost h) :
    (∀ p, ¬ (p ∈ c.select ⟨low, .at middle⟩ ∧ p ∈ c.select ⟨.at middle, high⟩)) ∧
    (∀ p v, c.values[p]? = some v →
      (p ∈ c.select ⟨low, high⟩ ↔
        (p ∈ c.select ⟨low, .at middle⟩ ∨ p ∈ c.select ⟨.at middle, high⟩) ∧
          ¬ MergesAbove middle high v ∧ ¬ MergesBelow low middle v)) ∧
    ((∀ v ∈ c.values, v.IsSmall) → ∀ p, p ∈ c.select ⟨low, high⟩ ↔
      p ∈ c.select ⟨low, .at middle⟩ ∨ p ∈ c.select ⟨.at middle, high⟩) := by
  have hmem : ∀ {p v}, c.values[p]? = some v →
      ∀ r : Range, p ∈ c.select r ↔ r.contains v = true := by
    intro p v hp r
    rw [mem_select, hp]
    simp
  have hwhole : ∀ p v, c.values[p]? = some v →
      (p ∈ c.select ⟨low, high⟩ ↔
        (p ∈ c.select ⟨low, .at middle⟩ ∨ p ∈ c.select ⟨.at middle, high⟩) ∧
          ¬ MergesAbove middle high v ∧ ¬ MergesBelow low middle v) := by
    intro p v hp
    rw [hmem hp, hmem hp, hmem hp]
    exact Range.contains_whole_iff (hnumbers v (Array.mem_of_getElem? hp)) hmiddle hlow hhigh
  refine ⟨?_, hwhole, fun hsmall p => ?_⟩
  · rintro p ⟨hbelow, habove⟩
    obtain ⟨v, hp, hcontains⟩ := mem_select.mp hbelow
    exact Range.not_contains_both hcontains ((hmem hp _).mp habove)
  · cases hp : c.values[p]? with
    | none => simp [mem_select, hp]
    | some v =>
      have hv := hsmall v (Array.mem_of_getElem? hp)
      rw [hwhole p v hp, and_iff_left ⟨hv.not_mergesAbove hhigh, hv.not_mergesBelow hlow⟩]

/-- The halves of `[0, 4)` at two, in a column of integers and floats. -/
theorem Column.select_halves_small :
    let c : Column := ⟨"a", #[.int 1, .float (Binary64.ofInt 2), .int 5, .int 3]⟩
    let low : Value := .int 0
    let middle : Value := .float (Binary64.ofInt 2)
    let high : Value := .int 4
    ((∀ v ∈ c.values, v.IsNumber) ∧ middle.IsNumber ∧ low.AtMost middle ∧ middle.AtMost high) ∧
      (c.select ⟨.at low, .at high⟩).positions = [0, 1, 3] ∧
      (∀ p, ¬ (p ∈ c.select ⟨.at low, .at middle⟩ ∧ p ∈ c.select ⟨.at middle, .at high⟩)) ∧
      ∀ p, p ∈ c.select ⟨.at low, .at high⟩ ↔
        p ∈ c.select ⟨.at low, .at middle⟩ ∨ p ∈ c.select ⟨.at middle, .at high⟩ := by
  intro c low middle high
  have hnumbers : ∀ v ∈ c.values, v.IsNumber := by decide +kernel
  have hmiddle : middle.IsNumber := by decide +kernel
  have hlow : low.AtMost middle := by decide +kernel
  have hhigh : middle.AtMost high := by decide +kernel
  have hsmall : ∀ v ∈ c.values, v.IsSmall := by simp [c, Value.IsSmall]
  obtain ⟨hdisjoint, -, hunion⟩ := Column.select_halves hnumbers hmiddle
    (fun l hl => Bound.at.inj hl ▸ hlow) (fun h hh => Bound.at.inj hh ▸ hhigh)
  exact ⟨⟨hnumbers, hmiddle, hlow, hhigh⟩, by decide +kernel, hdisjoint, hunion hsmall⟩

/-- `2 ^ 53` is below the integer `2 ^ 53 + 1` and not below the float that this
is rounded to: a row of the lower half and not of the whole range. -/
theorem Column.select_half_not_subset :
    let c : Column := ⟨"a", #[.int 9007199254740992]⟩
    let low : Value := .int 0
    let middle : Value := .int 9007199254740993
    let high : Value := .float (Binary64.ofInt 9007199254740992)
    (∀ v ∈ c.values, v.IsNumber) ∧ low.IsNumber ∧ middle.IsNumber ∧ high.IsNumber ∧
      low.AtMost middle ∧ middle.AtMost high ∧
      ¬ ∀ p, p ∈ c.select ⟨.at low, .at high⟩ ↔
        p ∈ c.select ⟨.at low, .at middle⟩ ∨ p ∈ c.select ⟨.at middle, .at high⟩ := by
  intro c low middle high
  have hnumbers : ∀ v ∈ c.values, v.IsNumber := by decide
  have hhigh : high.IsNumber ∧ middle.AtMost high := by decide +kernel
  have hwhole : (c.select ⟨.at low, .at high⟩).positions = [] := by decide +kernel
  have hbelow : (c.select ⟨.at low, .at middle⟩).positions = [0] := by decide +kernel
  refine ⟨hnumbers, by decide, by decide, hhigh.1, by decide, hhigh.2, fun hall => ?_⟩
  have hmem : 0 ∈ (c.select ⟨.at low, .at middle⟩).positions := by
    rw [hbelow]
    exact List.mem_singleton_self 0
  have hnone : 0 ∈ (c.select ⟨.at low, .at high⟩).positions := (hall 0).mpr (.inl hmem)
  rw [hwhole] at hnone
  cases hnone

end Columnar
