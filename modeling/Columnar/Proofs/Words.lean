/-
# Uniform draws in machine words

A draw from `[low, high)` is a matter of 64-bit words: the number of integers in the
interval is the difference of its ends as it wraps, a random word is multiplied by it in
128 bits, and the high half of the product is added to `low`, which may wrap again. The
word is kept if the low half is at most the number of integers, shifted left as far as
it goes, less one. Otherwise the next word is taken.

In words the difference is the number of integers whatever the ends are, also when it is
no integer of 64 bits with a sign (`toNat_rangeOf`), so the integer that a word gives is
always in the interval (`inInterval_offset`). And a draw gives the integer of the first
word that is kept, if no more words than its limit come before it
(`uniformWithin_of_drawn`). An empty interval takes no word at all, and a column of draws
goes on where the one before it left the keystream (`uniform_in_words`).

Key definitions: `rangeOf`, `fullProduct`, `lastKept`, `IsKept`, `Drawn`, `offset`.
Key theorems: `isKept_iff`, `inInterval_offset`, `uniformWithin_of_drawn`,
`uniforms_add`, `uniform_in_words`.
-/
import Mathlib.Algebra.Group.Nat.Defs
import Columnar.Proofs.Draws

namespace Columnar

/-! ### The words of a draw -/

/-- The number of integers in `[low, high)`, as a word: the difference as it wraps. -/
def rangeOf (low high : Int64) : UInt64 := (high - low).toUInt64

/-- The product of two words in full. -/
def fullProduct (word range : UInt64) : BitVec 128 :=
  word.toBitVec.setWidth 128 * range.toBitVec.setWidth 128

def highHalf (p : BitVec 128) : UInt64 := ⟨p.extractLsb' 64 64⟩

def lowHalf (p : BitVec 128) : UInt64 := ⟨p.extractLsb' 0 64⟩

/-- The greatest low half that is kept: the range without its leading zeros, less one. -/
def lastKept (range : UInt64) : UInt64 := (range <<< ⟨range.toBitVec.clz⟩) - 1

/-- A word whose integer is kept. -/
def IsKept (range word : UInt64) : Prop := lowHalf (fullProduct word range) ≤ lastKept range

/-- The first word of a keystream that is kept comes after so many that are refused. -/
def Drawn (range : UInt64) : Nat → Keystream → UInt64 → Keystream → Prop
  | 0, k, word, last => k.next64 = (word, last) ∧ IsKept range word
  | redraws + 1, k, word, last =>
    ¬ IsKept range k.next64.1 ∧ Drawn range redraws k.next64.2 word last

/-- The integer of `[low, high)` that a word gives. -/
def offset (low high : Int64) (word : UInt64) : Int64 :=
  low + (highHalf (fullProduct word (rangeOf low high))).toInt64

/-! ### Words as numbers -/

theorem toNat_rangeOf {low high : Int64} (h : low.toInt < high.toInt) :
    (rangeOf low high).toNat = (high.toInt - low.toInt).toNat := by
  have hlow := BitVec.toInt_eq_toNat_cond low.toBitVec
  have hhigh := BitVec.toInt_eq_toNat_cond high.toBitVec
  have hrange : (rangeOf low high).toNat = (high.toBitVec - low.toBitVec).toNat := rfl
  rw [hrange, BitVec.toNat_sub]
  change low.toBitVec.toInt < high.toBitVec.toInt at h
  change _ = (high.toBitVec.toInt - low.toBitVec.toInt).toNat
  have hl := low.toBitVec.isLt
  have hh := high.toBitVec.isLt
  split at hlow <;> split at hhigh <;> omega

theorem toNat_fullProduct (word range : UInt64) :
    (fullProduct word range).toNat = word.toNat * range.toNat := by
  have hword := word.toNat_lt
  have hrange := range.toNat_lt
  have hlt : word.toNat * range.toNat < 2 ^ 128 :=
    calc word.toNat * range.toNat < 2 ^ 64 * 2 ^ 64 := Nat.mul_lt_mul'' hword hrange
      _ = 2 ^ 128 := by decide
  rw [fullProduct, BitVec.toNat_mul, BitVec.toNat_setWidth, BitVec.toNat_setWidth,
    UInt64.toNat_toBitVec, UInt64.toNat_toBitVec, Nat.mod_eq_of_lt (a := word.toNat) (by omega),
    Nat.mod_eq_of_lt (a := range.toNat) (by omega), Nat.mod_eq_of_lt hlt]

theorem toNat_highHalf (word range : UInt64) :
    (highHalf (fullProduct word range)).toNat = word.toNat * range.toNat / 2 ^ 64 := by
  have hdiv : word.toNat * range.toNat / 2 ^ 64 < 2 ^ 64 :=
    Nat.div_lt_of_lt_mul (Nat.mul_lt_mul'' word.toNat_lt range.toNat_lt)
  rw [← toNat_fullProduct] at hdiv ⊢
  rw [highHalf, ← UInt64.toNat_toBitVec, BitVec.extractLsb'_toNat, Nat.shiftRight_eq_div_pow,
    Nat.mod_eq_of_lt hdiv]

theorem toNat_lowHalf (word range : UInt64) :
    (lowHalf (fullProduct word range)).toNat = word.toNat * range.toNat % 2 ^ 64 := by
  rw [← toNat_fullProduct, lowHalf, ← UInt64.toNat_toBitVec, BitVec.extractLsb'_toNat,
    Nat.shiftRight_zero]

theorem toNat_clz {range : UInt64} (h : 0 < range.toNat) :
    range.toBitVec.clz.toNat = 63 - range.toNat.log2 := by
  have hne : range.toBitVec ≠ 0#64 := by
    intro hzero
    have : range.toNat = 0 := congrArg BitVec.toNat hzero
    omega
  have hlow : 2 ^ (64 - 1 - range.toBitVec.clz.toNat) ≤ range.toNat :=
    BitVec.two_pow_sub_clz_le_toNat_of_ne_zero (by decide) hne
  have hhigh : range.toNat < 2 ^ (64 - range.toBitVec.clz.toNat) := BitVec.toNat_lt_two_pow_sub_clz
  have hclz : range.toBitVec.clz.toNat < 64 := BitVec.lt_def.mp (BitVec.clz_lt_iff_ne_zero.mpr hne)
  have hlog : range.toNat.log2 = 63 - range.toBitVec.clz.toNat := by
    rw [Nat.log2_eq_iff (by omega)]
    have hsucc : 63 - range.toBitVec.clz.toNat + 1 = 64 - range.toBitVec.clz.toNat := by omega
    rw [hsucc]
    exact ⟨hlow, hhigh⟩
  omega

/-- Without its leading zeros a word is a word still. -/
theorem shiftLeft_log2_lt {range : UInt64} (h : 0 < range.toNat) :
    range.toNat <<< (63 - range.toNat.log2) < 2 ^ 64 := by
  have hlog : range.toNat < 2 ^ (range.toNat.log2 + 1) := Nat.lt_log2_self
  have hlt : range.toNat.log2 < 64 := (Nat.log2_lt (by omega)).mpr range.toNat_lt
  have hsum : range.toNat.log2 + 1 + (63 - range.toNat.log2) = 64 := by omega
  rw [Nat.shiftLeft_eq]
  calc range.toNat * 2 ^ (63 - range.toNat.log2)
      < 2 ^ (range.toNat.log2 + 1) * 2 ^ (63 - range.toNat.log2) :=
        Nat.mul_lt_mul_of_pos_right hlog (Nat.two_pow_pos _)
    _ = 2 ^ 64 := by rw [← Nat.pow_add, hsum]

/-- The last low half that is kept is just before the end of the zone. -/
theorem toNat_lastKept {range : UInt64} (h : 0 < range.toNat) :
    (lastKept range).toNat + 1 = Lane.wide.zone range.toNat := by
  have hzone := shiftLeft_log2_lt h
  have hpos : 0 < range.toNat <<< (63 - range.toNat.log2) := by
    rw [Nat.shiftLeft_eq]
    exact Nat.mul_pos h (Nat.two_pow_pos _)
  have hclz : (⟨range.toBitVec.clz⟩ : UInt64).toNat = 63 - range.toNat.log2 := toNat_clz h
  have hamount : (63 - range.toNat.log2) % 64 = 63 - range.toNat.log2 := by omega
  have hshift : (range <<< ⟨range.toBitVec.clz⟩ : UInt64).toNat =
      range.toNat <<< (63 - range.toNat.log2) := by
    rw [UInt64.toNat_shiftLeft, hclz, hamount, Nat.mod_eq_of_lt hzone]
  have hone : (1 : UInt64) ≤ range <<< ⟨range.toBitVec.clz⟩ := by
    rw [UInt64.le_iff_toNat_le, hshift]
    exact hpos
  rw [lastKept, UInt64.toNat_sub_of_le _ _ hone, hshift]
  exact Nat.sub_add_cancel hpos

theorem isKept_iff {range word : UInt64} (h : 0 < range.toNat) :
    IsKept range word ↔ Lane.wide.Keeps range.toNat word.toNat := by
  have hlow := toNat_lowHalf word range
  have hlast := toNat_lastKept h
  have hwords : Lane.wide.words = 2 ^ 64 := by decide
  rw [IsKept, Lane.Keeps, UInt64.le_iff_toNat_le, hwords, hlow]
  omega

/-! ### The integer of a word -/

theorem offset_eq {low high : Int64} (h : low.toInt < high.toInt) (word : UInt64) :
    offset low high word = Int64.ofInt (low.toInt +
      (word.toNat * (high.toInt - low.toInt).toNat / Lane.wide.words : Nat)) := by
  have hhalf := toNat_highHalf word (rangeOf low high)
  have hwords : Lane.wide.words = 2 ^ 64 := by decide
  rw [toNat_rangeOf h] at hhalf
  rw [offset, hwords, ← hhalf, Int64.ofInt_add, Int64.ofInt_toInt, Int64.ofInt_eq_ofNat,
    ← UInt64.toInt64_ofNat', UInt64.ofNat_toNat]

/-- **Every word gives an integer of the interval.** -/
theorem inInterval_offset {low high : Int64} (h : low.toInt < high.toInt) (word : UInt64) :
    InInterval low high (offset low high word) := by
  have hpos : 0 < (high.toInt - low.toInt).toNat := by omega
  have hword : word.toNat < Lane.wide.words := word.toNat_lt
  have hlt := scaled_lt hword hpos
  have hlow := low.le_toInt
  have hhigh := high.toInt_lt
  rw [InInterval, offset_eq h]
  generalize word.toNat * (high.toInt - low.toInt).toNat / Lane.wide.words = n at hlt
  rw [Int64.toInt_ofInt_of_le (by omega) (by omega)]
  omega

/-! ### The draw -/

theorem finds_of_drawn {range : UInt64} (h : 0 < range.toNat) {word : UInt64} {last : Keystream} :
    ∀ {redraws : Nat} {k : Keystream}, Drawn range redraws k word last →
      Lane.wide.Finds range.toNat redraws k word.toNat last
  | 0, k, hdrawn => by
    obtain ⟨hnext, hkept⟩ := hdrawn
    have hword : Lane.wide.next k = (word.toNat, last) := by rw [Lane.next, hnext]
    exact ⟨hword, (isKept_iff h).mp hkept⟩
  | redraws + 1, k, hdrawn => by
    obtain ⟨hrefused, hrest⟩ := hdrawn
    exact ⟨mt (isKept_iff h).mpr hrefused, finds_of_drawn h hrest⟩

theorem toNat_rangeOf_pos {low high : Int64} (h : low.toInt < high.toInt) :
    0 < (rangeOf low high).toNat := by
  rw [toNat_rangeOf h]
  omega

/-- **A uniform integer is that of the first word that is kept**, for every limit that
this word is not past. -/
theorem uniformWithin_of_drawn {low high : Int64} (h : low.toInt < high.toInt)
    {redraws limit : Nat} {k last : Keystream} {word : UInt64}
    (hdrawn : Drawn (rangeOf low high) redraws k word last) (hle : redraws ≤ limit) :
    (uniformWithin limit low high).run k = (.ok (offset low high word), last) := by
  have hbelow := belowWithin_of_finds (finds_of_drawn (toNat_rangeOf_pos h) hdrawn) hle
  rw [toNat_rangeOf h] at hbelow
  rw [uniformWithin, if_pos h, Draw.run_bind_ok (Draw.run_ofNext _ k), hbelow, offset_eq h]
  exact Draw.run_pure _ _

/-- **A draw fails from an empty interval alone**, and then it takes no word. -/
theorem run_uniform_eq_error_iff {low high : Int64} {k k' : Keystream} {fault : Fault} :
    (uniform low high).run k = (.error fault, k') ↔
      high.toInt ≤ low.toInt ∧ fault = .emptyInterval low high ∧ k' = k := by
  constructor
  · intro hrun
    by_cases h : low.toInt < high.toInt
    · obtain ⟨v, last, hok, -⟩ := exists_uniform h k
      cases hok.symm.trans hrun
    · cases (uniform_empty h k).symm.trans hrun
      exact ⟨Int.not_lt.mp h, rfl, rfl⟩
  · rintro ⟨h, rfl, rfl⟩
    exact uniform_empty (Int.not_lt.mpr h) k'

/-! ### Columns of draws -/

/-- A column of draws is one column and then another, each with its part of them. -/
theorem uniforms_add (low high : Int64) (a b : Nat) :
    uniforms low high (a + b) = (do
      let xs ← uniforms low high a
      let ys ← uniforms low high b
      return xs ++ ys) := by
  rw [uniforms, uniformsWithin, ← List.replicate_append_replicate, List.mapM_append]
  rfl

theorem run_uniforms_empty {low high : Int64} (h : ¬ low.toInt < high.toInt) (count : Nat)
    (k : Keystream) :
    (uniforms low high (count + 1)).run k = (.error (.emptyInterval low high), k) := by
  rw [uniforms, uniformsWithin, List.replicate_succ, List.mapM_cons,
    Draw.run_bind_error (uniformWithin_empty redrawLimit h k)]

theorem eq_of_run_uniforms_error {low high : Int64} {count : Nat} {k k' : Keystream}
    {fault : Fault} (hrun : (uniforms low high count).run k = (.error fault, k')) : k' = k := by
  by_cases h : low.toInt < high.toInt
  · obtain ⟨vs, last, hok, -⟩ := exists_uniformsWithin redrawLimit h count k
    cases hok.symm.trans hrun
  · cases count with
    | zero => cases hrun
    | succ count =>
      cases (run_uniforms_empty h count k).symm.trans hrun
      rfl

/-- **A column is filled** if its interval is not empty or no integer is wanted. -/
theorem exists_run_uniforms_iff {low high : Int64} {count : Nat} {k : Keystream} :
    (∃ vs k', (uniforms low high count).run k = (.ok vs, k')) ↔
      low.toInt < high.toInt ∨ count = 0 := by
  by_cases h : low.toInt < high.toInt
  · obtain ⟨vs, k', hrun, -⟩ := exists_uniformsWithin redrawLimit h count k
    exact iff_of_true ⟨vs, k', hrun⟩ (.inl h)
  · cases count with
    | zero => exact iff_of_true ⟨[], k, rfl⟩ (.inr rfl)
    | succ count =>
      refine iff_of_false (fun ⟨vs, k', hrun⟩ => ?_) (by simp [h])
      cases (run_uniforms_empty h count k).symm.trans hrun

/-- **What a uniform draw does, in words.** From every keystream and for all ends, a draw
fails exactly if the interval is empty, and the keystream stays where it was; what it
gives otherwise is in the interval. In machine words the range is the number of integers
in the interval, also if their difference does not fit 64 bits with a sign. Whatever the
number of words that are refused, the word that is kept gives an integer of the
interval, and this is the integer drawn as long as they are not more than the limit.

A column of draws fails only if its interval is empty and it is not, and then it takes
nothing from the keystream. A longer column is a column and then another one, from
where the first leaves the keystream. -/
theorem uniform_in_words (low high : Int64) (k : Keystream) (a b : Nat) :
    (((∃ fault k', (uniform low high).run k = (.error fault, k')) ↔ high.toInt ≤ low.toInt) ∧
      (∀ fault k', (uniform low high).run k = (.error fault, k') →
        fault = .emptyInterval low high ∧ k' = k) ∧
      ∀ v k', (uniform low high).run k = (.ok v, k') → InInterval low high v) ∧
    (low.toInt < high.toInt → (rangeOf low high).toNat = high.toInt - low.toInt ∧
      ∀ redraws word last, Drawn (rangeOf low high) redraws k word last →
        InInterval low high (offset low high word) ∧
        (redraws ≤ redrawLimit →
          (uniform low high).run k = (.ok (offset low high word), last))) ∧
    ((∃ vs k', (uniforms low high (a + b)).run k = (.ok vs, k')) ↔
      low.toInt < high.toInt ∨ a + b = 0) ∧
    (∀ fault k', (uniforms low high (a + b)).run k = (.error fault, k') → k' = k) ∧
    uniforms low high (a + b) = (do
      let xs ← uniforms low high a
      let ys ← uniforms low high b
      return xs ++ ys) := by
  refine ⟨⟨?_, fun fault k' hrun => (run_uniform_eq_error_iff.mp hrun).2, fun v k' hrun => ?_⟩,
    fun h => ⟨?_, fun redraws word last hdrawn =>
      ⟨inInterval_offset h word, uniformWithin_of_drawn h hdrawn⟩⟩,
    exists_run_uniforms_iff, fun fault k' hrun => ?_, uniforms_add low high a b⟩
  · constructor
    · rintro ⟨fault, k', hrun⟩
      exact (run_uniform_eq_error_iff.mp hrun).1
    · exact fun h => ⟨_, k, run_uniform_eq_error_iff.mpr ⟨h, rfl, rfl⟩⟩
  · by_cases h : low.toInt < high.toInt
    · obtain ⟨w, last, hok, hin⟩ := exists_uniform h k
      cases hok.symm.trans hrun
      exact hin
    · cases (uniform_empty h k).symm.trans hrun
  · rw [toNat_rangeOf h]
    omega
  · exact eq_of_run_uniforms_error hrun

end Columnar
