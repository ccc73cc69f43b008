/-
# Uniform draws and shuffles

A draw below `range` multiplies a random word by `range` and keeps the high
half of the product. It keeps it only if the low half is in a zone that every
result shares equally, and otherwise draws again. In every case the result is
below `range`.

To be total a draw has a limit of refusals, after which the next word is kept.
The limit is a parameter: what is proved of draws holds for every limit, and a
number that is found before the limit does not depend on it. A zone holds at
least half of all words, so the `redrawLimit` that fixtures and windows are
drawn with is not reached in practice.

A draw from an empty interval is a fault and takes nothing from the
keystream.

Key definitions: `Lane`, `belowWithin`, `Draw`, `uniformWithin`, `uniform`,
`uniforms`, `shuffle`.
Key theorems: `belowWithin_lt`, `uniformWithin_empty`.
-/
import Columnar.Fault
import Columnar.Random.Keystream

namespace Columnar

/-- The two widths of random words. -/
inductive Lane where
  | narrow | wide
deriving DecidableEq

namespace Lane

/-- How many words of a lane there are. -/
def words : Lane → Nat
  | narrow => 4294967296
  | wide => 18446744073709551616

def next : Lane → Keystream → Nat × Keystream
  | narrow, k => (k.next32.1.toNat, k.next32.2)
  | wide, k => (k.next64.1.toNat, k.next64.2)

theorem next_lt : ∀ (lane : Lane) (k : Keystream), (lane.next k).1 < lane.words
  | narrow, k => k.next32.1.toNat_lt
  | wide, k => k.next64.1.toNat_lt

/-- The zone of the low halves that are kept: `range`, doubled as long as it
fits the lane. -/
def zone (lane : Lane) (range : Nat) : Nat :=
  match lane with
  | narrow => range <<< (31 - range.log2)
  | wide => range <<< (63 - range.log2)

end Lane

/-- The limit of refusals in use. -/
def redrawLimit : Nat := 256

/-- A number below `range`, after at most `redraws` refusals. -/
def belowWithin (lane : Lane) (range : Nat) : Nat → Keystream → Nat × Keystream
  | 0, k => ((lane.next k).1 * range / lane.words, (lane.next k).2)
  | redraws + 1, k =>
    let (word, k) := lane.next k
    if word * range % lane.words < lane.zone range then (word * range / lane.words, k)
    else belowWithin lane range redraws k

theorem scaled_lt {word words range : Nat} (hw : word < words) (hr : 0 < range) :
    word * range / words < range := by
  rw [Nat.div_lt_iff_lt_mul (by omega), Nat.mul_comm range]
  exact Nat.mul_lt_mul_of_pos_right hw hr

/-- A draw below a positive number is below it, however often it was repeated. -/
theorem belowWithin_lt (lane : Lane) {range : Nat} (hr : 0 < range) :
    ∀ (redraws : Nat) (k : Keystream), (belowWithin lane range redraws k).1 < range
  | 0, k => scaled_lt (lane.next_lt k) hr
  | redraws + 1, k => by
    rw [belowWithin]
    simp only
    split
    · exact scaled_lt (lane.next_lt k) hr
    · exact belowWithin_lt lane hr redraws _

/-- A computation that draws from a keystream and may fail; also then it says
how far the keystream was taken. -/
abbrev Draw := ExceptT Fault (StateM Keystream)

/-- A draw that cannot fail. -/
def Draw.ofNext {α : Type} (f : Keystream → α × Keystream) : Draw α :=
  ExceptT.lift (m := StateM Keystream) f

/-- An integer in `[low, high)`, after at most `limit` refusals. -/
def uniformWithin (limit : Nat) (low high : Int64) : Draw Int64 :=
  if low.toInt < high.toInt then do
    let n ← Draw.ofNext (belowWithin .wide (high.toInt - low.toInt).toNat limit)
    return Int64.ofInt (low.toInt + n)
  else throw (.emptyInterval low high)

/-- An integer in `[low, high)`. -/
def uniform (low high : Int64) : Draw Int64 := uniformWithin redrawLimit low high

/-- Integers in `[low, high)`, drawn one after another, each after at most
`limit` refusals. -/
def uniformsWithin (limit : Nat) (low high : Int64) (count : Nat) : Draw (List Int64) :=
  (List.replicate count ()).mapM fun _ => uniformWithin limit low high

/-- Integers in `[low, high)`, drawn one after another. -/
def uniforms (low high : Int64) (count : Nat) : Draw (List Int64) :=
  uniformsWithin redrawLimit low high count

/-- The lane that an index below `n` is drawn from. -/
def indexLane (n : Nat) : Lane := if n < 4294967296 then .narrow else .wide

/-- Exchanges the items at `i`, `i - 1`, down to `1` each with one at or before
it, chosen at random. -/
def shuffleDown {α : Type} (limit : Nat) : Nat → Array α → Keystream → Array α × Keystream
  | 0, items, k => (items, k)
  | i + 1, items, k =>
    let (j, k) := belowWithin (indexLane (i + 2)) (i + 2) limit k
    shuffleDown limit i (items.swapIfInBounds (i + 1) j) k

/-- The items in random order, each exchange drawn after at most `limit` refusals. -/
def shuffleWithin {α : Type} (limit : Nat) (items : Array α) (k : Keystream) :
    Array α × Keystream :=
  shuffleDown limit (items.size - 1) items k

/-- The items in random order. -/
def shuffle {α : Type} (items : Array α) (k : Keystream) : Array α × Keystream :=
  shuffleWithin redrawLimit items k

/-- An empty interval leaves the keystream where it was. -/
theorem uniformWithin_empty (limit : Nat) {low high : Int64} (h : ¬ low.toInt < high.toInt)
    (k : Keystream) :
    (uniformWithin limit low high).run k = (.error (.emptyInterval low high), k) := by
  unfold uniformWithin
  rw [if_neg h]
  rfl

theorem uniform_empty {low high : Int64} (h : ¬ low.toInt < high.toInt) (k : Keystream) :
    (uniform low high).run k = (.error (.emptyInterval low high), k) :=
  uniformWithin_empty redrawLimit h k

end Columnar
