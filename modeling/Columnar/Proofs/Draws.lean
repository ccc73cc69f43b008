/-
# What a draw gives

A draw from an interval that is not empty succeeds with an integer of the
interval, whatever the keystream and the limit of refusals
(`exists_uniformWithin`), and so do as many draws one after another as are
wanted (`exists_uniformsWithin`). The limit is there only to end a draw: the
first word that is kept gives the same number for every limit that is not
before it (`belowWithin_of_finds`). A window is drawn exactly if there is a
place for it (`Window.sampled_run`).

Key definitions: `Lane.Finds`, `InInterval`, `Window.HasPlace`, `Window.Sampled`.
Key theorems: `belowWithin_of_finds`, `exists_uniformWithin`,
`exists_uniformsWithin`, `Window.sampled_run`.
-/
import Columnar.Window

namespace Columnar

namespace Draw

variable {σ α β : Type}

theorem run_ofNext (f : Keystream → α × Keystream) (k : Keystream) :
    (ofNext f).run k = (.ok (f k).1, (f k).2) := rfl

theorem run_pure (a : α) (s : σ) :
    (pure a : ExceptT Fault (StateM σ) α).run s = (.ok a, s) := rfl

/-- A draw and what follows it: the second part takes up the keystream, or what
else is drawn from, where the first left it. -/
theorem run_bind (x : ExceptT Fault (StateM σ) α) (f : α → ExceptT Fault (StateM σ) β) (s : σ) :
    (x >>= f).run s = match x.run s with
      | (.ok a, s') => (f a).run s'
      | (.error fault, s') => (.error fault, s') := by
  simp only [bind, ExceptT.bind, ExceptT.run, ExceptT.mk, StateT.bind]
  obtain ⟨r, s'⟩ := x s
  cases r <;> rfl

section

variable {x : ExceptT Fault (StateM σ) α} {f : α → ExceptT Fault (StateM σ) β} {s s' : σ}

theorem run_bind_ok {a : α} (h : x.run s = (.ok a, s')) : (x >>= f).run s = (f a).run s' := by
  rw [run_bind, h]

theorem run_bind_error {fault : Fault} (h : x.run s = (.error fault, s')) :
    (x >>= f).run s = (.error fault, s') := by
  rw [run_bind, h]

theorem exists_of_run_bind_eq_ok {b : β} (h : (x >>= f).run s = (.ok b, s')) :
    ∃ a s₁, x.run s = (.ok a, s₁) ∧ (f a).run s₁ = (.ok b, s') := by
  rw [run_bind] at h
  split at h
  · rename_i a s₁ hx
    exact ⟨a, s₁, hx, h⟩
  · cases h

end

end Draw

/-! ### The first word that is kept -/

namespace Lane

/-- A word is kept if the low half of its product with the range is in the zone. -/
def Keeps (lane : Lane) (range word : Nat) : Prop :=
  word * range % lane.words < lane.zone range

/-- The first word of a keystream that is kept comes after so many that are refused; how
many this may be has no limit. -/
def Finds (lane : Lane) (range : Nat) : Nat → Keystream → Nat → Keystream → Prop
  | 0, k, word, last => lane.next k = (word, last) ∧ lane.Keeps range word
  | redraws + 1, k, word, last =>
    ¬ lane.Keeps range (lane.next k).1 ∧ lane.Finds range redraws (lane.next k).2 word last

end Lane

/-- **The limit does not matter** to a draw that finds its word before it. -/
theorem belowWithin_of_finds {lane : Lane} {range word : Nat} {last : Keystream} :
    ∀ {redraws limit : Nat} {k : Keystream}, lane.Finds range redraws k word last →
      redraws ≤ limit → belowWithin lane range limit k = (word * range / lane.words, last)
  | 0, limit, k, hfinds, _ => by
    obtain ⟨hnext, hkeeps⟩ := hfinds
    cases limit with
    | zero => rw [belowWithin, hnext]
    | succ limit =>
      rw [belowWithin, hnext]
      exact if_pos hkeeps
  | redraws + 1, limit, k, hfinds, hle => by
    obtain ⟨hrefused, hrest⟩ := hfinds
    obtain ⟨limit, rfl⟩ : ∃ n, limit = n + 1 := ⟨limit - 1, by omega⟩
    have hnot : ¬ (lane.next k).1 * range % lane.words < lane.zone range := hrefused
    rw [belowWithin]
    simp only
    rw [if_neg hnot]
    exact belowWithin_of_finds hrest (Nat.le_of_succ_le_succ hle)

/-! ### Integers of an interval -/

/-- The integers from `low` up to but without `high`. -/
def InInterval (low high v : Int64) : Prop := low.toInt ≤ v.toInt ∧ v.toInt < high.toInt

theorem exists_uniformWithin (limit : Nat) {low high : Int64} (h : low.toInt < high.toInt)
    (k : Keystream) :
    ∃ v k', (uniformWithin limit low high).run k = (.ok v, k') ∧ InInterval low high v := by
  have hpos : 0 < (high.toInt - low.toInt).toNat := by omega
  have hbelow := belowWithin_lt .wide hpos limit k
  cases hdraw : belowWithin .wide (high.toInt - low.toInt).toNat limit k with | mk n k' =>
  rw [hdraw] at hbelow
  have htoInt : (Int64.ofInt (low.toInt + n)).toInt = low.toInt + n :=
    Int64.toInt_ofInt_of_le (Int.le_trans low.le_toInt (by omega))
      (Int.lt_trans (by omega) high.toInt_lt)
  refine ⟨Int64.ofInt (low.toInt + n), k', ?_, ?_⟩
  · rw [uniformWithin, if_pos h, Draw.run_bind_ok (Draw.run_ofNext _ k), hdraw]
    exact Draw.run_pure _ _
  · rw [InInterval, htoInt]
    omega

theorem exists_uniform {low high : Int64} (h : low.toInt < high.toInt) (k : Keystream) :
    ∃ v k', (uniform low high).run k = (.ok v, k') ∧ InInterval low high v :=
  exists_uniformWithin redrawLimit h k

theorem exists_uniformsWithin (limit : Nat) {low high : Int64} (h : low.toInt < high.toInt) :
    ∀ (count : Nat) (k : Keystream), ∃ vs k',
      (uniformsWithin limit low high count).run k = (.ok vs, k') ∧
        vs.length = count ∧ ∀ v ∈ vs, InInterval low high v
  | 0, k => ⟨[], k, rfl, rfl, fun _ hv => absurd hv List.not_mem_nil⟩
  | count + 1, k => by
    obtain ⟨v, k₁, hrun, hv⟩ := exists_uniformWithin limit h k
    obtain ⟨vs, k₂, hruns, hlength, hvs⟩ := exists_uniformsWithin limit h count k₁
    refine ⟨v :: vs, k₂, ?_, by rw [List.length_cons, hlength], ?_⟩
    · rw [uniformsWithin, List.replicate_succ, List.mapM_cons, Draw.run_bind_ok hrun]
      exact Draw.run_bind_ok hruns
    · exact List.forall_mem_cons.mpr ⟨hv, hvs⟩

namespace Window

/-- Whether there is a place for a window of the width. -/
def HasPlace (rows : Nat) (width : Int64) : Prop :=
  (interval rows width).1.toInt < (interval rows width).2.toInt

/-- What comes of sampling a window. -/
inductive Sampled (rows : Nat) (width : Int64) : Except Fault Window → Prop where
  | placed (low : Int64) :
    HasPlace rows width → InInterval (interval rows width).1 (interval rows width).2 low →
    Sampled rows width (.ok ⟨low, low + width⟩)
  | noPlace :
    ¬ HasPlace rows width →
    Sampled rows width (.error (.emptyInterval (interval rows width).1 (interval rows width).2))

/-- A window is drawn if there is a place for it; otherwise the fault names the
interval that is empty. -/
theorem sampled_run (rows : Nat) (width : Int64) (k : Keystream) :
    Sampled rows width ((sample uniform rows width).run k).1 := by
  by_cases h : HasPlace rows width
  · obtain ⟨low, k', hrun, hlow⟩ := exists_uniform h k
    rw [sample, Draw.run_bind_ok hrun]
    exact .placed low h hlow
  · rw [sample, Draw.run_bind_error (uniform_empty h k)]
    exact .noPlace h

end Window
end Columnar
