/-
# Sets of row positions

A selection gives the positions of the rows it keeps, in row order and each
once. The order is part of the type, so what is made from position sets by
filtering or by merging is one again.

Key definitions: `PositionSet`, `PositionSet.ofList?`, `PositionSet.all`,
`PositionSet.filter`, `PositionSet.inter`.
Key theorems: `ascends_iff`, `PositionSet.ofList?_eq_some_iff`, `mem_merge`.
-/

namespace Columnar

/-- Row positions, strictly ascending. -/
@[ext]
structure PositionSet where
  positions : List Nat
  ascending : positions.Pairwise (· < ·)
deriving DecidableEq

/-- Whether each element is below the next. -/
def ascends : List Nat → Bool
  | a :: b :: rest => a < b && ascends (b :: rest)
  | _ => true

/-- Neighbours in order are enough, the order being transitive. -/
theorem ascends_iff : ∀ {l : List Nat}, ascends l = true ↔ l.Pairwise (· < ·)
  | [] => by simp [ascends]
  | [a] => by simp [ascends]
  | a :: b :: rest => by
    rw [ascends, Bool.and_eq_true, ascends_iff, decide_eq_true_iff, List.pairwise_cons (a := a)]
    constructor
    · rintro ⟨hab, h⟩
      refine ⟨fun x hx => ?_, h⟩
      rcases List.mem_cons.mp hx with rfl | hx
      · exact hab
      · exact Nat.lt_trans hab ((List.pairwise_cons.mp h).1 x hx)
    · exact fun h => ⟨h.1 b List.mem_cons_self, h.2⟩

/-- The common elements of two ascending lists, by one pass over both. -/
def merge : List Nat → List Nat → List Nat
  | [], _ => []
  | _, [] => []
  | a :: as, b :: bs =>
    if a < b then merge as (b :: bs)
    else if b < a then merge (a :: as) bs
    else a :: merge as bs
termination_by as bs => as.length + bs.length

theorem merge_sublist : ∀ as bs : List Nat, (merge as bs).Sublist as
  | [], bs => by simp [merge]
  | a :: as, [] => by simp [merge]
  | a :: as, b :: bs => by
    rw [merge]
    split
    · exact (merge_sublist as (b :: bs)).trans (List.sublist_cons_self a as)
    · split
      · exact merge_sublist (a :: as) bs
      · exact (merge_sublist as bs).cons_cons a
termination_by as bs => as.length + bs.length

/-- Nothing that the pass skips on one side can still turn up on the other. -/
theorem mem_merge {x : Nat} : ∀ {as bs : List Nat}, as.Pairwise (· < ·) → bs.Pairwise (· < ·) →
    (x ∈ merge as bs ↔ x ∈ as ∧ x ∈ bs)
  | [], bs, _, _ => by simp [merge]
  | a :: as, [], _, _ => by simp [merge]
  | a :: as, b :: bs, ha, hb => by
    obtain ⟨ha₁, ha₂⟩ := List.pairwise_cons.mp ha
    obtain ⟨hb₁, hb₂⟩ := List.pairwise_cons.mp hb
    rw [merge]
    split
    · rename_i hlt
      have hne : a ∉ b :: bs := by
        intro h
        rcases List.mem_cons.mp h with h | h
        · omega
        · have := hb₁ a h
          omega
      rw [mem_merge ha₂ hb, List.mem_cons (a := x) (b := a)]
      constructor
      · exact fun h => ⟨.inr h.1, h.2⟩
      · rintro ⟨rfl | h, h₂⟩
        · exact absurd h₂ hne
        · exact ⟨h, h₂⟩
    · split
      · rename_i _ hlt
        have hne : b ∉ a :: as := by
          intro h
          rcases List.mem_cons.mp h with h | h
          · omega
          · have := ha₁ b h
            omega
        rw [mem_merge ha hb₂, List.mem_cons (a := x) (b := b)]
        constructor
        · exact fun h => ⟨h.1, .inr h.2⟩
        · rintro ⟨h, rfl | h₂⟩
          · exact absurd h hne
          · exact ⟨h, h₂⟩
      · rename_i h₁ h₂
        have hab : a = b := by omega
        subst hab
        rw [List.mem_cons, mem_merge ha₂ hb₂, List.mem_cons, List.mem_cons]
        constructor
        · rintro (rfl | h)
          · exact ⟨.inl rfl, .inl rfl⟩
          · exact ⟨.inr h.1, .inr h.2⟩
        · rintro ⟨rfl | h, h'⟩
          · exact .inl rfl
          · rcases h' with rfl | h'
            · exact .inl rfl
            · exact .inr ⟨h, h'⟩
termination_by as bs => as.length + bs.length

namespace PositionSet

def empty : PositionSet := ⟨[], .nil⟩

/-- The positions of a table of `n` rows. -/
def all (n : Nat) : PositionSet := ⟨List.range n, List.pairwise_lt_range⟩

/-- The list as a set, if it is strictly ascending. -/
def ofList? (positions : List Nat) : Option PositionSet :=
  if h : ascends positions = true then some ⟨positions, ascends_iff.mp h⟩ else none

def size (s : PositionSet) : Nat := s.positions.length

/-- The largest position. -/
def last? (s : PositionSet) : Option Nat := s.positions.getLast?

/-- The positions that pass a test. -/
def filter (s : PositionSet) (p : Nat → Bool) : PositionSet :=
  ⟨s.positions.filter p, s.ascending.filter p⟩

/-- The positions in both sets. -/
def inter (s t : PositionSet) : PositionSet :=
  ⟨merge s.positions t.positions, s.ascending.sublist (merge_sublist _ _)⟩

instance : Membership Nat PositionSet := ⟨fun s p => p ∈ s.positions⟩

theorem ofList?_eq_some_iff {l : List Nat} {s : PositionSet} :
    ofList? l = some s ↔ s.positions = l := by
  unfold ofList?
  constructor
  · intro h
    split at h
    · rw [← Option.some.inj h]
    · exact absurd h (by simp)
  · rintro rfl
    rw [dif_pos (ascends_iff.mpr s.ascending)]

theorem mem_inter {s t : PositionSet} {p : Nat} : p ∈ s.inter t ↔ p ∈ s ∧ p ∈ t :=
  mem_merge s.ascending t.ascending

theorem mem_filter {s : PositionSet} {f : Nat → Bool} {p : Nat} :
    p ∈ s.filter f ↔ p ∈ s ∧ f p = true :=
  List.mem_filter

theorem mem_all {n p : Nat} : p ∈ all n ↔ p < n := List.mem_range

end PositionSet
end Columnar
