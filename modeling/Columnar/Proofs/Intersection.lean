/-
# Intersections of position sets

Two ascending lists are intersected by one pass over both. What the pass keeps it
appends to what it has kept before, and nothing in the result would put a position
that comes too late in its place. It does not have to: whatever is kept is above all
that was kept before, because it stands further on in the first list
(`mergeOnto?_eq`). So a pass that checks this at every step never stops, and it gives
the positions of `inter`.

A position set is its members, and those of an intersection are the positions in both
sets. So the laws of `and` are those of an intersection (`PositionSet.inter_laws`).

Key definitions: `appendAbove?`, `mergeOnto?`.
Key theorems: `mergeOnto?_eq`, `PositionSet.exists_ofList?_iff`, `PositionSet.inter_laws`.
-/
import Columnar.Proofs.Chaining

namespace Columnar

/-! ### The pass -/

/-- A position after those that were kept, if it is above the last of them. -/
def appendAbove? (kept : List Nat) (p : Nat) : Option (List Nat) :=
  if ∀ last ∈ kept.getLast?, last < p then some (kept ++ [p]) else none

/-- The pass over two lists with what it has kept so far. It stops at a position that is
not above the last one kept. -/
def mergeOnto? (kept : List Nat) : List Nat → List Nat → Option (List Nat)
  | [], _ => some kept
  | _, [] => some kept
  | a :: as, b :: bs =>
    if a < b then mergeOnto? kept as (b :: bs)
    else if b < a then mergeOnto? kept (a :: as) bs
    else
      match appendAbove? kept a with
      | some kept => mergeOnto? kept as bs
      | none => none
termination_by as bs => as.length + bs.length

theorem appendAbove?_of_lt {kept : List Nat} {p : Nat} (h : ∀ x ∈ kept, x < p) :
    appendAbove? kept p = some (kept ++ [p]) :=
  if_pos fun _ hlast => h _ (List.mem_of_getLast? hlast)

/-- **The pass never stops early.** What was kept is below all that is left of the first
list: one step takes a position off that list, and may put it after the others. -/
theorem mergeOnto?_eq : ∀ {kept as bs : List Nat}, as.Pairwise (· < ·) →
    (∀ x ∈ kept, ∀ y ∈ as, x < y) → mergeOnto? kept as bs = some (kept ++ merge as bs)
  | kept, [], bs, _, _ => by simp [mergeOnto?, merge]
  | kept, a :: as, [], _, _ => by simp [mergeOnto?, merge]
  | kept, a :: as, b :: bs, has, hkept => by
    obtain ⟨hfirst, hrest⟩ := List.pairwise_cons.mp has
    have hleft : ∀ x ∈ kept, ∀ y ∈ as, x < y :=
      fun x hx y hy => hkept x hx y (List.mem_cons_of_mem a hy)
    rw [mergeOnto?, merge]
    split
    · exact mergeOnto?_eq hrest hleft
    · split
      · exact mergeOnto?_eq has hkept
      · have hkept' : ∀ x ∈ kept ++ [a], ∀ y ∈ as, x < y := by
          intro x hx
          rcases List.mem_append.mp hx with hx | hx
          · exact hleft x hx
          · rw [List.mem_singleton.mp hx]
            exact hfirst
        rw [appendAbove?_of_lt fun x hx => hkept x hx a List.mem_cons_self]
        simp only
        rw [mergeOnto?_eq hrest hkept', List.append_assoc, List.singleton_append]
termination_by _ as bs => as.length + bs.length

namespace PositionSet

/-! ### The laws -/

/-- A list is taken for a set exactly if it is strictly ascending. -/
theorem exists_ofList?_iff {l : List Nat} :
    (∃ s, ofList? l = some s) ↔ l.Pairwise (· < ·) := by
  constructor
  · rintro ⟨s, hs⟩
    rw [← ofList?_eq_some_iff.mp hs]
    exact s.ascending
  · exact fun h => ⟨⟨l, h⟩, ofList?_eq_some_iff.mpr rfl⟩

theorem inter_comm (s t : PositionSet) : s.inter t = t.inter s :=
  eq_of_mem_iff fun p => by rw [mem_inter, mem_inter, and_comm]

theorem inter_assoc (s t u : PositionSet) : (s.inter t).inter u = s.inter (t.inter u) :=
  eq_of_mem_iff fun p => by rw [mem_inter, mem_inter, mem_inter, mem_inter, and_assoc]

theorem inter_self (s : PositionSet) : s.inter s = s :=
  eq_of_mem_iff fun p => by rw [mem_inter, and_self_iff]

/-- The rows of a table cut a set off at their number. -/
theorem inter_all (s : PositionSet) (n : Nat) : s.inter (all n) = s.filter (· < n) :=
  eq_of_mem_iff fun p => by rw [mem_inter, mem_all, mem_filter, decide_eq_true_iff]

/-- **What an intersection is.** The pass over two position sets never has to put a
position before another, and gives the positions in both sets, ascending. So an
intersection does not depend on the order in which sets are taken or grouped, nor on
taking one twice, and with all rows of a table it leaves the positions below their
number. And the lists that are position sets are those that ascend strictly. -/
theorem inter_laws (s t u : PositionSet) (n : Nat) (l : List Nat) :
    (mergeOnto? [] s.positions t.positions = some (s.inter t).positions ∧
      (s.inter t).positions.Pairwise (· < ·) ∧ ∀ p, p ∈ s.inter t ↔ p ∈ s ∧ p ∈ t) ∧
    (s.inter t = t.inter s ∧ (s.inter t).inter u = s.inter (t.inter u) ∧ s.inter s = s) ∧
    s.inter (all n) = s.filter (· < n) ∧
    ((∃ w, ofList? l = some w) ↔ l.Pairwise (· < ·)) ∧
      ∀ w, ofList? l = some w → w.positions = l := by
  have hpass : mergeOnto? [] s.positions t.positions = some (s.inter t).positions :=
    mergeOnto?_eq s.ascending fun _ hx => absurd hx List.not_mem_nil
  exact ⟨⟨hpass, (s.inter t).ascending, fun p => mem_inter⟩,
    ⟨inter_comm s t, inter_assoc s t u, inter_self s⟩, inter_all s n, exists_ofList?_iff,
    fun w => ofList?_eq_some_iff.mp⟩

end PositionSet
end Columnar
