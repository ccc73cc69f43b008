/-
# The fixture tables

Both fixture tables can always be made, the wide one from every keystream
(`Fixture.exists_narrow`, `Fixture.exists_wide`). A column of the narrow table is
shuffled, which puts it in another order and changes no more (`shuffleWithin_perm`). The
wide table is made out of one stream of draws (`Fixture.WideDraws`), each from an
interval of its own, and so its integers are bounded: in the first column by half the
number of its rows, in the second by that number, in the third by a constant. Rows of
the right width can always be inserted, and what bounds the old values and the new
ones bounds those of the grown table (`Table.exists_grown`).

Key definitions: `Fixture.narrowSchema`, `Fixture.wideSchema`, `Fixture.blockLow`,
`Fixture.blockHigh`, `Fixture.WideDraws`.
Key theorems: `Table.exists_grown`, `shuffleWithin_perm`,
`Fixture.exists_narrow_columns`, `Fixture.exists_narrow`,
`Fixture.exists_wide_columns`, `Fixture.exists_wide`.
-/
import Columnar.Fixture
import Columnar.Proofs.Building
import Columnar.Proofs.Draws
import Columnar.Proofs.Rows
import Columnar.Proofs.Shapes

namespace Columnar

/-! ### Inserts -/

namespace Table

theorem hasWithin_insert {t u : Table} {row : List Value} (h : t.insert row = .ok u)
    {field : String} {b : Nat} (ht : t.HasWithin field b) (hrow : ∀ v ∈ row, v.Within b) :
    u.HasWithin field b := by
  obtain ⟨col, hcol, hwithin⟩ := ht
  obtain ⟨v, hv, hpush⟩ := column?_insert h hcol
  refine ⟨_, hpush, fun w hw => ?_⟩
  rcases Array.mem_push.mp hw with hw | rfl
  · exact hwithin w hw
  · exact hrow w hv

/-- Rows of the right width are inserted one after another, and what bounds
the values of a field and those of the rows bounds the field still. -/
theorem exists_grown : ∀ {rows : List (List Value)} {t : Table},
    (∀ row ∈ rows, row.length = t.columns.length) →
    ∃ u, rows.foldlM insert t = .ok u ∧ t.GrownBy rows u ∧
      ∀ field b, t.HasWithin field b → (∀ row ∈ rows, ∀ v ∈ row, v.Within b) → u.HasWithin field b
  | [], t, _ => ⟨t, rfl, t.grownBy_refl, fun _ _ h _ => h⟩
  | row :: rows, t, h => by
    obtain ⟨hrow, hrows⟩ := List.forall_mem_cons.mp h
    obtain ⟨u, hu⟩ := insert_isOk_iff.mpr hrow
    have hgrown := grownBy_insert hu
    have hwidth : u.columns.length = t.columns.length := by
      simpa using congrArg List.length hgrown.header
    obtain ⟨v, hv, hgrown', hwithin⟩ := exists_grown (t := u) (fun r hr => hwidth ▸ hrows r hr)
    refine ⟨v, ?_, hgrown.trans hgrown', fun field b ht hb => ?_⟩
    · rw [List.foldlM_cons, hu]
      exact hv
    · obtain ⟨hb₁, hb₂⟩ := List.forall_mem_cons.mp hb
      exact hwithin field b (hasWithin_insert hu ht hb₁) hb₂

end Table

/-! ### The tables -/

namespace Fixture

/-- What holds of the narrow table with so many rows. -/
def narrowSchema (rows : Nat) : Schema where
  table := narrowName
  rows := rows
  fields := [("col1", 2 ^ 63), ("col2", 2 ^ 63)]

/-- What holds of the wide table of up to `2 ^ 31` rows, also when the ten rows
were inserted. -/
def wideSchema : Schema where
  table := wideName
  rows := 2 ^ 31 + 10
  fields := [("col1", 2 ^ 30), ("col2", 2 ^ 31), ("col3", 3000)]

theorem natAbs_toInt_le (n : Int64) : n.toInt.natAbs ≤ 2 ^ 63 := by
  have hlow := n.le_toInt
  have hhigh := n.toInt_lt
  omega

theorem map_name_ofInts : ∀ {columns : List String} {ints : List (List Int64)},
    ints.length = columns.length →
    (List.zipWith Column.ofInts columns ints).map Column.name = columns
  | [], [], _ => rfl
  | [], _ :: _, h => by simp at h
  | _ :: _, [], h => by simp at h
  | name :: columns, xs :: ints, h => by
    rw [List.zipWith_cons_cons, List.map_cons, map_name_ofInts (Nat.succ.inj h)]
    rfl

theorem size_ofInts {n : Nat} : ∀ {columns : List String} {ints : List (List Int64)},
    (∀ xs ∈ ints, xs.length = n) → ∀ c ∈ List.zipWith Column.ofInts columns ints, c.size = n
  | [], _, _, c, hc => by simp at hc
  | _ :: _, [], _, c, hc => by simp at hc
  | name :: columns, xs :: ints, h, c, hc => by
    obtain ⟨hxs, hints⟩ := List.forall_mem_cons.mp h
    rw [List.zipWith_cons_cons, List.mem_cons] at hc
    rcases hc with rfl | hc
    · simp [Column.ofInts, Column.size, hxs]
    · exact size_ofInts hints c hc

theorem exists_ofInts (name : String) {columns : List String} {xs : List Int64}
    {ints : List (List Int64)} {n : Nat} (hnames : columns.Nodup)
    (hlength : (xs :: ints).length = columns.length) (hsize : ∀ ys ∈ xs :: ints, ys.length = n) :
    ∃ t, ofInts name columns (xs :: ints) = .ok t ∧ t.name = name ∧
      t.columns = List.zipWith Column.ofInts columns (xs :: ints) ∧ t.rowCount = n := by
  have hsizes : ∀ c ∈ List.zipWith Column.ofInts columns (xs :: ints), c.size = n :=
    size_ofInts hsize
  have hrows : Table.rowsOf (List.zipWith Column.ofInts columns (xs :: ints)) = n := by
    cases columns with
    | nil => simp at hlength
    | cons c columns => exact hsizes _ List.mem_cons_self
  rw [← hrows]
  refine Table.exists_ofColumns name ?_ (fun c hc => (hsizes c hc).trans hrows.symm)
  rw [map_name_ofInts hlength]
  exact hnames

theorem hasWithin_ofInts {t : Table} {field : String} {xs : List Int64} {b : Nat}
    (hcol : t.column? field = some (Column.ofInts field xs))
    (hxs : ∀ x ∈ xs, x.toInt.natAbs ≤ b) : t.HasWithin field b := by
  refine ⟨_, hcol, fun v hv => ?_⟩
  obtain ⟨x, hx, rfl⟩ := List.mem_map.mp (List.mem_toArray.mp hv)
  exact ⟨x, rfl, hxs x hx⟩

/-! ### The narrow table -/

theorem swapIfInBounds_perm {α : Type} (items : Array α) (i j : Nat) :
    (items.swapIfInBounds i j).Perm items := by
  rw [Array.swapIfInBounds_def]
  split
  · split
    · exact Array.swap_perm _ _
    · exact .refl items
  · exact .refl items

/-- Exchanges put the items in another order. -/
theorem shuffleDown_perm {α : Type} (limit : Nat) : ∀ (i : Nat) (items : Array α) (k : Keystream),
    (shuffleDown limit i items k).1.Perm items
  | 0, items, _ => .refl items
  | i + 1, items, k => by
    rw [shuffleDown]
    exact (shuffleDown_perm limit i _ _).trans (swapIfInBounds_perm items _ _)

theorem shuffleWithin_perm {α : Type} (limit : Nat) (items : List α) (k : Keystream) :
    (shuffleWithin limit items.toArray k).1.toList.Perm items :=
  (shuffleDown_perm limit _ _ k).toList

theorem length_counting (first count : Nat) : (counting first count).length = count := by
  rw [counting, List.length_map, List.length_range]

/-- The narrow table is made whatever its size and seed: one column counts the
rows, the other has ten more in the order that the shuffle gives. -/
theorem exists_narrow_columns (limit rows : Nat) (seed : UInt64) :
    ∃ t ys, narrowWithin limit rows seed = .ok t ∧ t.name = narrowName ∧ t.rowCount = rows ∧
      (shuffleWithin limit (counting 10 rows).toArray (Keystream.ofSeed seed)).1.toList = ys ∧
      ys.Perm (counting 10 rows) ∧
      t.columns = [Column.ofInts "col1" (counting 0 rows), Column.ofInts "col2" ys] := by
  have hperm := shuffleWithin_perm limit (counting 10 rows) (Keystream.ofSeed seed)
  have hsizes : ∀ xs ∈ [counting 0 rows,
      (shuffleWithin limit (counting 10 rows).toArray (Keystream.ofSeed seed)).1.toList],
      xs.length = rows := by
    simp only [List.forall_mem_cons, hperm.length_eq, length_counting, List.not_mem_nil,
      false_implies, implies_true, and_self]
  have hnames : narrowColumns.Nodup := by decide
  obtain ⟨t, ht, hname, hcols, hcount⟩ := exists_ofInts narrowName hnames rfl hsizes
  exact ⟨t, _, ht, hname, hcount, rfl, hperm, hcols⟩

theorem exists_narrow (rows : Nat) (seed : UInt64) :
    ∃ t, narrow rows seed = .ok t ∧ t.Conforms (narrowSchema rows) ∧
      t.columns.map Column.name = narrowColumns ∧ t.rowCount = rows := by
  obtain ⟨t, ys, ht, hname, hcount, -, -, hcols⟩ := exists_narrow_columns redrawLimit rows seed
  refine ⟨t, ht, ⟨hname, Nat.le_of_eq hcount, ?_⟩, ?_, hcount⟩
  · have hfirst : t.column? "col1" = some (Column.ofInts "col1" (counting 0 rows)) := by
      rw [Table.column?, hcols]
      rfl
    have hsecond : t.column? "col2" = some (Column.ofInts "col2" ys) := by
      rw [Table.column?, hcols]
      rfl
    intro f hf
    simp only [narrowSchema, List.mem_cons, List.not_mem_nil, or_false] at hf
    rcases hf with rfl | rfl
    · exact ⟨by decide, hasWithin_ofInts hfirst fun x _ => natAbs_toInt_le x⟩
    · exact ⟨by decide, hasWithin_ofInts hsecond fun x _ => natAbs_toInt_le x⟩
  · rw [hcols]
    rfl

/-! ### The wide table -/

theorem length_leadingPairs : ∀ {n : Nat} {block : List Int64}, block.length = n * 4 →
    (leadingPairs block).length = n
  | 0, [], _ => rfl
  | 0, _ :: _, h => by simp at h
  | n + 1, a :: b :: _ :: _ :: rest, h => by
    simp only [List.length_cons] at h
    rw [leadingPairs, List.length_cons, length_leadingPairs (n := n) (by omega)]
  | n + 1, [], h | n + 1, [_], h | n + 1, [_, _], h | n + 1, [_, _, _], h => by
    simp only [List.length_cons, List.length_nil] at h
    omega

theorem mem_of_mem_leadingPairs {p : Int64 × Int64} : ∀ {block : List Int64},
    p ∈ leadingPairs block → p.1 ∈ block ∧ p.2 ∈ block
  | a :: b :: _ :: _ :: rest, h => by
    rw [leadingPairs, List.mem_cons] at h
    rcases h with rfl | h
    · simp
    · have ih := mem_of_mem_leadingPairs h
      exact ⟨by simp [ih.1], by simp [ih.2]⟩
  | [], h | [_], h | [_, _], h | [_, _, _], h => by simp [leadingPairs] at h

/-- The least integer that the block of the wide table may hold. -/
def blockLow (rows : Nat) : Int64 := Int64.ofInt (-(rows / 2 : Nat))

/-- The integers of the block are below this one. -/
def blockHigh (rows : Nat) : Int64 := Int64.ofInt (max (rows / 2 : Nat) (1 - (rows / 2 : Nat)))

theorem toInt_block {rows : Nat} (hrows : rows < 2 ^ 64) :
    (blockLow rows).toInt = -(rows / 2 : Nat) ∧
      (blockHigh rows).toInt = max ((rows / 2 : Nat) : Int) (1 - (rows / 2 : Nat)) :=
  ⟨Int64.toInt_ofInt_of_le (by omega) (by omega), Int64.toInt_ofInt_of_le (by omega) (by omega)⟩

theorem wideWithin_eq (limit rows : Nat) : wideWithin limit rows = (do
    let block ← uniformsWithin limit (blockLow rows) (blockHigh rows) (rows * 4)
    let small ← uniformsWithin limit 0 100 rows
    let large ← uniformsWithin limit 2147473648 2147483648 rows
    match ofInts wideName wideColumns [(leadingPairs block).map (·.1),
        (leadingPairs block).map (fun p => p.2 + p.1), small, large] with
    | .ok t => return t
    | .error fault => throw fault) :=
  rfl

/-- The numbers of a wide table, drawn in this order, each after at most `limit`
refusals: four for every row, the third column, the fourth. -/
def WideDraws (limit rows : Nat) (k : Keystream) (block small large : List Int64)
    (last : Keystream) : Prop :=
  ∃ k₁ k₂, (uniformsWithin limit (blockLow rows) (blockHigh rows) (rows * 4)).run k =
      (.ok block, k₁) ∧
    (uniformsWithin limit 0 100 rows).run k₁ = (.ok small, k₂) ∧
    (uniformsWithin limit 2147473648 2147483648 rows).run k₂ = (.ok large, last)

/-- The wide table is made from every keystream, out of as many numbers of their
intervals as it has cells and twice as many in the block. -/
theorem exists_wide_columns (limit : Nat) {rows : Nat} (hrows : rows < 2 ^ 64) (k : Keystream) :
    ∃ t block small large last, WideDraws limit rows k block small large last ∧
      (wideWithin limit rows).run k = (.ok t, last) ∧ t.name = wideName ∧ t.rowCount = rows ∧
      t.columns = List.zipWith Column.ofInts wideColumns [(leadingPairs block).map (·.1),
        (leadingPairs block).map (fun p => p.2 + p.1), small, large] ∧
      (block.length = rows * 4 ∧ ∀ x ∈ block, InInterval (blockLow rows) (blockHigh rows) x) ∧
      (small.length = rows ∧ ∀ x ∈ small, InInterval 0 100 x) ∧
      large.length = rows ∧ ∀ x ∈ large, InInterval 2147473648 2147483648 x := by
  obtain ⟨hlow, hhigh⟩ := toInt_block hrows
  have hblock : (blockLow rows).toInt < (blockHigh rows).toInt := by omega
  have hsmall : (0 : Int64).toInt < (100 : Int64).toInt := by decide
  have hlarge : (2147473648 : Int64).toInt < (2147483648 : Int64).toInt := by decide
  obtain ⟨block, k₁, hdraw₁, hlength₁, hin₁⟩ := exists_uniformsWithin limit hblock (rows * 4) k
  obtain ⟨small, k₂, hdraw₂, hlength₂, hin₂⟩ := exists_uniformsWithin limit hsmall rows k₁
  obtain ⟨large, k₃, hdraw₃, hlength₃, hin₃⟩ := exists_uniformsWithin limit hlarge rows k₂
  have hsizes : ∀ xs ∈ [(leadingPairs block).map (·.1),
      (leadingPairs block).map (fun p => p.2 + p.1), small, large], xs.length = rows := by
    simp [length_leadingPairs hlength₁, hlength₂, hlength₃]
  have hnames : wideColumns.Nodup := by decide
  obtain ⟨t, ht, hname, hcols, hcount⟩ := exists_ofInts wideName hnames rfl hsizes
  refine ⟨t, block, small, large, k₃, ⟨k₁, k₂, hdraw₁, hdraw₂, hdraw₃⟩, ?_, hname, hcount, hcols,
    ⟨hlength₁, hin₁⟩, ⟨hlength₂, hin₂⟩, hlength₃, hin₃⟩
  rw [wideWithin_eq, Draw.run_bind_ok hdraw₁, Draw.run_bind_ok hdraw₂, Draw.run_bind_ok hdraw₃, ht]
  exact Draw.run_pure t k₃

theorem toInt_add_of_block {rows : Nat} (hrows : rows ≤ 2 ^ 60) {x y : Int64}
    (hx : InInterval (blockLow rows) (blockHigh rows) x)
    (hy : InInterval (blockLow rows) (blockHigh rows) y) :
    (x + y).toInt = x.toInt + y.toInt := by
  have hword : rows < 2 ^ 64 := by omega
  obtain ⟨hlow, hhigh⟩ := toInt_block hword
  rw [InInterval, hlow, hhigh] at hx hy
  rw [Int64.toInt_add, Int.bmod_eq_of_le (by omega) (by omega)]

/-- The wide table of up to `2 ^ 31` rows has integers that are bounded. -/
theorem exists_wide {rows : Nat} (hrows : rows ≤ 2 ^ 31) (k : Keystream) :
    ∃ t k', (wide rows).run k = (.ok t, k') ∧ t.Conforms wideSchema ∧
      t.columns.map Column.name = wideColumns ∧ t.rowCount = rows := by
  have hword : rows < 2 ^ 64 := by omega
  have hfits : rows ≤ 2 ^ 60 := by omega
  obtain ⟨hlow, hhigh⟩ := toInt_block hword
  obtain ⟨t, block, small, large, last, -, ht, hname, hcount, hcols, ⟨-, hin₁⟩, ⟨-, hin₂⟩, -⟩ :=
    exists_wide_columns redrawLimit hword k
  refine ⟨t, last, ht, ⟨hname, ?_, ?_⟩, ?_, hcount⟩
  · rw [hcount]
    exact Nat.le_trans hrows (Nat.le_add_right _ _)
  · have hwithin : ∀ x ∈ block, x.toInt.natAbs ≤ 2 ^ 30 := by
      intro x hx
      obtain ⟨h₁, h₂⟩ := hin₁ x hx
      omega
    have hfirst : t.column? "col1" =
        some (Column.ofInts "col1" ((leadingPairs block).map (·.1))) := by
      rw [Table.column?, hcols]
      rfl
    have hsecond : t.column? "col2" =
        some (Column.ofInts "col2" ((leadingPairs block).map fun p => p.2 + p.1)) := by
      rw [Table.column?, hcols]
      rfl
    have hthird : t.column? "col3" = some (Column.ofInts "col3" small) := by
      rw [Table.column?, hcols]
      rfl
    intro f hf
    simp only [wideSchema, List.mem_cons, List.not_mem_nil, or_false] at hf
    rcases hf with rfl | rfl | rfl
    · refine ⟨by decide, hasWithin_ofInts hfirst fun x hx => ?_⟩
      obtain ⟨p, hp, rfl⟩ := List.mem_map.mp hx
      exact hwithin p.1 (mem_of_mem_leadingPairs hp).1
    · refine ⟨by decide, hasWithin_ofInts hsecond fun x hx => ?_⟩
      obtain ⟨p, hp, rfl⟩ := List.mem_map.mp hx
      obtain ⟨h₁, h₂⟩ := mem_of_mem_leadingPairs hp
      have hle₁ := hwithin p.1 h₁
      have hle₂ := hwithin p.2 h₂
      rw [toInt_add_of_block hfits (hin₁ p.2 h₂) (hin₁ p.1 h₁)]
      omega
    · refine ⟨by decide, hasWithin_ofInts hthird fun x hx => ?_⟩
      obtain ⟨hge, hlt⟩ := hin₂ x hx
      change 0 ≤ x.toInt at hge
      change x.toInt < 100 at hlt
      omega
  · rw [hcols, map_name_ofInts rfl]

theorem header_of_wide {rows : Nat} {k k' : Keystream} {t : Table}
    (h : (wide rows).run k = (.ok t, k')) :
    t.name = wideName ∧ t.columns.map Column.name = wideColumns := by
  rw [wide, wideWithin_eq] at h
  obtain ⟨block, k₁, -, h⟩ := Draw.exists_of_run_bind_eq_ok h
  obtain ⟨small, k₂, -, h⟩ := Draw.exists_of_run_bind_eq_ok h
  obtain ⟨large, k₃, -, h⟩ := Draw.exists_of_run_bind_eq_ok h
  split at h
  · rename_i made hmade
    obtain ⟨rfl, -⟩ : made = t ∧ k₃ = k' := by
      rw [Draw.run_pure] at h
      obtain ⟨hmade, hk⟩ := Prod.mk.inj h
      exact ⟨Except.ok.inj hmade, hk⟩
    obtain ⟨hname, hcols⟩ := Table.eq_of_ofColumns hmade
    refine ⟨hname, ?_⟩
    rw [hcols, map_name_ofInts rfl]
  · cases h

/-! ### The inserted rows -/

theorem length_of_mem_insertedRows : ∀ row ∈ insertedRows, row.length = 4 := by
  decide

theorem within_of_mem_insertedRows : ∀ row ∈ insertedRows, ∀ v ∈ row, v.Within 3000 := by
  intro row hrow v hv
  obtain ⟨ints, hints, rfl⟩ := List.mem_map.mp hrow
  obtain ⟨n, hn, rfl⟩ := List.mem_map.mp hv
  have hall : ints.all (fun i => decide (i.toInt.natAbs ≤ 3000)) = true := by
    clear hrow hv hn
    revert ints
    decide
  exact ⟨n, rfl, of_decide_eq_true (List.all_eq_true.mp hall n hn)⟩

theorem length_eq_of_mem_insertedRows {t : Table}
    (hheader : t.columns.map Column.name = wideColumns) :
    ∀ row ∈ insertedRows, row.length = t.columns.length := by
  have hwidth : t.columns.length = 4 := by
    rw [← List.length_map Column.name, hheader]
    rfl
  exact fun row hrow => (length_of_mem_insertedRows row hrow).trans hwidth.symm

/-- The ten rows are inserted into the wide table, and the bounds hold still. -/
theorem exists_grown_wide {t : Table} (ht : t.Conforms wideSchema)
    (hheader : t.columns.map Column.name = wideColumns) (hrows : t.rowCount ≤ 2 ^ 31) :
    ∃ u, insertedRows.foldlM Table.insert t = .ok u ∧ t.GrownBy insertedRows u ∧
      u.Conforms wideSchema := by
  have hbounds : ∀ f ∈ wideSchema.fields, 3000 ≤ f.2 := by decide
  obtain ⟨u, hu, hgrown, hwithin⟩ := Table.exists_grown (length_eq_of_mem_insertedRows hheader)
  refine ⟨u, hu, hgrown, hgrown.name.trans ht.name, ?_, fun f hf => ?_⟩
  · rw [hgrown.rowCount]
    exact Nat.add_le_add_right hrows 10
  · obtain ⟨hdot, hfield⟩ := ht.fields f hf
    exact ⟨hdot, hwithin f.1 f.2 hfield fun row hrow v hv =>
      (within_of_mem_insertedRows row hrow v hv).mono (hbounds f hf)⟩

end Fixture
end Columnar
