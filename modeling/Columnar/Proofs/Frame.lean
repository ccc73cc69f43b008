/-
# Tables that are only there

A script that runs to its end on some tables runs to the same end if there
are others besides: a command that succeeds asks for names that stand for
something, and these stand for the same with more tables registered
(`Session.performs_of_partOf`). So what a script prints does not depend on
tables that it does not name (`Session.run_of_partOf`).

Key definitions: `Catalog.PartOf`, `Session.PartOf`.
Key theorems: `Session.performs_of_partOf`, `Session.run_of_partOf`,
`Scenario.evaluate_of_partOf`.
-/
import Columnar.Proofs.Script
import Columnar.Scenario

namespace Columnar

/-- Every table of the one catalog is in the other under the same name. -/
def Catalog.PartOf (c d : Catalog) : Prop :=
  ∀ (name : String) (t : Table), c.find? name = some t → d.find? name = some t

namespace Catalog

theorem PartOf.resolve {c d : Catalog} (h : c.PartOf d) {name : String} {col : Column}
    (hcol : c.resolve name = .ok col) : d.resolve name = .ok col := by
  obtain ⟨table, field, t, hsplit, ht, hfield⟩ := resolve_eq_ok_iff.mp hcol
  exact resolve_eq_ok_iff.mpr ⟨table, field, t, hsplit, h table t ht, hfield⟩

theorem PartOf.register {c d : Catalog} (h : c.PartOf d) (u : Table) :
    (c.register u).PartOf (d.register u) := by
  intro name t ht
  rw [find?_register] at ht ⊢
  by_cases hname : u.name = name
  · rw [if_pos hname] at ht ⊢
    exact ht
  · rw [if_neg hname] at ht ⊢
    exact h name t ht

theorem partOf_register {c : Catalog} {u : Table} (h : c.find? u.name = none) :
    c.PartOf (c.register u) := by
  intro name t ht
  rw [find?_register]
  have hne : u.name ≠ name := by
    rintro rfl
    rw [h] at ht
    cases ht
  rw [if_neg hne]
  exact ht

end Catalog

namespace Session

/-- The one session is the other with fewer tables. -/
structure PartOf (s t : Session) : Prop where
  catalog : s.catalog.PartOf t.catalog
  generation : t.generation = s.generation
  bindings : t.bindings = s.bindings

theorem partOf_start {c d : Catalog} (h : c.PartOf d) : (start c).PartOf (start d) := ⟨h, rfl, rfl⟩

theorem PartOf.after {s t : Session} (h : s.PartOf t) (e : Effect) :
    (s.after e).PartOf (t.after e) := by
  obtain ⟨hcatalog, hgeneration, hbindings⟩ := h
  cases e with
  | nothing => exact ⟨hcatalog, hgeneration, hbindings⟩
  | grow u => exact ⟨hcatalog.register u, by rw [Session.after, hgeneration]; rfl, hbindings⟩
  | assign target b => exact ⟨hcatalog, hgeneration, by rw [Session.after, hbindings]; rfl⟩
  | output text => exact ⟨hcatalog, hgeneration, hbindings⟩

theorem PartOf.printable {s t : Session} (h : s.PartOf t) : t.printable = s.printable := by
  funext name
  rw [Session.printable, Session.printable, lookup, lookup, h.bindings]

theorem PartOf.operand {s t : Session} (h : s.PartOf t) {source : Source} {values : List Value}
    (hs : s.operand source = .ok values) : t.operand source = .ok values := by
  cases source with
  | stored name =>
    obtain ⟨col, hcol, hvalues⟩ := bind_eq_ok_iff.mp hs
    rw [Session.operand, h.catalog.resolve hcol]
    exact hvalues
  | assigned name =>
    rw [← hs, Session.operand, Session.operand, vector, vector, lookup, lookup, h.bindings]

theorem PartOf.narrowed {s t : Session} (h : s.PartOf t) {sel : Selection} {values : List Value}
    {source : Option Provenance} {range : Range} {kept : PositionSet}
    (hs : s.narrowed sel values source range = .ok kept) :
    t.narrowed sel values source range = .ok kept := by
  unfold Session.narrowed at hs ⊢
  split
  · rename_i origin
    simp only at hs
    split at hs
    · rename_i hpositions
      obtain ⟨col, hcol, hkept⟩ := bind_eq_ok_iff.mp hs
      rw [if_pos hpositions, h.catalog.resolve hcol]
      exact hkept
    · rename_i hpositions
      rw [if_neg hpositions]
      exact hs
  · exact hs

/-- A command that succeeds has the same effect with more tables. -/
theorem performs_of_partOf {s t : Session} (h : s.PartOf t) {c : Command} {e : Effect}
    (hs : Performs s c e) : Performs t c e := by
  cases hs with
  | comment => exact .comment
  | blank => exact .blank
  | createDatabase => exact .createDatabase
  | load => exact .load
  | shutdown => exact .shutdown
  | createTable ht => exact .createTable (h.catalog _ _ ht)
  | createColumn ht hcol => exact .createColumn (h.catalog _ _ ht) hcol
  | insert ht hu => exact .insert (h.catalog _ _ ht) hu
  | select hsplit hcol =>
    rw [← h.generation]
    exact .select hsplit (h.catalog.resolve hcol)
  | selectFrom hsel hvector hkept =>
    rw [← h.bindings] at hsel hvector
    exact .selectFrom hsel hvector (h.narrowed hkept)
  | fetch hsel hsplit hcurrent hcol hvalues =>
    rw [← h.bindings] at hsel
    rw [← h.generation] at hcurrent
    exact .fetch hsel hsplit hcurrent (h.catalog.resolve hcol) hvalues
  | aggregate hvalues hresult => exact .aggregate (h.operand hvalues) hresult
  | arithmetic hx hy hz =>
    rw [← h.bindings] at hx hy
    exact .arithmetic hx hy hz
  | print hargs htext =>
    rw [← h.printable] at hargs
    exact .print hargs htext

/-- **More tables make no difference.** A script that runs to its end prints
the same with tables besides. -/
theorem run_of_partOf : ∀ {cs : List Command} {s t last : Session} {text : String}, s.PartOf t →
    s.run cs = (.ok text, last) → ∃ last', t.run cs = (.ok text, last') ∧ last.PartOf last'
  | [], s, t, last, text, h, hs => by
    obtain ⟨htext, rfl⟩ := Prod.mk.inj hs
    cases htext
    exact ⟨t, rfl, h⟩
  | c :: cs, s, t, last, text, h, hs => by
    cases hc : s.effect c with
    | error fault =>
      rw [run_cons_error hc] at hs
      cases hs
    | ok e =>
      have ht := effect_of_performs (performs_of_partOf h (performs_of_effect hc))
      rw [run_cons_ok hc] at hs
      obtain ⟨htext, hlast⟩ := Prod.mk.inj hs
      cases hrest : ((s.after e).run cs).1 with
      | error fault =>
        rw [hrest] at htext
        cases htext
      | ok rest =>
        rw [hrest] at htext
        obtain ⟨last', hrun, hpart⟩ := run_of_partOf (h.after e) (Prod.ext hrest hlast)
        refine ⟨last', ?_, hpart⟩
        rw [run_cons_ok ht, hrun]
        exact Prod.ext htext rfl

end Session

namespace Scenario

open Session

theorem evaluate_of_run {sc : Scenario} {catalog : Catalog} {text : String} {last : Session}
    (h : (start catalog).run sc.commands = (.ok text, last)) :
    sc.evaluate catalog = .ok (text, last.catalog) := by
  rw [evaluate, h]

theorem evaluate_of_run_error {sc : Scenario} {catalog : Catalog} {fault : Fault}
    (h : ((start catalog).run sc.commands).1 = .error fault) :
    sc.evaluate catalog = .error fault := by
  unfold evaluate
  split
  · rename_i hrun
    rw [hrun] at h
    cases h
  · rename_i hrun
    rw [hrun] at h
    rw [Except.error.inj h]

theorem exists_run_of_evaluate {sc : Scenario} {catalog last : Catalog} {text : String}
    (h : sc.evaluate catalog = .ok (text, last)) :
    ∃ t, (start catalog).run sc.commands = (.ok text, t) ∧ t.catalog = last := by
  unfold evaluate at h
  split at h
  · rename_i output t hrun
    obtain ⟨rfl, rfl⟩ := Prod.mk.inj (Except.ok.inj h)
    exact ⟨t, hrun, rfl⟩
  · cases h

theorem evaluate_of_partOf {c d : Catalog} (h : c.PartOf d) {sc : Scenario} {text : String}
    {last : Catalog} (hc : sc.evaluate c = .ok (text, last)) :
    ∃ last', sc.evaluate d = .ok (text, last') ∧ last.PartOf last' := by
  obtain ⟨t, hrun, rfl⟩ := exists_run_of_evaluate hc
  obtain ⟨t', hrun', hpart⟩ := run_of_partOf (partOf_start h) hrun
  exact ⟨t'.catalog, evaluate_of_run hrun', hpart.catalog⟩

end Scenario
end Columnar
