/-
# Scripts that assign every variable once

A script may assign a variable again, also one of another kind and also one
that the same command reads. Nothing of what the variable held before matters
then: with a new variable for every assignment, and every read of a variable
turned into a read of the one that its latest assignment went to
(`assignedOnce`), a self-contained script does the same. It prints the same and
leaves the same tables, or it fails at the same command with the same fault
but for the name of a variable in it (`Session.run_assignedOnce`).

The two sessions go in step: the tables and the generations are the same, and
what the one holds in a variable the other holds in the one that stands for it
(`Session.Renamed`). The new names differ, so an assignment never hits a
variable that stands for another.

Key definitions: `Command.renamed`, `assignedOnce`, `Fault.nameless`, `Alike`,
`Session.Renamed`, `Session.FailsAt`.
Key theorems: `nodup_targets_assignedOnce`, `Session.effect_renamed`,
`Session.renamed_after_assign`, `Session.run_assignedOnce`.
-/
import Columnar.Proofs.Continuation
import Columnar.Proofs.Script
import Mathlib.Data.List.Nodup

namespace Columnar

/-! ### New names -/

/-- The command that assigns `target` and reads what stands for its
variables. -/
def Command.renamed (current : String → String) (target : String) : Command → Command
  | .select _ column range => .select target column range
  | .selectFrom _ positions vector range =>
    .selectFrom target (current positions) (current vector) range
  | .fetch _ column positions => .fetch target column (current positions)
  | .aggregate _ function (.stored column) => .aggregate target function (.stored column)
  | .aggregate _ function (.assigned name) =>
    .aggregate target function (.assigned (current name))
  | .arithmetic _ operation left right =>
    .arithmetic target operation (current left) (current right)
  | .print names => .print (names.map current)
  | c => c

/-- What stands for a variable after an assignment. -/
def standing (current : String → String) (name target : String) : String → String :=
  fun other => if other = name then target else current other

/-- The commands with a name from `fresh` for every assignment, the first of
them number `used`; `current` says what stands for each variable so far. -/
def assignedOnceFrom (fresh : Nat → String) (used : Nat) (current : String → String) :
    List Command → List Command
  | [] => []
  | c :: cs =>
    c.renamed current (fresh used) ::
      match c.target? with
      | some name => assignedOnceFrom fresh (used + 1) (standing current name (fresh used)) cs
      | none => assignedOnceFrom fresh used current cs

/-- The script in which the assignments go to the variables `fresh 0`,
`fresh 1` and so on, and every read is of the latest. -/
def assignedOnce (fresh : Nat → String) (cs : List Command) : List Command :=
  assignedOnceFrom fresh 0 id cs

theorem target?_renamed (current : String → String) (target : String) (c : Command) :
    (c.renamed current target).target? = c.target?.map fun _ => target := by
  cases c with
  | aggregate name function source => cases source <;> rfl
  | _ => rfl

theorem targets_assignedOnceFrom (fresh : Nat → String) (cs : List Command) :
    ∀ (used : Nat) (current : String → String), ∃ count,
      (assignedOnceFrom fresh used current cs).filterMap Command.target? =
        (List.range' used count).map fresh := by
  induction cs with
  | nil => exact fun used current => ⟨0, rfl⟩
  | cons c cs ih =>
    intro used current
    unfold assignedOnceFrom
    rw [List.filterMap_cons, target?_renamed]
    cases htarget : c.target? with
    | none => exact ih used current
    | some name =>
      obtain ⟨count, hcount⟩ := ih (used + 1) (standing current name (fresh used))
      refine ⟨count + 1, ?_⟩
      simp only [Option.map_some, hcount, List.range'_succ, List.map_cons]

/-- No variable is assigned twice. -/
theorem nodup_targets_assignedOnce {fresh : Nat → String} (hfresh : Function.Injective fresh)
    (cs : List Command) : ((assignedOnce fresh cs).filterMap Command.target?).Nodup := by
  obtain ⟨count, hcount⟩ := targets_assignedOnceFrom fresh cs 0 id
  unfold assignedOnce
  rw [hcount]
  exact List.Nodup.map hfresh List.nodup_range'

/-! ### The same but for names -/

/-- The fault without the name of a variable. -/
def Fault.nameless : Fault → Fault
  | unknownVariable _ => unknownVariable ""
  | wrongKind _ expected => wrongKind "" expected
  | staleSelection _ column => staleSelection "" column
  | fault => fault

/-- Two computations end alike: in results that stand in a relation, or in
faults that differ in the name of a variable at most. -/
inductive Alike {α β : Type} (R : α → β → Prop) : Except Fault α → Except Fault β → Prop where
  | ok {a : α} {b : β} : R a b → Alike R (.ok a) (.ok b)
  | error {f g : Fault} : f.nameless = g.nameless → Alike R (.error f) (.error g)

namespace Alike

theorem refl {α : Type} (x : Except Fault α) : Alike Eq x x := by
  cases x with
  | error fault => exact .error rfl
  | ok a => exact .ok rfl

theorem bind {α β γ δ : Type} {R : α → β → Prop} {S : γ → δ → Prop} {x : Except Fault α}
    {y : Except Fault β} {f : α → Except Fault γ} {g : β → Except Fault δ} (h : Alike R x y)
    (hfg : ∀ a b, R a b → Alike S (f a) (g b)) : Alike S (x >>= f) (y >>= g) := by
  cases h with
  | error hfault => exact .error hfault
  | ok hab => exact hfg _ _ hab

theorem bind_left {α γ δ : Type} {S : γ → δ → Prop} (x : Except Fault α) {f : α → Except Fault γ}
    {g : α → Except Fault δ} (hfg : ∀ a, Alike S (f a) (g a)) : Alike S (x >>= f) (x >>= g) := by
  apply bind (refl x)
  rintro a _ rfl
  exact hfg a

theorem mapM {α β : Type} {f g : α → Except Fault β} {as : List α}
    {rename : α → α} (h : ∀ a ∈ as, Alike Eq (f a) (g (rename a))) :
    Alike Eq (as.mapM f) ((as.map rename).mapM g) := by
  induction as with
  | nil => exact refl _
  | cons a as ih =>
    obtain ⟨ha, has⟩ := List.forall_mem_cons.mp h
    rw [List.map_cons, List.mapM_cons, List.mapM_cons]
    apply bind ha
    rintro b _ rfl
    apply bind (ih has)
    rintro bs _ rfl
    exact refl _

end Alike

/-- The effect with another variable assigned. -/
def Effect.retargeted (target : String) : Effect → Effect
  | assign _ b => assign target b
  | e => e

theorem Effect.text_retargeted (target : String) (e : Effect) :
    (e.retargeted target).text = e.text := by
  cases e <;> rfl

namespace Session

/-! ### Two sessions in step -/

/-- What the session `s` holds in a known variable `t` holds in the one that
stands for it, which is one of the names used so far. -/
structure Renamed (fresh : Nat → String) (used : Nat) (current : String → String)
    (known : List String) (s t : Session) : Prop where
  catalog : t.catalog = s.catalog
  generation : t.generation = s.generation
  bindings : ∀ name ∈ known, t.bindings (current name) = s.bindings name
  used : ∀ name ∈ known, ∃ k < used, current name = fresh k

theorem renamed_start (fresh : Nat → String) (catalog : Catalog) :
    Renamed fresh 0 id [] (start catalog) (start catalog) where
  catalog := rfl
  generation := rfl
  bindings _ h := absurd h List.not_mem_nil
  used _ h := absurd h List.not_mem_nil

section

variable {fresh : Nat → String} {used : Nat} {current : String → String} {known : List String}
  {s t : Session}

theorem lookup_renamed (h : Renamed fresh used current known s t) {name : String}
    (hname : name ∈ known) : Alike Eq (s.lookup name) (t.lookup (current name)) := by
  unfold lookup
  rw [h.bindings name hname]
  cases s.bindings name with
  | none => exact .error rfl
  | some b => exact .ok rfl

theorem selection_renamed (h : Renamed fresh used current known s t) {name : String}
    (hname : name ∈ known) : Alike Eq (s.selection name) (t.selection (current name)) := by
  apply Alike.bind (lookup_renamed h hname)
  rintro b _ rfl
  cases b with
  | selection sel => exact .ok rfl
  | vector | scalar => exact .error rfl

theorem vector_renamed (h : Renamed fresh used current known s t) {name : String}
    (hname : name ∈ known) : Alike Eq (s.vector name) (t.vector (current name)) := by
  apply Alike.bind (lookup_renamed h hname)
  rintro b _ rfl
  cases b with
  | vector values source => exact .ok rfl
  | selection | scalar => exact .error rfl

theorem printable_renamed (h : Renamed fresh used current known s t) {name : String}
    (hname : name ∈ known) : Alike Eq (s.printable name) (t.printable (current name)) := by
  apply Alike.bind (lookup_renamed h hname)
  rintro b _ rfl
  cases b with
  | vector | scalar => exact .ok rfl
  | selection sel => exact .error rfl

/-- **One command.** The command under the new names has the effect of the old
one, on the new target, or the same fault but for a name. -/
theorem effect_renamed (h : Renamed fresh used current known s t) {c : Command}
    (hreads : ∀ name ∈ c.reads, name ∈ known) (target : String) :
    Alike (fun e e' => e' = e.retargeted target) (s.effect c)
      (t.effect (c.renamed current target)) := by
  have hcatalog := h.catalog
  have hgeneration := h.generation
  cases c with
  | comment | blank | createDatabase | load | shutdown => exact .ok rfl
  | createTable name database columns =>
    simp only [Command.renamed, effect, hcatalog]
    apply Alike.bind_left
    intro u
    by_cases hlength : u.columns.length = columns
    · rw [if_pos hlength]
      exact .ok rfl
    · rw [if_neg hlength]
      exact .error rfl
  | createColumn name table =>
    simp only [Command.renamed, effect, hcatalog]
    apply Alike.bind_left
    intro u
    apply Alike.bind_left
    exact fun col => .ok rfl
  | insert table row =>
    simp only [Command.renamed, effect, hcatalog]
    apply Alike.bind_left
    intro u
    apply Alike.bind_left
    exact fun grown => .ok rfl
  | select name column range =>
    simp only [Command.renamed, effect, hcatalog, hgeneration]
    apply Alike.bind_left
    intro p
    apply Alike.bind_left
    exact fun col => .ok rfl
  | selectFrom name positions vector range =>
    have hpositions : positions ∈ known := hreads positions (by simp [Command.reads])
    have hvector : vector ∈ known := hreads vector (by simp [Command.reads])
    simp only [Command.renamed, effect]
    apply Alike.bind (selection_renamed h hpositions)
    rintro sel _ rfl
    apply Alike.bind (vector_renamed h hvector)
    rintro p _ rfl
    simp only [narrowed, hcatalog]
    apply Alike.bind_left
    exact fun kept => .ok rfl
  | fetch name column positions =>
    have hpositions : positions ∈ known := hreads positions (by simp [Command.reads])
    simp only [Command.renamed, effect, hcatalog, hgeneration]
    apply Alike.bind (selection_renamed h hpositions)
    rintro sel _ rfl
    apply Alike.bind_left
    intro p
    by_cases hcurrent : p.1 = sel.table ∧ sel.generation = s.generation sel.table
    · simp only [if_pos hcurrent]
      apply Alike.bind_left
      intro col
      apply Alike.bind_left
      exact fun values => .ok rfl
    · simp only [if_neg hcurrent]
      exact .error rfl
  | aggregate name function source =>
    cases source with
    | stored column =>
      simp only [Command.renamed, effect, operand, hcatalog]
      apply Alike.bind_left
      intro values
      apply Alike.bind_left
      exact fun result => .ok rfl
    | assigned vector =>
      have hvector : vector ∈ known := hreads vector List.mem_cons_self
      simp only [Command.renamed, effect, operand]
      apply Alike.bind
      · apply Alike.bind (vector_renamed h hvector)
        rintro p _ rfl
        exact Alike.refl _
      · rintro values _ rfl
        apply Alike.bind_left
        exact fun result => .ok rfl
  | arithmetic name operation left right =>
    have hleft : left ∈ known := hreads left (by simp [Command.reads])
    have hright : right ∈ known := hreads right (by simp [Command.reads])
    simp only [Command.renamed, effect]
    apply Alike.bind (vector_renamed h hleft)
    rintro xs _ rfl
    apply Alike.bind (vector_renamed h hright)
    rintro ys _ rfl
    apply Alike.bind_left
    exact fun zs => .ok rfl
  | print names =>
    simp only [Command.renamed, effect]
    apply Alike.bind (Alike.mapM fun name hname => printable_renamed h (hreads name hname))
    rintro args _ rfl
    apply Alike.bind_left
    exact fun text => .ok rfl

/-- A command that assigns nothing leaves the sessions in step. -/
theorem renamed_after_of_none (h : Renamed fresh used current known s t) {e : Effect}
    (hnone : e.target? = none) (target : String) :
    Renamed fresh used current known (s.after e) (t.after (e.retargeted target)) := by
  cases e with
  | nothing | output => exact h
  | grow table =>
    refine ⟨congrArg (Catalog.register · table) h.catalog, ?_, h.bindings, h.used⟩
    show (fun name => if name = table.name then t.generation name + 1 else t.generation name) =
      fun name => if name = table.name then s.generation name + 1 else s.generation name
    rw [h.generation]
  | assign name b => cases hnone

/-- An assignment goes to a name that stands for no variable yet, and this
name stands for its target from then on. -/
theorem renamed_after_assign (hfresh : Function.Injective fresh)
    (h : Renamed fresh used current known s t) (name : String) (b : Binding) :
    Renamed fresh (used + 1) (standing current name (fresh used)) (name :: known)
      (s.after (.assign name b)) (t.after (.assign (fresh used) b)) := by
  refine ⟨h.catalog, h.generation, ?_, ?_⟩
  · intro other hother
    by_cases heq : other = name
    · simp [standing, after, heq]
    · have hknown : other ∈ known := (List.mem_cons.mp hother).resolve_left heq
      obtain ⟨k, hk, hcurrent⟩ := h.used other hknown
      have hne : current other ≠ fresh used := by
        intro hclash
        have hindex : k = used := hfresh (hcurrent.symm.trans hclash)
        omega
      have hold := h.bindings other hknown
      simpa [standing, after, heq, hne] using hold
  · intro other hother
    by_cases heq : other = name
    · exact ⟨used, Nat.lt_succ_self used, if_pos heq⟩
    · have hknown : other ∈ known := (List.mem_cons.mp hother).resolve_left heq
      obtain ⟨k, hk, hcurrent⟩ := h.used other hknown
      refine ⟨k, Nat.lt_succ_of_lt hk, ?_⟩
      unfold standing
      rw [if_neg heq]
      exact hcurrent

end

/-! ### Scripts -/

/-- The commands before the one of index `i` succeed, and that one fails. -/
def FailsAt (s : Session) (cs : List Command) (i : Nat) (fault : Fault) : Prop :=
  ∃ c text last, cs[i]? = some c ∧ s.run (cs.take i) = (.ok text, last) ∧
    last.effect c = .error fault

theorem failsAt_zero {s : Session} {c : Command} {fault : Fault} (h : s.effect c = .error fault)
    (cs : List Command) : s.FailsAt (c :: cs) 0 fault :=
  ⟨c, "", s, rfl, rfl, h⟩

theorem FailsAt.cons {s : Session} {c : Command} {e : Effect} {cs : List Command} {i : Nat}
    {fault : Fault} (he : s.effect c = .ok e) (h : (s.after e).FailsAt cs i fault) :
    s.FailsAt (c :: cs) (i + 1) fault := by
  obtain ⟨d, text, last, hd, hrun, hfault⟩ := h
  refine ⟨d, e.text ++ text, last, ?_, ?_, hfault⟩
  · rw [List.getElem?_cons_succ]
    exact hd
  · rw [List.take_succ_cons, run_cons_ok he, hrun]
    rfl

/-- A script that fails at a command ends in the fault of that command. -/
theorem FailsAt.run {s : Session} {cs : List Command} {i : Nat} {fault : Fault}
    (h : s.FailsAt cs i fault) : (s.run cs).1 = .error fault := by
  obtain ⟨c, text, last, hc, hrun, hfault⟩ := h
  obtain ⟨hi, hget⟩ := List.getElem?_eq_some_iff.mp hc
  have hparts : cs = cs.take i ++ c :: cs.drop (i + 1) := by
    rw [← hget, List.getElem_cons_drop, List.take_append_drop]
  rw [hparts, run_append hrun, run_cons_error hfault]
  rfl

/-- Two scripts end alike in two sessions: both print the same and leave the
same tables, or both fail at the same command with the same fault but for the
name of a variable. -/
def EndAlike (s t : Session) (cs ds : List Command) : Prop :=
  (∃ text last last', s.run cs = (.ok text, last) ∧ t.run ds = (.ok text, last') ∧
    last'.catalog = last.catalog) ∨
  ∃ i f g, s.FailsAt cs i f ∧ t.FailsAt ds i g ∧ f.nameless = g.nameless

/-- Commands that have the same effect, but for the target, go before. -/
theorem EndAlike.cons {s t : Session} {c d : Command} {e : Effect} {target : String}
    {cs ds : List Command} (hs : s.effect c = .ok e) (ht : t.effect d = .ok (e.retargeted target))
    (h : EndAlike (s.after e) (t.after (e.retargeted target)) cs ds) :
    EndAlike s t (c :: cs) (d :: ds) := by
  rcases h with ⟨text, last, last', hrun, hrun', hlast⟩ | ⟨i, f, g, hf, hg, hfault⟩
  · left
    refine ⟨e.text ++ text, last, last', ?_, ?_, hlast⟩
    · rw [run_cons_ok hs, hrun]
      rfl
    · rw [run_cons_ok ht, hrun', Effect.text_retargeted]
      rfl
  · right
    exact ⟨i + 1, f, g, hf.cons hs, hg.cons ht, hfault⟩

theorem endAlike_assignedOnceFrom {fresh : Nat → String} (hfresh : Function.Injective fresh)
    (cs : List Command) :
    ∀ {used : Nat} {current : String → String} {known : List String} {s t : Session},
      Renamed fresh used current known s t → Command.ReadsWithin known cs →
      EndAlike s t cs (assignedOnceFrom fresh used current cs) := by
  induction cs with
  | nil =>
    intro used current known s t h _
    left
    exact ⟨"", s, t, rfl, rfl, h.catalog⟩
  | cons c cs ih =>
    intro used current known s t h hreads
    have heffect := effect_renamed h hreads.1 (fresh used)
    unfold assignedOnceFrom
    generalize hd : c.renamed current (fresh used) = d at heffect
    cases hs : s.effect c with
    | error fault =>
      rw [hs] at heffect
      cases hfault : t.effect d with
      | ok e => rw [hfault] at heffect; cases heffect
      | error g =>
        rw [hfault] at heffect
        cases heffect with
        | error hsame =>
          right
          exact ⟨0, fault, g, failsAt_zero hs _, failsAt_zero hfault _, hsame⟩
    | ok e =>
      rw [hs] at heffect
      have ht : t.effect d = .ok (e.retargeted (fresh used)) := by
        generalize t.effect d = y at heffect
        cases heffect with
        | ok hsame => rw [hsame]
      have htarget := target?_effect (performs_of_effect hs)
      have hrest := hreads.2
      cases hc : c.target? with
      | none =>
        rw [hc] at htarget hrest
        have hstep := renamed_after_of_none h htarget (fresh used)
        exact (ih hstep hrest).cons hs ht
      | some name =>
        rw [hc] at hrest
        obtain ⟨b, rfl⟩ := exists_assign (performs_of_effect hs) hc
        have hstep := renamed_after_assign hfresh h name b
        exact (ih hstep hrest).cons hs ht

/-- **A variable can be assigned again.** With a new variable for every
assignment and every read turned into one of the latest, a self-contained
script ends alike on the same tables: it prints the same and leaves the same
tables, or it fails at the same command with the same fault but for the name
of a variable. No variable is assigned twice in it. -/
theorem run_assignedOnce {fresh : Nat → String} (hfresh : Function.Injective fresh)
    (catalog : Catalog) {cs : List Command} (hcs : Command.SelfContained cs) :
    ((assignedOnce fresh cs).filterMap Command.target?).Nodup ∧
      ((∃ text last last', (start catalog).run cs = (.ok text, last) ∧
          (start catalog).run (assignedOnce fresh cs) = (.ok text, last') ∧
          last'.catalog = last.catalog) ∨
        ∃ i f g, (start catalog).FailsAt cs i f ∧
          (start catalog).FailsAt (assignedOnce fresh cs) i g ∧
          ((start catalog).run cs).1 = .error f ∧
          ((start catalog).run (assignedOnce fresh cs)).1 = .error g ∧
          f.nameless = g.nameless) := by
  refine ⟨nodup_targets_assignedOnce hfresh cs, ?_⟩
  have halike : EndAlike (start catalog) (start catalog) cs (assignedOnce fresh cs) :=
    endAlike_assignedOnceFrom hfresh cs (renamed_start fresh catalog) hcs
  rcases halike with hruns | ⟨i, f, g, hf, hg, hfault⟩
  · exact .inl hruns
  · exact .inr ⟨i, f, g, hf, hg, hf.run, hg.run, hfault⟩

/-- Names that differ in their length. -/
def tally (n : Nat) : String := String.ofList (List.replicate n 'x')

/-- A selection is overwritten by a vector, and the vector by the sum of its
own doubles. -/
def reusing : List Command :=
  [.select "s" "db.t.a" ⟨.at (.int 2), .unbounded⟩, .fetch "f" "db.t.a" "s",
   .arithmetic "s" .add "f" "f", .arithmetic "f" .add "s" "f", .print ["s"],
   .aggregate "f" .sum (.assigned "f"), .print ["f"]]

/-- With five variables in place of two the same is printed. -/
theorem run_assignedOnce_reusing :
    Function.Injective tally ∧ Command.SelfContained reusing ∧
      ∃ last, (start Scenario.oneColumn).run (assignedOnce tally reusing) =
          (.ok "6\n10\n24\n", last) ∧
        last.catalog = Scenario.oneColumn := by
  have htally : Function.Injective tally := by
    intro m n heq
    have hlength := congrArg String.length heq
    simpa [tally] using hlength
  have hself : Command.SelfContained reusing := by decide
  have hprints : ((start Scenario.oneColumn).run reusing).1 = .ok "6\n10\n24\n" := rfl
  refine ⟨htally, hself, ?_⟩
  rcases (run_assignedOnce htally Scenario.oneColumn hself).2 with
    ⟨text, last, last', hrun, hrun', hlast⟩ | ⟨i, f, g, -, -, hfault, -⟩
  · rw [hrun] at hprints
    cases hprints
    refine ⟨last', hrun', ?_⟩
    have hcatalog : ((start Scenario.oneColumn).run reusing).2.catalog = Scenario.oneColumn := rfl
    rw [hrun] at hcatalog
    exact hlast.trans hcatalog
  · rw [hprints] at hfault
    cases hfault

end Session
end Columnar
