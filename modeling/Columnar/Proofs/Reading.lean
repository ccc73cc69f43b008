/-
# A script is read back from its text

Fourteen forms of commands share one text. A line says by its first character
whether it is a comment, by what stands before its first parenthesis which
call it is and whether it assigns, and by its commas what the arguments are;
a stored column differs from a variable by its dot. `Script.read` puts this
together, and it gives back the commands of every plain script
(`Script.read_scriptText`): one whose names are free of the characters that
the syntax uses, whose comments and paths are on one line and whose values
are integers. So two plain scripts with one text are one script, and a text
determines what is to be expected of it
(`Script.eq_of_scriptText_eq`).

Key definitions: `Script.IsName`, `Command.Plain`, `Script.readLine`, `Script.read`.
Key theorems: `Script.reads_text`, `Script.read_scriptText`,
`Script.eq_of_scriptText_eq`.
-/
import Columnar.Scenario.Narrow

namespace Columnar

/-! ### Plain scripts -/

namespace Script

/-- The characters that the syntax of scripts uses. No letter, no digit, no
underscore and no dot is among them. -/
def marks : List Char := ['(', ')', ',', '=', '"', '-', '\n']

/-- A name of a database, a table or a column. -/
def IsName (name : String) : Prop := name ≠ "" ∧ ∀ c ∈ name.toList, c ∉ marks

instance (name : String) : Decidable (IsName name) :=
  @instDecidableAnd _ _ inferInstance (List.decidableBAll (fun c => c ∉ marks) name.toList)

/-- A name of a variable. -/
def IsVariable (name : String) : Prop := IsName name ∧ '.' ∉ name.toList

instance (name : String) : Decidable (IsVariable name) := inferInstanceAs (Decidable (_ ∧ _))

/-- A column that is named with its table. -/
def IsReference (name : String) : Prop := IsName name ∧ '.' ∈ name.toList

instance (name : String) : Decidable (IsReference name) := inferInstanceAs (Decidable (_ ∧ _))

/-- A text without a newline. -/
def IsLine (text : String) : Prop := '\n' ∉ text.toList

instance (text : String) : Decidable (IsLine text) := inferInstanceAs (Decidable (¬ _))

end Script

open Script

/-- A missing bound or an integer. -/
def Bound.IsWhole : Bound → Prop
  | .unbounded => True
  | .at v => v.isFloat = false

instance : (b : Bound) → Decidable b.IsWhole
  | .unbounded => inferInstanceAs (Decidable True)
  | .at v => inferInstanceAs (Decidable (v.isFloat = false))

def Range.IsWhole (r : Range) : Prop := r.low.IsWhole ∧ r.high.IsWhole

instance (r : Range) : Decidable r.IsWhole := inferInstanceAs (Decidable (_ ∧ _))

/-- A command whose names, texts and values have their proper form. -/
def Command.Plain : Command → Prop
  | comment text => IsLine text
  | blank => True
  | createDatabase name => IsName name
  | createTable name database _ => IsName name ∧ IsName database
  | createColumn name table => IsName name ∧ IsName table
  | load path => IsLine path
  | insert table row => IsName table ∧ ∀ v ∈ row, v.isFloat = false
  | select target column range => IsVariable target ∧ IsReference column ∧ range.IsWhole
  | selectFrom target positions vector range =>
    IsVariable target ∧ IsVariable positions ∧ IsVariable vector ∧ range.IsWhole
  | fetch target column positions =>
    IsVariable target ∧ IsReference column ∧ IsVariable positions
  | aggregate target _ (.stored column) => IsVariable target ∧ IsReference column
  | aggregate target _ (.assigned name) => IsVariable target ∧ IsVariable name
  | arithmetic target _ left right => IsVariable target ∧ IsVariable left ∧ IsVariable right
  | print names => ∀ name ∈ names, IsVariable name
  | shutdown => True

instance : (c : Command) → Decidable c.Plain
  | .comment text | .load text => inferInstanceAs (Decidable (IsLine text))
  | .blank | .shutdown => inferInstanceAs (Decidable True)
  | .createDatabase name => inferInstanceAs (Decidable (IsName name))
  | .createTable _ _ _ | .createColumn _ _ | .insert _ _ | .select _ _ _ | .selectFrom _ _ _ _
  | .fetch _ _ _ | .arithmetic _ _ _ _ | .aggregate _ _ (.stored _)
  | .aggregate _ _ (.assigned _) => inferInstanceAs (Decidable (_ ∧ _))
  | .print names => inferInstanceAs (Decidable (∀ name ∈ names, IsVariable name))

namespace Script

/-! ### Reading -/

/-- The integer that a text is the decimal text of. -/
def readInt : List Char → Int
  | '-' :: digits => -(Nat.ofDigitChars 10 digits 0 : Int)
  | digits => Nat.ofDigitChars 10 digits 0

def readValue (text : List Char) : Value := .int (Int64.ofInt (readInt text))

def readBound (text : List Char) : Bound :=
  if text = "null".toList then .unbounded else .at (readValue text)

/-- What stands between quotes. -/
def unquoted (text : List Char) : String := String.ofList text.tail.dropLast

/-- A name with a dot is that of a stored column. -/
def readSource (name : List Char) : Source :=
  if '.' ∈ name then .stored (String.ofList name) else .assigned (String.ofList name)

/-- What stands between the commas. -/
def fields (body : List Char) : List (List Char) := if body = [] then [] else body.splitOn ','

/-- A call whose result is not assigned. -/
def readStatement (word : String) (arguments : List (List Char)) : Option Command :=
  match word, arguments with
  | "shutdown", [] => some .shutdown
  | "print", names => some (.print (names.map String.ofList))
  | "relational_insert", table :: row => some (.insert (String.ofList table) (row.map readValue))
  | "create", [_, name] => some (.createDatabase (unquoted name))
  | "create", [_, name, table] => some (.createColumn (unquoted name) (String.ofList table))
  | "create", [_, name, database, columns] =>
    some (.createTable (unquoted name) (String.ofList database) (readInt columns).toNat)
  | _, _ => none

/-- A call whose result is assigned. -/
def readAssignment (target word : String) (arguments : List (List Char)) : Option Command :=
  match word, arguments with
  | "select", [column, low, high] =>
    some (.select target (String.ofList column) ⟨readBound low, readBound high⟩)
  | "select", [positions, vector, low, high] =>
    some (.selectFrom target (String.ofList positions) (String.ofList vector)
      ⟨readBound low, readBound high⟩)
  | "fetch", [column, positions] =>
    some (.fetch target (String.ofList column) (String.ofList positions))
  | "sum", [source] => some (.aggregate target .sum (readSource source))
  | "avg", [source] => some (.aggregate target .average (readSource source))
  | "min", [source] => some (.aggregate target .least (readSource source))
  | "max", [source] => some (.aggregate target .greatest (readSource source))
  | "add", [left, right] =>
    some (.arithmetic target .add (String.ofList left) (String.ofList right))
  | "sub", [left, right] =>
    some (.arithmetic target .subtract (String.ofList left) (String.ofList right))
  | _, _ => none

/-- A call: what stands before the first parenthesis, and what stands between
it and the last character. -/
def readCall (head body : List Char) : Option Command :=
  match (head.splitOn '=').map String.ofList with
  | ["load"] => some (.load (unquoted body))
  | [word] => readStatement word (fields body)
  | [target, word] => readAssignment target word (fields body)
  | _ => none

/-- The command of a line. -/
def readLine (line : List Char) : Option Command :=
  if line = [] then some .blank
  else if line.head? = some '-' then some (.comment (String.ofList (line.drop 3)))
  else readCall (line.takeWhile (· ≠ '(')) (line.dropWhile (· ≠ '(')).tail.dropLast

/-- The commands of a text, of which every line has its newline. -/
def read (text : String) : Option (List Command) :=
  (text.toList.splitOn '\n').dropLast.mapM readLine

/-! ### Numbers and bounds -/

theorem isDigit_of_mem_repr {i : Int} {c : Char} (h : c ∈ i.repr.toList) :
    c = '-' ∨ c.isDigit = true := by
  have hdigits : ∀ {n : Nat}, c ∈ n.repr.toList → c.isDigit = true := by
    intro n hc
    rw [Nat.toList_repr] at hc
    exact Nat.isDigit_of_mem_toDigits (by decide) (by decide) hc
  rw [Int.repr_eq_if] at h
  split at h
  · exact .inr (hdigits h)
  · rw [String.toList_append, List.mem_append] at h
    rcases h with h | h
    · exact .inl (List.mem_singleton.mp h)
    · exact .inr (hdigits h)

theorem readInt_digits (n : Nat) : readInt (Nat.toDigits 10 n) = n := by
  have hdigit : ∀ c ∈ Nat.toDigits 10 n, c.isDigit = true :=
    fun c hc => Nat.isDigit_of_mem_toDigits (by decide) (by decide) hc
  unfold readInt
  split
  · rename_i hdigits
    have hdash := hdigit '-' (hdigits ▸ List.mem_cons_self)
    contradiction
  · rw [Nat.ofDigitChars_ten_toDigits]

theorem readInt_repr (i : Int) : readInt i.repr.toList = i := by
  rw [Int.repr_eq_if]
  split
  · rw [Nat.toList_repr, readInt_digits]
    omega
  · rw [String.toList_append, Nat.toList_repr]
    change -(Nat.ofDigitChars 10 (Nat.toDigits 10 (-i).toNat) 0 : Int) = i
    rw [Nat.ofDigitChars_ten_toDigits]
    omega

theorem readValue_text {v : Value} (h : v.isFloat = false) : readValue v.text.toList = v := by
  cases v with
  | int n => rw [readValue, Value.text, readInt_repr, Int64.ofInt_toInt]
  | float x => cases h

theorem readBound_text {b : Bound} (h : b.IsWhole) : readBound b.text.toList = b := by
  cases b with
  | unbounded => rfl
  | «at» v =>
    have hword : v.text.toList ≠ "null".toList := by
      intro hnull
      cases v with
      | float x => cases h
      | int n =>
        have hn : 'n' ∈ n.toInt.repr.toList := by
          change 'n' ∈ (Value.int n).text.toList
          rw [hnull]
          exact List.mem_cons_self
        rcases isDigit_of_mem_repr hn with hn | hn <;> contradiction
    rw [Bound.text, readBound, if_neg hword, readValue_text h]

/-! ### Names and fields -/

/-- A text that can stand between commas on a line. -/
def IsField (text : String) : Prop := ',' ∉ text.toList ∧ '\n' ∉ text.toList

instance (text : String) : Decidable (IsField text) := inferInstanceAs (Decidable (_ ∧ _))

namespace IsName

variable {name : String} (h : IsName name)

include h

theorem notMem {c : Char} (hc : c ∈ marks) : c ∉ name.toList := fun hmem => h.2 c hmem hc

theorem isField : IsField name := ⟨h.notMem (by decide), h.notMem (by decide)⟩

theorem toList_ne_nil : name.toList ≠ [] := fun hnil => h.1 (String.toList_eq_nil_iff.mp hnil)

end IsName

theorem unquoted_inQuotes (name : String) : unquoted (inQuotes name).toList = name := by
  simp [unquoted, inQuotes]

theorem isField_inQuotes {name : String} (h : IsField name) : IsField (inQuotes name) := by
  obtain ⟨hcomma, hnewline⟩ := h
  constructor <;> simp [inQuotes, hcomma, hnewline]

theorem isField_repr (i : Int) : IsField i.repr := by
  constructor <;> intro hmem <;> rcases isDigit_of_mem_repr hmem with h | h <;> contradiction

theorem isField_natRepr (n : Nat) : IsField n.repr := isField_repr n

theorem isField_value {v : Value} (h : v.isFloat = false) : IsField v.text := by
  cases v with
  | int n => exact isField_repr n.toInt
  | float x => cases h

theorem isField_bound {b : Bound} (h : b.IsWhole) : IsField b.text := by
  cases b with
  | unbounded => exact ⟨by decide, by decide⟩
  | «at» v => exact isField_value h

theorem readSource_stored {column : String} (h : IsReference column) :
    readSource column.toList = .stored column := by
  rw [readSource, if_pos h.2, String.ofList_toList]

theorem readSource_assigned {name : String} (h : IsVariable name) :
    readSource name.toList = .assigned name := by
  rw [readSource, if_neg h.2, String.ofList_toList]

/-! ### Lines -/

/-- A text on one line that is read as the command. -/
structure Reads (text : String) (c : Command) : Prop where
  isLine : IsLine text
  read : readLine text.toList = some c

theorem reads_comment {text : String} (h : IsLine text) :
    Reads (Command.comment text).text (.comment text) := by
  rw [Command.text]
  split
  · rename_i hempty
    rw [hempty]
    exact ⟨by decide, rfl⟩
  · have hline : ("-- " ++ text).toList = '-' :: '-' :: ' ' :: text.toList := by simp
    constructor
    · rw [IsLine] at h
      rw [IsLine, hline]
      simpa using h
    · rw [hline, readLine, if_neg (List.cons_ne_nil _ _), if_pos List.head?_cons]
      simp

theorem toList_call (word : String) (arguments : List String) : (call word arguments).toList =
    word.toList ++ '(' :: ([','].intercalate (arguments.map String.toList) ++ [')']) := by
  simp [call, String.toList_intercalate]

/-- A line with a parenthesis is a call, whatever stands between that and the
last character. -/
theorem readLine_parenthesis {head : List Char} (hparenthesis : '(' ∉ head) (hdash : '-' ∉ head)
    (hne : head ≠ []) (body : List Char) :
    readLine (head ++ '(' :: (body ++ [')'])) = readCall head body := by
  have hall : ∀ c ∈ head, decide (c ≠ '(') = true :=
    fun c hc => decide_eq_true fun hc' => hparenthesis (hc' ▸ hc)
  obtain ⟨c, cs, rfl⟩ := List.exists_cons_of_ne_nil hne
  have hfirst : (c :: cs ++ '(' :: (body ++ [')'])).head? ≠ some '-' := by
    intro hc
    exact hdash (Option.some.inj hc ▸ List.mem_cons_self)
  rw [readLine, if_neg (by simp), if_neg hfirst, List.takeWhile_append_of_pos hall,
    List.dropWhile_append_of_pos hall]
  simp

theorem reads_load {path : String} (h : IsLine path) :
    Reads (Command.load path).text (.load path) := by
  constructor
  · rw [IsLine] at h
    simp [IsLine, Command.text, call, inQuotes, h]
  · rw [Command.text, toList_call, readLine_parenthesis (by decide) (by decide) (by decide)]
    simp [readCall, List.splitOn_eq_singleton, unquoted_inQuotes]

theorem notMem_intercalate {mark separator : Char} (hne : mark ≠ separator) :
    ∀ {texts : List (List Char)}, (∀ text ∈ texts, mark ∉ text) →
      mark ∉ [separator].intercalate texts
  | [], _ => by simp
  | [text], h => by simpa using h text List.mem_cons_self
  | text :: next :: texts, h => by
    obtain ⟨htext, hnext⟩ := List.forall_mem_cons.mp h
    have ih := notMem_intercalate hne hnext
    rw [List.intercalate_cons_cons]
    simp [htext, ih, hne]

section

variable {arguments : List String} (hfields : ∀ a ∈ arguments, IsField a)

include hfields

/-- The arguments are read back from between the commas. -/
theorem fields_intercalate (hfirst : arguments.head? ≠ some "") :
    fields ([','].intercalate (arguments.map String.toList)) = arguments.map String.toList := by
  cases arguments with
  | nil => rfl
  | cons a as =>
    have hbody : [','].intercalate ((a :: as).map String.toList) ≠ [] := by
      have ha : a.toList ≠ [] := fun hnil =>
        hfirst (congrArg some (String.toList_eq_nil_iff.mp hnil))
      cases as with
      | nil => simpa using ha
      | cons b bs => simp [List.intercalate_cons_cons]
    rw [fields, if_neg hbody]
    refine List.splitOn_intercalate ',' (fun f hf => ?_) (by simp)
    obtain ⟨b, hb, rfl⟩ := List.mem_map.mp hf
    exact (hfields b hb).1

variable {word : String} {c : Command} (hword : IsName word)

include hword

theorem isLine_call : IsLine (call word arguments) := by
  have hhead : '\n' ∉ word.toList := hword.notMem (by decide)
  have hbody : '\n' ∉ [','].intercalate (arguments.map String.toList) := by
    refine notMem_intercalate (by decide) fun text htext => ?_
    obtain ⟨a, ha, rfl⟩ := List.mem_map.mp htext
    exact (hfields a ha).2
  rw [IsLine, toList_call]
  simp [hhead, hbody]

variable (hfirst : arguments.head? ≠ some "")

include hfirst

/-- A call that is not assigned is told by its word. -/
theorem reads_call (hload : word ≠ "load")
    (hc : readStatement word (arguments.map String.toList) = some c) :
    Reads (call word arguments) c := by
  refine ⟨isLine_call hfields hword, ?_⟩
  rw [toList_call, readLine_parenthesis (hword.notMem (by decide)) (hword.notMem (by decide))
    hword.toList_ne_nil, readCall, List.splitOn_eq_singleton (hword.notMem (by decide)),
    fields_intercalate hfields hfirst]
  simpa using hc

/-- A call that is assigned is told by what comes after the equals sign. -/
theorem reads_assignment {target : String} (htarget : IsVariable target)
    (hc : readAssignment target word (arguments.map String.toList) = some c) :
    Reads (assignment target (call word arguments)) c := by
  have hline : (assignment target (call word arguments)).toList =
      target.toList ++ '=' :: (call word arguments).toList := by
    simp [assignment]
  have hhead : ∀ mark ∈ marks, mark ≠ '=' → mark ∉ target.toList ++ '=' :: word.toList := by
    intro mark hmark hne
    simp [htarget.1.notMem hmark, hword.notMem hmark, hne]
  constructor
  · have hnewline : '\n' ∉ target.toList := htarget.1.notMem (by decide)
    have hrest : '\n' ∉ (call word arguments).toList := isLine_call hfields hword
    rw [IsLine, hline]
    simp [hnewline, hrest]
  · rw [hline, toList_call, ← List.cons_append, ← List.append_assoc,
      readLine_parenthesis (hhead '(' (by decide) (by decide)) (hhead '-' (by decide) (by decide))
        (by simp), readCall,
      List.splitOn_append_cons_self_of_not_mem (htarget.1.notMem (by decide)),
      List.splitOn_eq_singleton (hword.notMem (by decide)),
      fields_intercalate hfields hfirst]
    simpa using hc

end

/-- **A line is read back.** A plain command stands on one line, and what is
read from that is the command. -/
theorem reads_text {c : Command} (h : c.Plain) : Reads c.text c := by
  cases c with
  | comment text => exact reads_comment h
  | blank => exact ⟨List.not_mem_nil, rfl⟩
  | createDatabase name =>
    have hname : IsName name := h
    have hfields : ∀ a ∈ ["db", inQuotes name], IsField a := by
      have hdb : IsField "db" := by decide
      simp [hdb, isField_inQuotes hname.isField]
    exact reads_call hfields (by decide) (by simp) (by decide)
      (by simp [readStatement, unquoted_inQuotes])
  | createTable name database columns =>
    obtain ⟨hname, hdatabase⟩ := h
    have hfields : ∀ a ∈ ["tbl", inQuotes name, database, columns.repr], IsField a := by
      have htbl : IsField "tbl" := by decide
      simp [htbl, isField_inQuotes hname.isField, hdatabase.isField, isField_natRepr columns]
    exact reads_call hfields (by decide) (by simp) (by decide)
      (by simp [readStatement, unquoted_inQuotes, readInt_digits])
  | createColumn name table =>
    obtain ⟨hname, htable⟩ := h
    have hfields : ∀ a ∈ ["col", inQuotes name, table], IsField a := by
      have hcol : IsField "col" := by decide
      simp [hcol, isField_inQuotes hname.isField, htable.isField]
    exact reads_call hfields (by decide) (by simp) (by decide)
      (by simp [readStatement, unquoted_inQuotes])
  | load path => exact reads_load h
  | insert table row =>
    obtain ⟨htable, hrow⟩ := h
    have hfields : ∀ a ∈ table :: row.map Value.text, IsField a := by
      refine List.forall_mem_cons.mpr ⟨htable.isField, fun a ha => ?_⟩
      obtain ⟨v, hv, rfl⟩ := List.mem_map.mp ha
      exact isField_value (hrow v hv)
    have hvalues : (row.map Value.text).map (readValue ∘ String.toList) = row := by
      rw [List.map_map]
      exact (List.map_congr_left fun v hv => readValue_text (hrow v hv)).trans (List.map_id _)
    refine reads_call hfields (by decide) (by simp [htable.1]) (by decide) ?_
    rw [List.map_cons, readStatement, List.map_map, hvalues, String.ofList_toList]
  | select target column range =>
    obtain ⟨htarget, ⟨hcolumn, -⟩, hlow, hhigh⟩ := h
    have hfields : ∀ a ∈ [column, range.low.text, range.high.text], IsField a := by
      simp [hcolumn.isField, isField_bound hlow, isField_bound hhigh]
    exact reads_assignment hfields (by decide) (by simp [hcolumn.1]) htarget
      (by simp [readAssignment, readBound_text hlow, readBound_text hhigh])
  | selectFrom target positions vector range =>
    obtain ⟨htarget, ⟨hpositions, -⟩, ⟨hvector, -⟩, hlow, hhigh⟩ := h
    have hfields : ∀ a ∈ [positions, vector, range.low.text, range.high.text], IsField a := by
      simp [hpositions.isField, hvector.isField, isField_bound hlow, isField_bound hhigh]
    exact reads_assignment hfields (by decide) (by simp [hpositions.1]) htarget
      (by simp [readAssignment, readBound_text hlow, readBound_text hhigh])
  | fetch target column positions =>
    obtain ⟨htarget, ⟨hcolumn, -⟩, ⟨hpositions, -⟩⟩ := h
    have hfields : ∀ a ∈ [column, positions], IsField a := by
      simp [hcolumn.isField, hpositions.isField]
    exact reads_assignment hfields (by decide) (by simp [hcolumn.1]) htarget
      (by simp [readAssignment])
  | aggregate target function source =>
    have hsource : IsVariable target ∧ IsName source.name ∧
        readSource source.name.toList = source := by
      cases source with
      | stored column => exact ⟨h.1, h.2.1, readSource_stored h.2⟩
      | assigned name => exact ⟨h.1, h.2.1, readSource_assigned h.2⟩
    obtain ⟨htarget, hname, hread⟩ := hsource
    have hfields : ∀ a ∈ [source.name], IsField a := by simp [hname.isField]
    have hword : IsName function.word := by cases function <;> decide
    refine reads_assignment hfields hword (by simp [hname.1]) htarget ?_
    cases function <;> simp [readAssignment, Aggregate.word, hread]
  | arithmetic target operation left right =>
    obtain ⟨htarget, ⟨hleft, -⟩, ⟨hright, -⟩⟩ := h
    have hfields : ∀ a ∈ [left, right], IsField a := by simp [hleft.isField, hright.isField]
    have hword : IsName operation.word := by cases operation <;> decide
    refine reads_assignment hfields hword (by simp [hleft.1]) htarget ?_
    cases operation <;> simp [readAssignment, Arithmetic.word]
  | print names =>
    have hnames : ∀ name ∈ names, IsVariable name := h
    have hfirst : names.head? ≠ some "" := by
      intro hhead
      exact (hnames "" (List.mem_of_mem_head? hhead)).1.1 rfl
    refine reads_call (fun a ha => (hnames a ha).1.isField) (by decide) hfirst (by decide) ?_
    simp [readStatement, Function.comp_def]
  | shutdown => exact ⟨by decide, by decide +kernel⟩

/-! ### Scripts -/

theorem splitOn_unlines : ∀ {lines : List String}, (∀ line ∈ lines, IsLine line) →
    (unlines lines).toList.splitOn '\n' = lines.map String.toList ++ [[]]
  | [], _ => rfl
  | line :: lines, h => by
    obtain ⟨hline, hlines⟩ := List.forall_mem_cons.mp h
    have ih := splitOn_unlines hlines
    rw [toList_unlines] at ih ⊢
    rw [List.flatMap_cons, List.append_assoc, List.singleton_append,
      List.splitOn_append_cons_self_of_not_mem hline, ih]
    rfl

theorem mapM_readLine : ∀ {cs : List Command}, (∀ c ∈ cs, c.Plain) →
    ((cs.map Command.text).map String.toList).mapM readLine = some cs
  | [], _ => rfl
  | c :: cs, h => by
    obtain ⟨hc, hcs⟩ := List.forall_mem_cons.mp h
    rw [List.map_cons, List.map_cons, List.mapM_cons, (reads_text hc).read, mapM_readLine hcs]
    rfl

/-- **A script is read back.** What is read from the text of a plain script is
the script. -/
theorem read_scriptText {cs : List Command} (h : ∀ c ∈ cs, c.Plain) :
    read (scriptText cs) = some cs := by
  have hlines : ∀ line ∈ cs.map Command.text, IsLine line := by
    intro line hline
    obtain ⟨c, hc, rfl⟩ := List.mem_map.mp hline
    exact (reads_text (h c hc)).isLine
  rw [read, scriptText, splitOn_unlines hlines, List.dropLast_concat, mapM_readLine h]

/-- **A text is that of one script.** Plain scripts with the same text are the
same, so there is one output that the text can be paired with. -/
theorem eq_of_scriptText_eq {cs ds : List Command} (hcs : ∀ c ∈ cs, c.Plain)
    (hds : ∀ d ∈ ds, d.Plain) (h : scriptText cs = scriptText ds) :
    cs = ds ∧
      ∀ catalog, ((Session.start catalog).run cs).1 = ((Session.start catalog).run ds).1 := by
  have hread : some cs = some ds := by
    rw [← read_scriptText hcs, ← read_scriptText hds, h]
  obtain rfl := Option.some.inj hread
  exact ⟨rfl, fun _ => rfl⟩

/-- The first query of the narrow table is the only script with its text. -/
theorem eq_of_scriptText_eq_lowQuery :
    (∀ c ∈ Scenario.lowQuery false 1, c.Plain) ∧
      Scenario.lowQuery false 1 =
        [.comment "SELECT col1 FROM tbl1 WHERE col1 < 20;",
         .select "s1" "db1.tbl1.col1" ⟨.unbounded, .at (.int 20)⟩,
         .fetch "f1" "db1.tbl1.col1" "s1",
         .print ["f1"]] := by
  have hplain : ∀ c ∈ Scenario.lowQuery false 1, c.Plain := by decide +kernel
  have hread : ∀ c ∈ ([.comment "SELECT col1 FROM tbl1 WHERE col1 < 20;",
      .select "s1" "db1.tbl1.col1" ⟨.unbounded, .at (.int 20)⟩,
      .fetch "f1" "db1.tbl1.col1" "s1", .print ["f1"]] : List Command), c.Plain := by
    decide +kernel
  exact ⟨hplain, (eq_of_scriptText_eq hplain hread (by decide +kernel)).1⟩

/-- Only the dot tells a stored column from a variable. -/
example : scriptText [.aggregate "a" .sum (.stored "x")] =
    scriptText [.aggregate "a" .sum (.assigned "x")] := rfl

end Script
end Columnar
