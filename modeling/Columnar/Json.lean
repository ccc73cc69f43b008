/-
# JSON documents as text

A document is written over several lines: an item or member to a line, two
spaces deeper than what holds it, and nothing between the brackets of an
empty list. In a text only the quote, the backslash and the control
characters below the blank are escaped, the frequent ones by a letter.

Key definitions: `Json`, `Json.pretty`, `quoted`.
Key theorems: `escape_of_ordinary`.
-/

namespace Columnar

/-- A document; the members of an object are in the order they are written. -/
inductive Json where
  | null
  | number (i : Int)
  | text (s : String)
  | array (items : List Json)
  | object (members : List (String × Json))

/-- The two hexadecimal digits of a number below 256. -/
def hexByte (n : Nat) : String := String.ofList [(n / 16).digitChar, (n % 16).digitChar]

/-- A character as it is written in a text. -/
def escape (c : Char) : String :=
  match c with
  | '"' => "\\\""
  | '\\' => "\\\\"
  | '\n' => "\\n"
  | '\r' => "\\r"
  | '\t' => "\\t"
  | '\x08' => "\\b"
  | '\x0c' => "\\f"
  | c => if c.toNat < 32 then "\\u00" ++ hexByte c.toNat else String.singleton c

/-- A text between quotes. -/
def quoted (s : String) : String := "\"" ++ String.join (s.toList.map escape) ++ "\""

/-- Every character from the blank on stands for itself, but for two. -/
theorem escape_of_ordinary {c : Char} (h₁ : c ≠ '"') (h₂ : c ≠ '\\') (h₃ : 32 ≤ c.toNat) :
    escape c = String.singleton c := by
  unfold escape
  split
  case h_1 => exact absurd rfl h₁
  case h_2 => exact absurd rfl h₂
  case h_8 => rw [if_neg (by omega)]
  all_goals exact absurd h₃ (by decide)

/-- The entries of a list or an object between its brackets, one to a line. -/
def bracketed (depth : Nat) (opening closing : String) (entries : List String) : String :=
  let margin := String.ofList (List.replicate (2 * depth) ' ')
  if entries.isEmpty then opening ++ closing
  else
    opening ++ "\n" ++ ",\n".intercalate (entries.map fun e => margin ++ "  " ++ e) ++ "\n" ++
      margin ++ closing

namespace Json

mutual

/-- The text of a document that begins at the given depth. -/
def render (depth : Nat) : Json → String
  | null => "null"
  | number i => i.repr
  | text s => quoted s
  | array items => bracketed depth "[" "]" (renderItems (depth + 1) items)
  | object members => bracketed depth "\x7b" "\x7d" (renderMembers (depth + 1) members)

def renderItems (depth : Nat) : List Json → List String
  | [] => []
  | j :: js => render depth j :: renderItems depth js

def renderMembers (depth : Nat) : List (String × Json) → List String
  | [] => []
  | (key, j) :: rest => (quoted key ++ ": " ++ render depth j) :: renderMembers depth rest

end

/-- The text of a whole document. -/
def pretty (j : Json) : String := j.render 0

end Json
end Columnar
