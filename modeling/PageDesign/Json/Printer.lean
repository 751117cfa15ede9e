/-
# PageDesign.Json.Printer -- writing JSON

`render` writes a value in a given `Style`.  Two families of styles are used.  The `tight`
one writes no blanks on a single line and spells infinities and what is not a number as
`null`.  The `spaced` one puts a blank after separators, writes exponents with two digits and
spells those values out.  `dump` chooses between them: the tight family serves one line and
two columns of indentation, as long as every integer fits a word of 64 bits and the brackets
are not nested too deeply.

Text keeps every character but the two that need it, the quote and the backslash, and the
control characters.
-/
import PageDesign.Json.Basic
import PageDesign.Number.Notation
import PageDesign.Text.Hex

namespace PageDesign.Json

/-! ## Styles -/

/-- The decisions of a written form. -/
structure Style where
  /-- Items stand on lines of their own, indented by this many blanks a level. -/
  lines : Option Nat
  /-- What separates items. -/
  item : String
  /-- What separates a key from its value. -/
  key : String
  /-- How finite numbers are written. -/
  floats : Notation.Style
  /-- What is not a number. -/
  notNumber : String
  /-- Positive infinity. -/
  infinity : String
  /-- Negative infinity. -/
  negInfinity : String

/-- The tight family: on one line without blanks, or over lines. -/
def tight (lines : Option Nat) : Style where
  lines := lines
  item := ","
  key := if lines.isSome then ": " else ":"
  floats := ⟨-5, 16, true, 1⟩
  notNumber := "null"
  infinity := "null"
  negInfinity := "null"

/-- The spaced family: on one line with blanks after separators, or over lines. -/
def spaced (lines : Option Nat) : Style where
  lines := lines
  item := if lines.isSome then "," else ", "
  key := ": "
  floats := ⟨-4, 16, true, 2⟩
  notNumber := "NaN"
  infinity := "Infinity"
  negInfinity := "-Infinity"

/-! ## Text -/

/-- The written form of one character of a text. -/
def escapeChar (c : Char) : List Char :=
  if c = '\x22' then ['\\', '\x22']
  else if c = '\\' then ['\\', '\\']
  else if c = '\n' then ['\\', 'n']
  else if c = '\r' then ['\\', 'r']
  else if c = '\t' then ['\\', 't']
  else if c.toNat = 8 then ['\\', 'b']
  else if c.toNat = 12 then ['\\', 'f']
  else if c.toNat < 32 then
    '\\' :: 'u' :: Text.hexDigits 4 c.toNat
  else [c]

/-- A text between quotes. -/
def quote (s : String) : String :=
  "\"" ++ String.ofList (s.toList.flatMap escapeChar) ++ "\""

/-! ## Values -/

/-- A double precision number. -/
def renderFloat (st : Style) : Binary64 → String
  | .finite negative c => Notation.shortest st.floats negative c.val
  | .infinite negative => if negative then st.negInfinity else st.infinity
  | .nan => st.notNumber

/-- The line break before an item at some depth, if items stand on lines of their own. -/
def Style.lineBreak (st : Style) (depth : Nat) : String :=
  match st.lines with
  | none => ""
  | some width => "\n" ++ String.ofList (List.replicate (width * depth) ' ')

mutual

/-- A value in a style, inside `depth` brackets. -/
def render (st : Style) (depth : Nat) : Json → String
  | null => "null"
  | bool b => if b then "true" else "false"
  | int n => Notation.integer n
  | float x => renderFloat st x
  | str s => quote s
  | arr [] => "[]"
  | arr (v :: vs) =>
    "[" ++ st.lineBreak (depth + 1) ++ render st (depth + 1) v ++
      renderItems st (depth + 1) vs ++ st.lineBreak depth ++ "]"
  | obj [] => "\x7b\x7d"
  | obj ((k, v) :: ms) =>
    "\x7b" ++ st.lineBreak (depth + 1) ++ quote k ++ st.key ++ render st (depth + 1) v ++
      renderMembers st (depth + 1) ms ++ st.lineBreak depth ++ "\x7d"

/-- The items after the first, each with the separator before it. -/
def renderItems (st : Style) (depth : Nat) : List Json → String
  | [] => ""
  | v :: vs => st.item ++ st.lineBreak depth ++ render st depth v ++ renderItems st depth vs

/-- The members after the first, each with the separator before it. -/
def renderMembers (st : Style) (depth : Nat) : List (String × Json) → String
  | [] => ""
  | (k, v) :: ms =>
    st.item ++ st.lineBreak depth ++ quote k ++ st.key ++ render st depth v ++
      renderMembers st depth ms

end

/-- The depth of nesting that the tight family does not reach. -/
def tightDepth : Nat := 255

/-- Whether the tight family can write a value. -/
def fitsTight (v : Json) : Bool := v.allFit && v.depth < tightDepth

/-- The style for a value at some indentation. -/
def styleFor (v : Json) (indent : Int) : Style :=
  if indent = 0 then if v.fitsTight then tight none else spaced none
  else if indent = 2 then if v.fitsTight then tight (some 2) else spaced (some 2)
  else spaced (some indent.toNat)

/-- A value as text.  No indentation means one line. -/
def dump (v : Json) (indent : Int := 0) : String := render (styleFor v indent) 0 v

end PageDesign.Json
