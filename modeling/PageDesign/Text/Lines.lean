/-
# PageDesign.Text.Lines -- lines and words

A text falls into lines at every line boundary, of which there are eleven, and into words at
blanks.
-/
import PageDesign.Text.Blank

namespace PageDesign.Text

/-! ## Lines -/

/-- The characters that end a line.  A carriage return and a line feed together end one. -/
def isLineEnd (c : Char) : Bool :=
  let n := c.toNat
  (0x0A ≤ n && n ≤ 0x0D) || (0x1C ≤ n && n ≤ 0x1E) || n == 0x85 || n == 0x2028 || n == 0x2029

/-- The lines of a text.  A text that ends with a line end has no empty line after it. -/
def linesList : List Char → List (List Char)
  | [] => []
  | '\r' :: '\n' :: cs => [] :: linesList cs
  | c :: cs =>
    if isLineEnd c then [] :: linesList cs
    else
      match linesList cs with
      | [] => [[c]]
      | line :: lines => (c :: line) :: lines

/-- The lines of a text, without their ends. -/
def lines (s : String) : List String := (linesList s.toList).map String.ofList

/-- Every line end that is a carriage return, or begins with one, as a line feed. -/
def unifyLineEnds : List Char → List Char
  | '\r' :: '\n' :: cs => '\n' :: unifyLineEnds cs
  | '\r' :: cs => '\n' :: unifyLineEnds cs
  | c :: cs => c :: unifyLineEnds cs
  | [] => []

/-! ## Words -/

/-- The words of a text, the first of which begins with `word`. -/
def wordsFrom (word : List Char) : List Char → List (List Char)
  | [] => if word.isEmpty then [] else [word]
  | c :: cs =>
    if isBlank c then
      if word.isEmpty then wordsFrom [] cs else word :: wordsFrom [] cs
    else wordsFrom (word ++ [c]) cs

/-- A text with one space between its words and no other blank. -/
def oneLine (s : String) : String :=
  " ".intercalate ((wordsFrom [] s.toList).map String.ofList)

end PageDesign.Text
