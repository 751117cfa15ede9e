/-
# PageDesign.Text.Blank -- blank characters and trimming

Two sets of blank characters are in use.  `isWhiteSpace` is the Unicode property
White_Space; numbers written as text are trimmed by it.  `isBlank` has the four information
separators U+001C to U+001F besides; labels, names and option lists are trimmed by it.
-/

namespace PageDesign.Text

/-! ## Character classes -/

/-- The Unicode property White_Space, 25 characters. -/
def isWhiteSpace (c : Char) : Bool :=
  let n := c.toNat
  (0x09 ≤ n && n ≤ 0x0D) || n == 0x20 || n == 0x85 || n == 0xA0 || n == 0x1680 ||
    (0x2000 ≤ n && n ≤ 0x200A) || n == 0x2028 || n == 0x2029 || n == 0x202F ||
    n == 0x205F || n == 0x3000

/-- White space and the information separators, 29 characters. -/
def isBlank (c : Char) : Bool :=
  isWhiteSpace c || (0x1C ≤ c.toNat && c.toNat ≤ 0x1F)

/-! ## Trimming -/

/-- A list without the members of a class at its end. -/
def dropEndWhile (p : Char → Bool) (cs : List Char) : List Char :=
  (cs.reverse.dropWhile p).reverse

/-- A list without the members of a class at either end. -/
def trimList (p : Char → Bool) (cs : List Char) : List Char :=
  dropEndWhile p (cs.dropWhile p)

/-- Text without blanks at either end. -/
def trim (s : String) : String := String.ofList (trimList isBlank s.toList)

/-- Whether text holds nothing but blanks. -/
def isBlankText (s : String) : Bool := s.toList.all isBlank

end PageDesign.Text
