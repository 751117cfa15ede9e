/-
# PageDesign.Text.Terminal -- control sequences of a terminal

Texts may hold sequences that color or move what a terminal shows.  They are an escape
character, a bracket, parameters and a letter, and are left out of what is printed.
-/

namespace PageDesign.Text

/-- Characters that stand in a control sequence before its letter. -/
def isParameter (c : Char) : Bool := c.isDigit || c == ';' || c == '?'

/-- The text after the control sequence in front, if there is one. -/
def skipSequence? : List Char → Option (List Char)
  | '\x1b' :: '[' :: cs =>
    match cs.dropWhile isParameter with
    | c :: rest => if c.isAlpha then some rest else none
    | [] => none
  | _ => none

/-- A text without its control sequences, where `fuel` bounds the number of steps. -/
def dropSequences : Nat → List Char → List Char
  | 0, cs => cs
  | _, [] => []
  | fuel + 1, c :: cs =>
    match skipSequence? (c :: cs) with
    | some rest => dropSequences fuel rest
    | none => c :: dropSequences fuel cs

/-- A text as it is printed, without control sequences. -/
def printed (s : String) : String := String.ofList (dropSequences s.length s.toList)

end PageDesign.Text
