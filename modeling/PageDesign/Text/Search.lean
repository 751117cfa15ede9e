/-
# PageDesign.Text.Search -- looking for a piece of text

Texts are searched from the left, as lists of characters.
-/

namespace PageDesign.Text

/-- The text before and after the first occurrence of a piece. -/
def splitAtFirst? (piece : List Char) : List Char → Option (List Char × List Char)
  | [] => if piece.isEmpty then some ([], []) else none
  | c :: cs =>
    if piece.isPrefixOf (c :: cs) then some ([], (c :: cs).drop piece.length)
    else (splitAtFirst? piece cs).map fun (before, after) => (c :: before, after)

/-- The pieces of a text between occurrences of a character. -/
def splitAtEach (sep : Char) : List Char → List (List Char)
  | [] => [[]]
  | c :: cs =>
    match splitAtEach sep cs with
    | [] => []
    | piece :: pieces => if c = sep then [] :: piece :: pieces else (c :: piece) :: pieces

theorem splitAtEach_ne_nil (sep : Char) (cs : List Char) : splitAtEach sep cs ≠ [] := by
  induction cs with
  | nil => simp [splitAtEach]
  | cons c cs ih =>
    unfold splitAtEach
    split
    · contradiction
    · split <;> simp

/-- Whether a piece occurs in a text. -/
def occurs (piece cs : List Char) : Bool := (splitAtFirst? piece cs).isSome

end PageDesign.Text
