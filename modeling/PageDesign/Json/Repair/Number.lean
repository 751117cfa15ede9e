/-
# PageDesign.Json.Repair.Number -- damaged numbers

A run of characters that looks like a number is read as one where it spells one.  Leading
zeros are forgiven and underscores left out; everything else is text.
-/
import PageDesign.Json.Repair.Text

namespace PageDesign.Json.Repair

/-- Characters that a number may be mistaken to have. -/
def isNumberChar (c : Char) : Bool :=
  c.isDigit || ['-', '.', 'e', 'E', '/', ',', '_'].contains c

/-- The characters in front that a number may be mistaken to have, where `comma` tells that a
comma is one of them.  A plus sign counts only behind the letter of an exponent, which
`exponent` tells. -/
def numberRun (comma : Bool) : Bool → List Char → List Char
  | _, [] => []
  | exponent, c :: cs =>
    if (c == '+' && exponent) || (isNumberChar c && (comma || c != ',')) then
      c :: numberRun comma (c == 'e' || c == 'E') cs
    else []

/-- The number that a word spells. -/
def numberOf? (word : List Char) : Option Json := do
  let (negative, cs) := match word with
    | '-' :: rest => (true, rest)
    | rest => (false, rest)
  let (whole, rest) := spanDigits cs
  let (fraction, point, rest) := match rest with
    | '.' :: rest => ((spanDigits rest).1, true, (spanDigits rest).2)
    | rest => ([], false, rest)
  let (exponent, rest) ← readExponent rest
  if !rest.isEmpty || (whole.isEmpty && fraction.isEmpty) then none
  else if point || exponent.isSome then
    return .float (Binary64.ofDecimal negative (natOfDigits (whole ++ fraction))
      (exponent.getD 0 - fraction.length))
  else if maxIntegerLength < whole.length then none
  else return number negative whole [] none

/-- A number at the front.  A word that is no number is text. -/
def readNumber (ctx : Context) (cs : List Char) : Option (Json × List Char) :=
  let found := numberRun (ctx.place != .item) false cs
  let rest := cs.drop found.length
  if (rest.head?.map Text.isLetter).getD false then readQuoted ctx cs
  else
    let word := found.filter (· != '_')
    let (word, rest) :=
      if (word.getLast?.map (['-', 'e', 'E', '/', ','].contains ·)).getD false then
        (word.dropLast, cs.drop (found.length - 1))
      else (word, rest)
    some ((numberOf? word).getD (.str (String.ofList word)), rest)

end PageDesign.Json.Repair
