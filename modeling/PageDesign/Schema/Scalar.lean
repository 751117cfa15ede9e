/-
# PageDesign.Schema.Scalar -- reading single values

Values are taken in several forms.  Text has to be text.  A boolean may also be a zero, a one
or one of a few words, an integer may be a boolean, a whole number or digits, and a number
may be an integer, a boolean or digits.  Each reader says which form it cannot use.
-/
import PageDesign.Schema.Check
import PageDesign.Component.Choice
import PageDesign.Json.Parser
import PageDesign.Text.Blank

namespace PageDesign.Schema

/-! ## Text -/

/-- Text. -/
def text : Json → Check String
  | .str s => .ok s
  | _ => .fault .notText

/-- Text or nothing. -/
def optional {α : Type} (read : Json → Check α) : Json → Check (Option α)
  | .null => .ok none
  | v => (read v).map some

/-! ## Booleans -/

/-- Words for no. -/
def noWords : List String := ["0", "off", "f", "false", "n", "no"]

/-- Words for yes. -/
def yesWords : List String := ["1", "on", "t", "true", "y", "yes"]

/-- A word in lower case.  Only the letters of the words above matter. -/
def lowerCase (s : String) : String := String.ofList (s.toList.map Char.toLower)

/-- Whether an integer fits a signed word of 64 bits: it lies between `-2 ^ 63` and
`2 ^ 63`. -/
def fitsSigned (n : Int) : Bool := -9223372036854775808 ≤ n && n < 9223372036854775808

/-- A boolean given as a number. -/
def boolOfInt (n : Int) : Check Bool :=
  if n = 0 then .ok false
  else if n = 1 then .ok true
  else if fitsSigned n then .fault .unclearBool
  else .fault .notBool

/-- A boolean. -/
def bool : Json → Check Bool
  | .bool b => .ok b
  | .int n => boolOfInt n
  | .float x =>
    match x.toInt? with
    | some n => if n = -9223372036854775808 then .fault .notBool else boolOfInt n
    | none => .fault .notBool
  | .str s =>
    let word := lowerCase s
    if noWords.contains word then .ok false
    else if yesWords.contains word then .ok true
    else .fault .unclearBool
  | _ => .fault .notBool

/-! ## Integers -/

/-- The digits of an integer after leading zeros and underscores.  A minus sign may follow the
zeros.  In front of a point one zero stays. -/
def stripLeadingZeros? (last : Char) : List Char → Option (List Char)
  | [] => some [last]
  | c :: cs =>
    if c == '0' || c == '_' then stripLeadingZeros? c cs
    else if c == '-' || c.isDigit then some (c :: cs)
    else if c == '.' then some (last :: c :: cs)
    else none

/-- The digits of an integer without leading zeros.  Only a zero may be stripped first. -/
def significantDigits? : List Char → Option (List Char)
  | [] => none
  | '0' :: cs => stripLeadingZeros? '0' cs
  | c :: cs => if c == '-' || c.isDigit then some (c :: cs) else none

/-- Digits without a fraction of zeros, of which there is at least one. -/
def dropZeroFraction (cs : List Char) : List Char :=
  match cs.dropWhile (· != '.') with
  | '.' :: zero :: rest =>
    if (zero :: rest).all (· == '0') then cs.takeWhile (· != '.') else cs
  | _ => cs

/-- Text without underscores, if each of them stands alone and inside. -/
def dropUnderscores? (cs : List Char) : Option (List Char) :=
  let alone : Bool := (cs.zip (cs.drop 1)).all fun (a, b) => !(a == '_' && b == '_')
  if alone && cs.head? != some '_' && cs.getLast? != some '_' then
    some (cs.filter (· != '_'))
  else none

/-- A text without its sign, and whether it was a minus. -/
def splitSign : List Char → Bool × List Char
  | '+' :: rest => (false, rest)
  | '-' :: rest => (true, rest)
  | rest => (false, rest)

/-- What a text says about an integer. -/
inductive IntText where
  | value (n : Int)
  | tooLong
  | unclear
  deriving DecidableEq, Repr

/-- The most digits of an integer in a text. -/
def maxDigits : Nat := 4300

/-- The integer written by digits without a leading zero, after at most one minus sign. -/
def plainInt (cs : List Char) : IntText :=
  let (negative, cs) := match cs with
    | '-' :: rest => (true, rest)
    | rest => (false, rest)
  let (ds, rest) := Json.spanDigits cs
  if ds.head? == some '0' then
    if ds.length = 1 ∧ rest.isEmpty then .value 0 else .unclear
  else if maxDigits < ds.length then .tooLong
  else if ds.isEmpty || !rest.isEmpty then .unclear
  else
    let n : Int := Json.natOfDigits ds
    .value (if negative then -n else n)

/-- A text as digits without leading zeros and underscores, after at most one minus sign.  The
text may have blanks around it and a plus sign in front, leading zeros, single underscores
between digits, and a fraction of zeros. -/
def cleanDigits? (s : String) : Option (List Char) := do
  let cs := Text.trimList Text.isWhiteSpace s.toList
  if cs.take 2 == ['+', '-'] then none
  else
    let (negative, cs) := splitSign cs
    let ds ← dropUnderscores? (dropZeroFraction (← significantDigits? cs))
    return if negative then '-' :: ds else ds

/-- The integer that a text spells, as it stands or cleaned.  Only a text that is too long as it
stands counts as too long. -/
def readIntText (s : String) : IntText :=
  match plainInt s.toList, cleanDigits? s with
  | .unclear, some ds =>
    match plainInt ds with
    | .tooLong => .unclear
    | found => found
  | found, _ => found

/-- An integer. -/
def int : Json → Check Int
  | .bool b => .ok (if b then 1 else 0)
  | .int n => .ok n
  | .float x =>
    if !x.isFinite then .fault .notFinite
    else
      match x.toInt? with
      | none => .fault .fractionalInt
      | some n =>
        if fitsSigned n && n != -9223372036854775808 then .ok n else .fault .longInt
  | .str s =>
    match readIntText s with
    | .value n => .ok n
    | .tooLong => .fault .longInt
    | .unclear => .fault .unclearInt
  | _ => .fault .notInt

/-- An integer that is at least some bound. -/
def intFrom (least : Nat) (v : Json) : Check Int :=
  (int v).guard (fun n => (least : Int) ≤ n) (.below least)

/-- An integer above some bound. -/
def intAbove (bound : Nat) (v : Json) : Check Int :=
  (int v).guard (fun n => (bound : Int) < n) (.notAbove bound)

/-! ## Numbers -/

/-- Digits of a fraction and whether there was a point. -/
def splitFraction : List Char → List Char × Bool × List Char
  | '.' :: rest => ((Json.spanDigits rest).1, true, (Json.spanDigits rest).2)
  | rest => ([], false, rest)

/-- The number that plain digits spell: digits on at least one side of a point, and perhaps
an exponent. -/
def digitsNumber? (negative : Bool) (cs : List Char) : Option Binary64 := do
  let (whole, rest) := Json.spanDigits cs
  let (fraction, _, rest) := splitFraction rest
  let (exponent, rest) ← Json.readExponent rest
  if !rest.isEmpty || (whole.isEmpty && fraction.isEmpty) then none
  else
    return Binary64.ofDecimal negative (Json.natOfDigits (whole ++ fraction))
      (exponent.getD 0 - fraction.length)

/-- The number that a text without blanks spells. -/
def plainNumber? (cs : List Char) : Option Binary64 :=
  let (negative, cs) := splitSign cs
  let word := String.ofList (cs.map Char.toLower)
  if word = "inf" ∨ word = "infinity" then some (.infinite negative)
  else if word = "nan" then some .nan
  else digitsNumber? negative cs

/-- The number that a text spells.  Blanks may surround a number without underscores. -/
def numberOfText? (s : String) : Option Binary64 :=
  match plainNumber? (Text.trimList Text.isWhiteSpace s.toList) with
  | some x => some x
  | none =>
    if s.toList.contains '_' then (dropUnderscores? s.toList).bind plainNumber? else none

/-- A number. -/
def number : Json → Check Binary64
  | .bool b => .ok (Binary64.ofInt (if b then 1 else 0))
  | .int n =>
    let x := Binary64.ofInt n
    if x.isFinite then .ok x else .fault .notNumber
  | .float x => .ok x
  | .str s =>
    match numberOfText? s with
    | some x => .ok x
    | none => .fault .unclearNumber
  | _ => .fault .notNumber

/-- A number that is at least zero.  What is not a number is not. -/
def numberFromZero (v : Json) : Check Binary64 := (number v).guard Binary64.isNonneg (.below 0)

/-! ## Choices -/

/-- The value of a choice, by its name. -/
def choice (α : Type) [Choice α] : Json → Check α
  | .str s =>
    match Choice.ofName? s with
    | some a => .ok a
    | none => .fault (.notOneOf ((Choice.all : List α).map Choice.name))
  | _ => .fault (.notOneOf ((Choice.all : List α).map Choice.name))

/-- A text that has to be one in particular. -/
def exactly (name : String) : Json → Check Unit
  | .str s => if s = name then .ok () else .fault (.notExactly name)
  | _ => .fault (.notExactly name)

end PageDesign.Schema
