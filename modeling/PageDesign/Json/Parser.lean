/-
# PageDesign.Json.Parser -- reading JSON

`parse` reads a whole text as one value.  Nothing is forgiven: white space is the four
characters of the format, numbers have no leading zeros, control characters must be escaped.
A repeated key keeps its first place and its last value, and `-0` without a fraction is the
integer zero.

In the `strict` dialect a number past the largest finite magnitude is refused.  The `loose`
one reads it as an infinity, and knows the names `NaN`, `Infinity` and `-Infinity`.

The readers follow the grammar and return the value as it is written with what is left of the
text; `accept` then keeps the limits of the dialect.  The fuel bounds the nesting of calls and is
chosen from the length of the text, so that it never runs out before the text does.
-/
import PageDesign.Json.Basic

namespace PageDesign.Json

/-- What a reader accepts. -/
inductive Dialect where
  | strict
  | loose
  deriving DecidableEq, Repr

/-! ## White space -/

/-- The white space of the format. -/
def isGap (c : Char) : Bool := c == ' ' || c == '\n' || c == '\r' || c == '\t'

/-- Text without white space in front. -/
def skipGap (cs : List Char) : List Char := cs.dropWhile isGap

/-! ## Text -/

/-- The value of a digit of base 16, in either case. -/
def hexValue? (c : Char) : Option Nat :=
  let n := c.toNat
  if 48 ≤ n && n ≤ 57 then some (n - 48)
  else if 97 ≤ n && n ≤ 102 then some (n - 87)
  else if 65 ≤ n && n ≤ 70 then some (n - 55)
  else none

/-- The value of four digits of base 16. -/
def hexUnit? (a b c d : Char) : Option Nat := do
  return (((← hexValue? a) * 16 + (← hexValue? b)) * 16 + (← hexValue? c)) * 16 + (← hexValue? d)

/-- What a single character after a backslash stands for. -/
def unescape? (c : Char) : Option Char :=
  if c = '\x22' then some '\x22'
  else if c = '\\' then some '\\'
  else if c = '/' then some '/'
  else if c = 'n' then some '\n'
  else if c = 'r' then some '\r'
  else if c = 't' then some '\t'
  else if c = 'b' then some (Char.ofNat 8)
  else if c = 'f' then some (Char.ofNat 12)
  else none

/-- A text up to its closing quote.  Characters beyond the basic plane may be written as two
surrogates; a surrogate on its own is refused. -/
def readText : List Char → Option (List Char × List Char)
  | [] => none
  | '\\' :: e :: rest =>
    match unescape? e with
    | some c => (readText rest).map fun (cs, left) => (c :: cs, left)
    | none =>
      if e = 'u' then
        match rest with
        | a :: b :: c :: d :: rest =>
          match hexUnit? a b c d with
          | none => none
          | some n =>
            if 0xD800 ≤ n ∧ n < 0xDC00 then
              match rest with
              | '\\' :: 'u' :: a :: b :: c :: d :: rest =>
                match hexUnit? a b c d with
                | none => none
                | some m =>
                  if 0xDC00 ≤ m ∧ m < 0xE000 then
                    (readText rest).map fun (cs, left) =>
                      (Char.ofNat (0x10000 + (n - 0xD800) * 0x400 + (m - 0xDC00)) :: cs, left)
                  else none
              | _ => none
            else if 0xDC00 ≤ n ∧ n < 0xE000 then none
            else (readText rest).map fun (cs, left) => (Char.ofNat n :: cs, left)
        | _ => none
      else none
  | c :: rest =>
    if c = '\x22' then some ([], rest)
    else if c = '\\' ∨ c.toNat < 32 then none
    else (readText rest).map fun (cs, left) => (c :: cs, left)

/-! ## Numbers -/

/-- The natural written by decimal digits. -/
def natOfDigits (ds : List Char) : Nat := ds.foldl (fun n c => n * 10 + (c.toNat - 48)) 0

/-- The digits in front of a text, and the rest. -/
def spanDigits (cs : List Char) : List Char × List Char :=
  (cs.takeWhile Char.isDigit, cs.dropWhile Char.isDigit)

/-- The digits after a point, none when there is no point. -/
def readFraction : List Char → Option (List Char × List Char)
  | '.' :: rest =>
    let (ds, left) := spanDigits rest
    if ds.isEmpty then none else some (ds, left)
  | cs => some ([], cs)

/-- The digits of an exponent with its sign. -/
def readSignedDigits : List Char → Option (Int × List Char)
  | cs =>
    let (negative, cs) := match cs with
      | '+' :: rest => (false, rest)
      | '-' :: rest => (true, rest)
      | rest => (false, rest)
    let (ds, left) := spanDigits cs
    if ds.isEmpty then none
    else
      let n : Int := natOfDigits ds
      some (if negative then -n else n, left)

/-- An exponent, if there is one. -/
def readExponent : List Char → Option (Option Int × List Char)
  | c :: rest =>
    if c = 'e' ∨ c = 'E' then
      (readSignedDigits rest).map fun (n, left) => (some n, left)
    else some (none, c :: rest)
  | [] => some (none, [])

/-- The number with the given sign, digits and exponent.  Without a fraction and an exponent
it is an integer. -/
def number (negative : Bool) (whole fraction : List Char) (exponent : Option Int) : Json :=
  if fraction.isEmpty ∧ exponent.isNone then
    let n : Int := natOfDigits whole
    int (if negative then -n else n)
  else
    float (Binary64.ofDecimal negative (natOfDigits (whole ++ fraction))
      (exponent.getD 0 - fraction.length))

/-- A number after its sign. -/
def readMagnitude (negative : Bool) (cs : List Char) : Option (Json × List Char) := do
  let (whole, rest) := spanDigits cs
  if whole.isEmpty ∨ (whole.head? = some '0' ∧ whole.length ≠ 1) then none
  let (fraction, rest) ← readFraction rest
  let (exponent, rest) ← readExponent rest
  return (number negative whole fraction exponent, rest)

/-- What follows a minus sign. -/
def readNegative (dialect : Dialect) (cs : List Char) : Option (Json × List Char) :=
  match dialect, cs with
  | .loose, 'I' :: 'n' :: 'f' :: 'i' :: 'n' :: 'i' :: 't' :: 'y' :: rest =>
    some (float (.infinite true), rest)
  | _, cs => readMagnitude true cs

/-- A value that is neither text, array nor object. -/
def readScalar (dialect : Dialect) : List Char → Option (Json × List Char)
  | 'n' :: 'u' :: 'l' :: 'l' :: rest => some (null, rest)
  | 't' :: 'r' :: 'u' :: 'e' :: rest => some (bool true, rest)
  | 'f' :: 'a' :: 'l' :: 's' :: 'e' :: rest => some (bool false, rest)
  | '-' :: rest => readNegative dialect rest
  | cs =>
    match dialect, cs with
    | .loose, 'N' :: 'a' :: 'N' :: rest => some (float .nan, rest)
    | .loose, 'I' :: 'n' :: 'f' :: 'i' :: 'n' :: 'i' :: 't' :: 'y' :: rest =>
      some (float (.infinite false), rest)
    | _, cs => readMagnitude false cs

/-! ## Values -/

mutual

/-- A value. -/
def readValue (dialect : Dialect) : Nat → List Char → Option (Json × List Char)
  | 0, _ => none
  | fuel + 1, cs =>
    match skipGap cs with
    | '[' :: rest =>
      match skipGap rest with
      | ']' :: rest => some (arr [], rest)
      | rest => (readItems dialect fuel rest).map fun (vs, left) => (arr vs, left)
    | '\x7b' :: rest =>
      match skipGap rest with
      | '\x7d' :: rest => some (obj [], rest)
      | rest => (readMembers dialect fuel rest).map fun (ms, left) => (obj ms, left)
    | '\x22' :: rest =>
      (readText rest).map fun (cs, left) => (str (String.ofList cs), left)
    | rest => readScalar dialect rest

/-- The items of an array up to its bracket, of which there is at least one. -/
def readItems (dialect : Dialect) : Nat → List Char → Option (List Json × List Char)
  | 0, _ => none
  | fuel + 1, cs =>
    match readValue dialect fuel cs with
    | none => none
    | some (v, rest) =>
      match skipGap rest with
      | ']' :: rest => some ([v], rest)
      | ',' :: rest => (readItems dialect fuel rest).map fun (vs, left) => (v :: vs, left)
      | _ => none

/-- The members of an object up to its brace, of which there is at least one. -/
def readMembers (dialect : Dialect) :
    Nat → List Char → Option (List (String × Json) × List Char)
  | 0, _ => none
  | fuel + 1, cs =>
    match skipGap cs with
    | '\x22' :: rest =>
      match readText rest with
      | none => none
      | some (key, rest) =>
        match skipGap rest with
        | ':' :: rest =>
          match readValue dialect fuel rest with
          | none => none
          | some (v, rest) =>
            match skipGap rest with
            | '\x7d' :: rest => some ([(String.ofList key, v)], rest)
            | ',' :: rest =>
              (readMembers dialect fuel rest).map fun (ms, left) =>
                ((String.ofList key, v) :: ms, left)
            | _ => none
        | _ => none
    | _ => none

end

/-- Fuel enough for every text of a given length. -/
def fuelFor (cs : List Char) : Nat := 2 * cs.length + 2

/-! ## Limits -/

/-- The most characters that an integer may have. -/
def maxIntegerLength : Nat := 4300

/-- Whether an integer is of a length that a dialect takes; the strict one counts the sign
too. -/
def Dialect.takesInt (dialect : Dialect) (n : Int) : Bool :=
  Binary64.digitCount n.natAbs + (if n < 0 ∧ dialect = .strict then 1 else 0) ≤ maxIntegerLength

/-- Whether a dialect takes a number; the strict one takes no infinity. -/
def Dialect.takesFloat : Dialect → Binary64 → Bool
  | strict, x => x.isFinite
  | loose, _ => true

mutual

/-- A value as a dialect takes it, if it does: numbers keep its limits, and of the members under
one key the first has the place and the last the value. -/
def accept (dialect : Dialect) : Json → Option Json
  | int n => if dialect.takesInt n then some (int n) else none
  | float x => if dialect.takesFloat x then some (float x) else none
  | arr vs => (acceptItems dialect vs).map arr
  | obj ms => (acceptMembers dialect ms).map fun ms => obj (Members.ofPairs ms)
  | v => some v

/-- `accept` for the items of an array. -/
def acceptItems (dialect : Dialect) : List Json → Option (List Json)
  | [] => some []
  | v :: vs => do return (← accept dialect v) :: (← acceptItems dialect vs)

/-- `accept` for the members of an object. -/
def acceptMembers (dialect : Dialect) : List (String × Json) → Option (List (String × Json))
  | [] => some []
  | (k, v) :: ms => do return (k, ← accept dialect v) :: (← acceptMembers dialect ms)

end

/-! ## Whole texts -/

/-- The value in front of a text, and what follows it. -/
def parseAhead (dialect : Dialect) (cs : List Char) : Option (Json × List Char) := do
  let (v, rest) ← readValue dialect (fuelFor cs) cs
  return (← accept dialect v, rest)

/-- The value that a whole text holds. -/
def parseList (dialect : Dialect) (cs : List Char) : Option Json :=
  match parseAhead dialect cs with
  | some (v, rest) => if (skipGap rest).isEmpty then some v else none
  | none => none

/-- The value that a whole text holds. -/
def parse (dialect : Dialect) (s : String) : Option Json := parseList dialect s.toList

end PageDesign.Json
