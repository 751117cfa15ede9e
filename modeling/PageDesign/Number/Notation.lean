/-
# PageDesign.Number.Notation -- how numbers are written

A number is written as digits or with an exponent, depending on where its point falls.
`Style` records the decisions in which the written forms of this library differ, and `write`
follows them.  Digits come from `PageDesign.Number.Decimal`.
-/
import PageDesign.Number.Decimal

namespace PageDesign

namespace Notation

/-- The decisions of a written form of finite numbers. -/
structure Style where
  /-- Numbers from `10 ^ low` up are written without an exponent. -/
  low : Int
  /-- Numbers below `10 ^ high` are written without an exponent. -/
  high : Int
  /-- Whole numbers keep a point and a zero. -/
  keepPoint : Bool
  /-- An exponent has at least this many digits. -/
  exponentWidth : Nat
  deriving DecidableEq, Repr

/-- A row of zeros. -/
def zeros (n : Nat) : List Char := List.replicate n '0'

/-- A natural in decimal, filled up with zeros on the left. -/
def padded (width n : Nat) : List Char :=
  let ds := Nat.toDigits 10 n
  zeros (width - ds.length) ++ ds

/-- Digits without an exponent, the point at place `point`. -/
def positional (keepPoint : Bool) (digits : List Char) (point : Int) : List Char :=
  if point ≤ 0 then '0' :: '.' :: zeros (-point).toNat ++ digits
  else
    let p := point.toNat
    if digits.length ≤ p then
      digits ++ zeros (p - digits.length) ++ (if keepPoint then ['.', '0'] else [])
    else digits.take p ++ '.' :: digits.drop p

/-- Digits with an exponent: one digit before the point, no point for a single digit. -/
def scientific (width : Nat) (digits : List Char) (point : Int) : List Char :=
  let fraction := digits.drop 1
  let e := point - 1
  digits.take 1 ++ (if fraction.isEmpty then [] else '.' :: fraction) ++
    'e' :: (if e < 0 then '-' else '+') :: padded width e.natAbs

/-- A magnitude, given by its digits and its point. -/
def magnitude (style : Style) (digits : List Char) (point : Int) : List Char :=
  if digits.isEmpty then '0' :: (if style.keepPoint then ['.', '0'] else [])
  else if style.low < point ∧ point ≤ style.high then positional style.keepPoint digits point
  else scientific style.exponentWidth digits point

/-- A sign in front of a magnitude. -/
def signed (negative : Bool) (digits : List Char) : List Char :=
  if negative then '-' :: digits else digits

/-- An integer in decimal. -/
def integer (n : Int) : String :=
  String.ofList (signed (decide (n < 0)) (Nat.toDigits 10 n.natAbs))

/-- A finite number in the fewest digits that read back. -/
def shortest (style : Style) (negative : Bool) (code : Nat) : String :=
  let (digits, point) :=
    if code = 0 then ([], 0) else (Decimal.shortest code).digitsAndPoint
  String.ofList (signed negative (magnitude style digits point))

/-- Six significant digits without zeros at the end, exponents from a million up and below a
ten-thousandth. -/
def sixDigits : Style := ⟨-4, 6, false, 2⟩

/-- A number in at most six significant digits. -/
def brief : Binary64 → String
  | .nan => "nan"
  | .infinite negative => if negative then "-inf" else "inf"
  | .finite negative c =>
    let (digits, point) :=
      if c.val = 0 then ([], 0) else (Decimal.rounded c.val 6).digitsAndPoint
    String.ofList (signed negative (magnitude sixDigits digits point))

end Notation

end PageDesign
