/-
# PageDesign.Number.Binary64 -- double precision values, exactly

Seconds of an animation, numeric properties of a custom component and hit rates are
double precision numbers.  They are kept here as plain data, so that reading and printing
them is exact arithmetic on natural numbers and nothing depends on the machine's own floats.

A finite magnitude is a code below `2047 * 2 ^ 52`: the codes are the magnitudes in
increasing order, and code `c` stands for `units c / 2 ^ 1074`.  One unit is the smallest
positive value.  Below `2 ^ 53` a code is its own number of units; above, each run of
`2 ^ 52` codes doubles the step.
-/

namespace PageDesign

/-- The number of codes over which the step stays the same: `2 ^ 52`. -/
abbrev Binary64.run : Nat := 4503599627370496

/-- The number of finite magnitudes. -/
abbrev Binary64.codeCount : Nat := 2047 * Binary64.run

/-- A double precision number: a signed finite magnitude, an infinity, or not a number. -/
inductive Binary64 where
  | finite (negative : Bool) (code : Fin Binary64.codeCount)
  | infinite (negative : Bool)
  | nan
  deriving DecidableEq, Repr, Inhabited

namespace Binary64

/-! ## The value of a code -/

/-- Every finite value is a whole number of units, and `2 ^ 1074` units make one. -/
abbrev unitsPerOne : Nat := Nat.pow 2 1074

/-- The power of two by which the significand of a code is scaled. -/
def shift (c : Nat) : Nat := if c < 2 * run then 0 else c / run - 1

/-- The significand of a code, below `2 ^ 53`. -/
def significand (c : Nat) : Nat := if c < 2 * run then c else c % run + run

/-- The magnitude of a code, counted in units. -/
def units (c : Nat) : Nat := significand c * Nat.pow 2 (shift c)

/-! ## Rounding -/

/-- Quotient of two naturals, a half going to the even neighbour. -/
def roundDiv (num den : Nat) : Nat :=
  let q := num / den
  let twice := 2 * (num % den)
  if den < twice ∨ (twice = den ∧ q % 2 = 1) then q + 1 else q

/-- The code nearest to `num / den`, an exact half going to the even code.  The answer may
reach or pass `codeCount`, which stands for overflow. -/
def codeOfRatio (num den : Nat) : Nat :=
  let scaled := num * unitsPerOne
  let s := (scaled / den).log2 - 52
  s * run + roundDiv scaled (den * Nat.pow 2 s)

/-- The magnitude with a given code, or infinity past the last one. -/
def ofCode (negative : Bool) (c : Nat) : Binary64 :=
  if h : c < codeCount then .finite negative ⟨c, h⟩ else .infinite negative

/-- The number nearest to `num / den`. -/
def ofRatio (negative : Bool) (num den : Nat) : Binary64 :=
  ofCode negative (codeOfRatio num den)

/-- The number nearest to an integer. -/
def ofInt (n : Int) : Binary64 := ofRatio (decide (n < 0)) n.natAbs 1

/-- How many decimal digits a natural has; zero has one. -/
def digitCount (n : Nat) : Nat := (Nat.toDigits 10 n).length

/-- The number nearest to `mantissa * 10 ^ exponent`.  Magnitudes far outside the range are
settled by their number of digits, so that a huge exponent costs nothing. -/
def ofDecimal (negative : Bool) (mantissa : Nat) (exponent : Int) : Binary64 :=
  let top := (digitCount mantissa : Int) + exponent
  if mantissa = 0 ∨ top < -330 then .finite negative ⟨0, by decide⟩
  else if 330 < top then .infinite negative
  else if 0 ≤ exponent then ofRatio negative (mantissa * Nat.pow 10 exponent.toNat) 1
  else ofRatio negative mantissa (Nat.pow 10 (-exponent).toNat)

/-! ## Tests and conversions -/

/-- Positive zero. -/
def zero : Binary64 := .finite false ⟨0, by decide⟩

/-- Whether a number is at least zero.  Both zeros are, and what is not a number is not. -/
def isNonneg : Binary64 → Bool
  | .finite negative c => !negative || c.val == 0
  | .infinite negative => !negative
  | .nan => false

/-- Whether a number is neither an infinity nor not a number. -/
def isFinite : Binary64 → Bool
  | .finite _ _ => true
  | _ => false

/-- A number that grows with the value; what is not a number has none. -/
def rank? : Binary64 → Option Int
  | .finite negative c => some (if negative then -(c.val : Int) else c.val)
  | .infinite negative => some (if negative then -(codeCount : Int) else codeCount)
  | .nan => none

/-- Whether a value lies below another.  What is not a number lies below nothing, and nothing
lies below it. -/
def isBelow (x y : Binary64) : Bool :=
  match x.rank?, y.rank? with
  | some a, some b => a < b
  | _, _ => false

/-- The integer a finite number is equal to, if there is one. -/
def toInt? : Binary64 → Option Int
  | .finite negative c =>
    let u := units c.val
    if u % unitsPerOne = 0 then
      let n : Int := (u / unitsPerOne : Nat)
      some (if negative then -n else n)
    else none
  | _ => none

end Binary64

end PageDesign
