/-
# PageDesign.Number.Decimal -- decimal digits of a double precision number

Two choices of digits are made here.  `shortest` takes the fewest significant digits that
`Binary64.ofDecimal` reads back to the same number, and of those the closest to it.
`rounded` takes a fixed number of significant digits, a half going to the even neighbour.
How the digits are laid out is the business of `PageDesign.Number.Notation`.

Both start from the exact value: `5 ^ 1074` times the number of units is the integer whose
decimal digits are the digits of the number, with the point 1074 places from the right.
-/
import PageDesign.Number.Binary64

namespace PageDesign

/-- The value `mantissa * 10 ^ exponent`. -/
structure Decimal where
  mantissa : Nat
  exponent : Int
  deriving DecidableEq, Repr, Inhabited

namespace Decimal

/-- The exact decimal value of the magnitude with code `c`. -/
def exact (c : Nat) : Decimal := ⟨Binary64.units c * Nat.pow 5 1074, -1074⟩

/-- A mantissa with its last `places` digits cut off, and what was cut. -/
def cut (d : Decimal) (places : Nat) : Decimal × Nat :=
  (⟨d.mantissa / Nat.pow 10 places, d.exponent + places⟩, d.mantissa % Nat.pow 10 places)

/-- The two neighbours of `d` with `places` digits cut off, the closer one first; of two
equally close ones the even one. -/
def neighbours (d : Decimal) (places : Nat) : List Decimal :=
  let (low, rest) := d.cut places
  let high : Decimal := { low with mantissa := low.mantissa + 1 }
  let unit := Nat.pow 10 places
  if 2 * rest < unit ∨ (2 * rest = unit ∧ low.mantissa % 2 = 0) then [low, high] else [high, low]

/-- Whether a decimal is read back as the magnitude with code `c`. -/
def readsBackTo (d : Decimal) (c : Nat) : Bool :=
  Binary64.ofDecimal false d.mantissa d.exponent == Binary64.ofCode false c

/-- The shortest decimal that reads back to code `c`.  Seventeen digits always suffice; the
exact value stands at the end of the search. -/
def shortest (c : Nat) : Decimal :=
  let d := exact c
  let all := Binary64.digitCount d.mantissa
  ((List.range' 1 17).findSome? fun n =>
    (d.neighbours (all - n)).find? (readsBackTo · c)).getD d

/-- The decimal with `n` significant digits nearest to code `c`, a half going to the even
neighbour.  Rounding up may carry into one digit more, which is then a zero. -/
def rounded (c n : Nat) : Decimal :=
  let d := exact c
  let places := Binary64.digitCount d.mantissa - n
  ⟨Binary64.roundDiv d.mantissa (Nat.pow 10 places), d.exponent + places⟩

/-- The significant digits, without zeros at the end, and the place of the point: the value
is `0.d₁d₂…` times ten to that place. -/
def digitsAndPoint (d : Decimal) : List Char × Int :=
  let all := Nat.toDigits 10 d.mantissa
  let kept := (all.reverse.dropWhile (· == '0')).reverse
  (kept, (all.length : Int) + d.exponent)

end Decimal

end PageDesign
