/-
# PageDesign.Json.Basic -- JSON values

Designs are stored and exchanged as JSON.  An object keeps its members in the order in which
they were written, and integers are kept apart from double precision numbers, since both show
in what is written back.
-/
import PageDesign.Keyed
import PageDesign.Number.Binary64

namespace PageDesign

/-- A JSON value. -/
inductive Json where
  | null
  | bool (b : Bool)
  | int (n : Int)
  | float (x : Binary64)
  | str (s : String)
  | arr (items : List Json)
  | obj (members : List (String × Json))
  deriving Repr, Inhabited

namespace Json

/-! ## Members of an object -/

/-- The members of an object, in order. -/
abbrev Members := Keyed Json

/-- Members in which a repeated key keeps its first place and its last value. -/
def Members.ofPairs (pairs : List (String × Json)) : Members := Keyed.putAll pairs []

/-- The value under a key of an object. -/
def get? (v : Json) (key : String) : Option Json :=
  match v with
  | obj ms => ms.lookup key
  | _ => none

/-! ## Kinds -/

/-- The name of a value's kind in failures. -/
def kindName : Json → String
  | null => "NoneType"
  | bool _ => "bool"
  | int _ => "int"
  | float _ => "float"
  | str _ => "str"
  | arr _ => "list"
  | obj _ => "dict"

/-! ## Size of the integers -/

/-- Whether an integer fits a signed or an unsigned word of 64 bits: it lies between `-2 ^ 63`
and `2 ^ 64`. -/
def fitsWord (n : Int) : Bool := -9223372036854775808 ≤ n && n < 18446744073709551616

mutual

/-- Whether every integer in a value fits a word of 64 bits. -/
def allFit : Json → Bool
  | int n => fitsWord n
  | arr items => allFitItems items
  | obj members => allFitMembers members
  | _ => true

/-- `allFit` for the items of an array. -/
def allFitItems : List Json → Bool
  | [] => true
  | v :: vs => allFit v && allFitItems vs

/-- `allFit` for the members of an object. -/
def allFitMembers : List (String × Json) → Bool
  | [] => true
  | (_, v) :: ms => allFit v && allFitMembers ms

end

/-! ## Nesting -/

mutual

/-- How many brackets are nested at the deepest place of a value. -/
def depth : Json → Nat
  | arr items => depthItems items + 1
  | obj members => depthMembers members + 1
  | _ => 0

/-- The greatest `depth` of the items of an array. -/
def depthItems : List Json → Nat
  | [] => 0
  | v :: vs => max (depth v) (depthItems vs)

/-- The greatest `depth` of the members of an object. -/
def depthMembers : List (String × Json) → Nat
  | [] => 0
  | (_, v) :: ms => max (depth v) (depthMembers ms)

end

end Json

end PageDesign
