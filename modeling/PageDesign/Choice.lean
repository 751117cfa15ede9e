/-
# PageDesign.Choice -- types of named values

Some fields and options have one of a few values, each with the name under which it is stored.
`Choice` lists the values of such a type in the order in which they are offered.
-/

namespace PageDesign

/-- A type of named values. -/
class Choice (α : Type) where
  /-- The values, in the order in which they are offered. -/
  all : List α
  /-- The name under which a value is stored. -/
  name : α → String

namespace Choice

variable {α : Type} [Choice α]

/-- The value with a given name. -/
def ofName? (s : String) : Option α := (all : List α).find? (name · == s)

/-- A name in words: an underscore ends a word, and each word begins with a capital. -/
def labelList : Bool → List Char → List Char
  | _, [] => []
  | first, c :: cs =>
    if c = '_' then labelList true cs
    else (if first then c.toUpper else c) :: labelList false cs

/-- The label of a value for people. -/
def label (a : α) : String := String.ofList (labelList true (name a).toList)

end Choice

end PageDesign
