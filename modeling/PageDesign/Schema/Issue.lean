/-
# PageDesign.Schema.Issue -- what is wrong with a value

Reading typed data out of JSON reports every fault it meets, each with its place.  A place is
the way from the whole value to the faulty one: names of fields and keys, and positions in
arrays.
-/

namespace PageDesign.Schema

/-- One step on the way to a value. -/
inductive Step where
  | field (name : String)
  | index (n : Nat)
  deriving DecidableEq, Repr

/-- What can be wrong with a value. -/
inductive Fault where
  | notText
  | notBool
  | unclearBool
  | notInt
  | unclearInt
  | longInt
  | fractionalInt
  | notFinite
  | notNumber
  | unclearNumber
  | below (least : Nat)
  | notAbove (bound : Nat)
  | notOneOf (names : List String)
  | notExactly (name : String)
  | notList
  | notDict
  | notModel (name : String)
  | notRecord
  | noTag (key : String)
  | unknownTag (key tag : String) (names : List String)
  | extraField
  | missingField
  deriving DecidableEq, Repr

namespace Fault

/-- The short name of a fault. -/
def code : Fault → String
  | notText => "string_type"
  | notBool => "bool_type"
  | unclearBool => "bool_parsing"
  | notInt => "int_type"
  | unclearInt => "int_parsing"
  | longInt => "int_parsing_size"
  | fractionalInt => "int_from_float"
  | notFinite => "finite_number"
  | notNumber => "float_type"
  | unclearNumber => "float_parsing"
  | below _ => "greater_than_equal"
  | notAbove _ => "greater_than"
  | notOneOf _ => "enum"
  | notExactly _ => "literal_error"
  | notList => "list_type"
  | notDict => "dict_type"
  | notModel _ => "model_type"
  | notRecord => "model_attributes_type"
  | noTag _ => "union_tag_not_found"
  | unknownTag _ _ _ => "union_tag_invalid"
  | extraField => "extra_forbidden"
  | missingField => "missing"

/-- A name between single quotes. -/
def marked (s : String) : String := "'" ++ s ++ "'"

/-- Names in a row, the last one after `or`. -/
def alternatives : List String → String
  | [] => ""
  | [s] => marked s
  | [s, t] => marked s ++ " or " ++ marked t
  | s :: rest => marked s ++ ", " ++ alternatives rest

/-- The words for a fault. -/
def message : Fault → String
  | notText => "Input should be a valid string"
  | notBool => "Input should be a valid boolean"
  | unclearBool => "Input should be a valid boolean, unable to interpret input"
  | notInt => "Input should be a valid integer"
  | unclearInt => "Input should be a valid integer, unable to parse string as an integer"
  | longInt => "Unable to parse input string as an integer, exceeded maximum size"
  | fractionalInt => "Input should be a valid integer, got a number with a fractional part"
  | notFinite => "Input should be a finite number"
  | notNumber => "Input should be a valid number"
  | unclearNumber => "Input should be a valid number, unable to parse string as a number"
  | below n => "Input should be greater than or equal to " ++ toString n
  | notAbove n => "Input should be greater than " ++ toString n
  | notOneOf names => "Input should be " ++ alternatives names
  | notExactly name => "Input should be " ++ marked name
  | notList => "Input should be a valid list"
  | notDict => "Input should be a valid dictionary"
  | notModel name => "Input should be a valid dictionary or instance of " ++ name
  | notRecord => "Input should be a valid dictionary or object to extract fields from"
  | noTag key => "Unable to extract tag using discriminator " ++ marked key
  | unknownTag key tag names =>
    "Input tag " ++ marked tag ++ " found using " ++ marked key ++
      " does not match any of the expected tags: " ++ ", ".intercalate (names.map marked)
  | extraField => "Extra inputs are not permitted"
  | missingField => "Field required"

end Fault

/-- A fault and its place. -/
structure Issue where
  place : List Step
  fault : Fault
  deriving DecidableEq, Repr

/-- An issue seen from one step further out. -/
def Issue.within (step : Step) (i : Issue) : Issue := { i with place := step :: i.place }

end PageDesign.Schema
