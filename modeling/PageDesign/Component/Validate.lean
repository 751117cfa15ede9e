/-
# PageDesign.Component.Validate -- rules for components

Buttons need a label and images a source.  A custom component needs a name that is an
identifier and markup with at least one tag.  In a design no identity occurs twice.  A check
goes through the components in pre-order and reports the first offence.
-/
import PageDesign.Forest.Walk

namespace PageDesign

/-- An offence against the rules. -/
inductive Offence where
  | emptyName
  | invalidName (name : String)
  | emptyTemplate
  | invalidTemplate (reason : String)
  | invalidProperty (field reason : String)
  | duplicateId (id : Id)
  deriving DecidableEq, Repr

namespace Offence

/-- The words for an offence. -/
def message : Offence → String
  | emptyName => "Component name is empty"
  | invalidName name => "Component name '" ++ name ++ "' is invalid: must be a valid identifier"
  | emptyTemplate => "Template is empty"
  | invalidTemplate reason => "Template is invalid: " ++ reason
  | invalidProperty field reason => "Property '" ++ field ++ "' has invalid value: " ++ reason
  | duplicateId id => "Component id '" ++ id ++ "' appears more than once"

/-- The words for an offence, as they are shown to a user. -/
def userMessage (e : Offence) : String := "Validation failed: " ++ e.message

end Offence

namespace Rule

/-! ## Texts -/

/-- Letters without accents and the underscore. -/
def isNameStart (c : Char) : Bool := c.isAlpha || c == '_'

/-- Letters without accents, digits and the underscore. -/
def isNameChar (c : Char) : Bool := c.isAlphanum || c == '_'

/-- Whether a text is an identifier. -/
def isIdentifier : List Char → Bool
  | [] => false
  | c :: cs => isNameStart c && cs.all isNameChar

/-- Whether a text begins with a tag: a bracket that opens, something that does not close it,
and later a bracket that closes. -/
def startsWithTag : List Char → Bool
  | '<' :: c :: cs => c != '>' && cs.contains '>'
  | _ => false

/-- Whether a text has a tag. -/
def hasTag : List Char → Bool
  | [] => false
  | c :: cs => startsWithTag (c :: cs) || hasTag cs

/-- The shortest markup that can hold a tag. -/
def minTemplateLength : Nat := 3

/-- The rule for names of custom components. -/
def checkName (name : String) : Except Offence Unit :=
  if Text.isBlankText name then .error .emptyName
  else if isIdentifier name.toList then .ok ()
  else .error (.invalidName name)

/-- The rule for markup of custom components. -/
def checkTemplate (template : String) : Except Offence Unit :=
  if Text.isBlankText template then .error .emptyTemplate
  else if template.length < minTemplateLength then .error (.invalidTemplate "template too short")
  else if hasTag template.toList then .ok ()
  else .error (.invalidTemplate "template must contain at least one HTML tag")

/-! ## Single components -/

/-- The rule for a leaf. -/
def checkLeaf : Leaf → Except Offence Unit
  | .button b =>
    if Text.isBlankText b.label then .error (.invalidProperty "label" "label cannot be empty")
    else .ok ()
  | .image i =>
    if Text.isBlankText i.src then .error (.invalidProperty "src" "image source cannot be empty")
    else .ok ()
  | .custom c => do
    checkName c.name
    checkTemplate (c.template.getD "")
  | _ => .ok ()

/-- The rule for a component by itself. -/
def checkNode {ι : Type} : Component ι → Except Offence Unit
  | .leaf _ _ l => checkLeaf l
  | .branch _ _ _ _ => .ok ()

/-! ## Trees -/

/-- The first identity in a list that is taken or comes a second time. -/
def checkIds (taken : List Id) : List Id → Except Offence Unit
  | [] => .ok ()
  | i :: rest =>
    if taken.contains i then .error (.duplicateId i) else checkIds (i :: taken) rest

/-- Checks components one by one, each for its identity first. -/
def checkNodes (taken : List Id) : List (Component Id) → Except Offence Unit
  | [] => .ok ()
  | c :: rest =>
    if taken.contains c.id then .error (.duplicateId c.id)
    else do
      checkNode c
      checkNodes (c.id :: taken) rest

end Rule

/-- Every component of a tree obeys its rule. -/
def Component.validate {ι : Type} (c : Component ι) : Except Offence Unit :=
  (Forest.nodes [c]).forM Rule.checkNode

/-- No identity of a tree is taken, and none occurs twice. -/
def Component.checkUnique (c : Component Id) (taken : List Id) : Except Offence Unit :=
  Rule.checkIds taken (Forest.ids [c])

/-- Every component of a design obeys its rule, and no identity occurs twice. -/
def Forest.validate (f : Forest Id) : Except Offence Unit := Rule.checkNodes [] f.nodes

end PageDesign
