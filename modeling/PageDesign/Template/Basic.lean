/-
# PageDesign.Template.Basic -- layouts to start from

A template is a forest under a name.  Its components have no identities of their own: every
use of the template makes a copy under fresh ones, tree by tree.
-/
import PageDesign.Component.Load

namespace PageDesign

/-- What a template is for. -/
inductive TemplateCategory where
  | landingPage
  | dashboard
  | form
  | navigation
  | card
  | hero
  | footer
  | custom
  deriving DecidableEq, Repr, Inhabited

instance : Choice TemplateCategory where
  all := [.landingPage, .dashboard, .form, .navigation, .card, .hero, .footer, .custom]
  name
    | .landingPage => "landing_page"
    | .dashboard => "dashboard"
    | .form => "form"
    | .navigation => "navigation"
    | .card => "card"
    | .hero => "hero"
    | .footer => "footer"
    | .custom => "custom"

/-- The refusal of a name. -/
def TemplateCategory.invalidMessage (s : String) : String :=
  Text.quoted s ++ " is not a valid TemplateCategory"

/-- A layout to start from. -/
structure Template where
  id : String
  name : String
  description : String
  category : TemplateCategory
  components : Forest Unit
  tags : List String := []
  thumbnail : Option String := none

namespace Template

/-! ## Use -/

/-- Copies of trees under fresh identities, from left to right. -/
def remintAll {ι : Type} : Forest ι → Minted → Forest Id × Minted
  | [], n => ([], n)
  | c :: cs, n =>
    let (c, n) := c.remint n
    let (cs, n) := remintAll cs n
    (c :: cs, n)

/-- A copy of the components of a template under fresh identities. -/
def instantiate (t : Template) : Minted → Forest Id × Minted := remintAll t.components

/-! ## Search -/

/-- A letter in lower case: a basic one, or the sign for kelvin, whose lower case is basic.
No other character has a lower case that occurs in the texts searched. -/
def lowerChar (c : Char) : Char := if c = 'K' then 'k' else c.toLower

/-- A text in lower case. -/
def lower (s : String) : List Char := s.toList.map lowerChar

/-- Whether a template's name, description or one of its tags holds a text, in any case. -/
def mentions (t : Template) (query : String) : Bool :=
  (t.name :: t.description :: t.tags).any fun s => Text.occurs (lower query) (lower s)

/-! ## Loading -/

open Schema in
/-- A template from JSON.  Identities missing in its components are drawn all the same. -/
def load (v : Json) (n : Minted) : Check (Template × Minted) :=
  match v with
  | .obj ms =>
    (fun id name description category components tags thumbnail =>
        let (cs, n) := Component.fillForest components n
        (Template.mk id name description category (Component.mapForest (fun _ => ()) cs) tags
          thumbnail, n))
      <$> required ms "id" text
      <*> required ms "name" text
      <*> required ms "description" text
      <*> required ms "category" (choice TemplateCategory)
      <*> required ms "components" Draft.readForest
      <*> field ms "tags" [] (list text)
      <*> field ms "thumbnail" none (optional text)
  | _ => .fault (.notModel "Template")

end Template

end PageDesign
