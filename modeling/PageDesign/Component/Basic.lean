/-
# PageDesign.Component.Basic -- the components of a page

A design is a forest of components.  Six kinds of components are leaves; containers and cards
are branches, which own their children.  A component has an identity, perhaps an animation,
and what its kind asks for.

The type of identities is a parameter.  In a document they are texts; while a design is
loaded they may be missing (`Option Id`), and a design seen apart from its identities has the
trivial ones (`Unit`).
-/
import PageDesign.Component.Choice
import PageDesign.Number.Notation
import PageDesign.Text.Blank
import PageDesign.Text.Search

namespace PageDesign

/-! ## Parts -/

/-- An animation on entrance or in a loop.  Times are in seconds. -/
structure Animation where
  movement : AnimationType := .none
  duration : Binary64 := Binary64.ofDecimal false 3 (-1)
  delay : Binary64 := Binary64.zero
  infinite : Bool := false
  deriving DecidableEq, Repr, Inhabited

/-- Space on four sides, in pixels. -/
structure Spacing where
  top : Int := 0
  right : Int := 0
  bottom : Int := 0
  left : Int := 0
  deriving DecidableEq, Repr, Inhabited

/-- How a container places its children. -/
inductive Layout where
  | flex (direction : FlexDirection) (wrap : Bool) (align : FlexAlign) (justify : FlexJustify)
  | grid (columns rows : Int)
  | stack
  deriving DecidableEq, Repr

/-- The layout of a container that states none. -/
def Layout.default : Layout := .flex .column false .start .start

instance : Inhabited Layout := ⟨Layout.default⟩

/-- The value of a property of a custom component. -/
inductive PropValue where
  | bool (b : Bool)
  | number (x : Binary64)
  | text (s : String)
  | empty
  deriving DecidableEq, Repr, Inhabited

/-- Attributes bound to variables, in the order of their declaration. -/
abbrev Bindings := List (String × String)

/-! ## Leaves -/

/-- A button. -/
structure Button where
  label : String := "Button"
  variant : ButtonVariant := .primary
  size : ButtonSize := .medium
  disabled : Bool := false
  onClick : Option String := none
  bindings : Bindings := []
  deriving DecidableEq, Repr, Inhabited

/-- A piece of text. -/
structure TextBlock where
  content : String := ""
  style : TextStyle := .body
  tag : TextTag := .p
  bindings : Bindings := []
  deriving DecidableEq, Repr, Inhabited

/-- An input field. -/
structure InputField where
  placeholder : String := ""
  inputType : InputType := .text
  required : Bool := false
  disabled : Bool := false
  onChange : Option String := none
  onInput : Option String := none
  bindings : Bindings := []
  deriving DecidableEq, Repr, Inhabited

/-- A drop-down list.  The options stand in one text, separated by commas. -/
structure SelectField where
  options : String := "Option 1, Option 2, Option 3"
  placeholder : String := "Select an option"
  disabled : Bool := false
  onChange : Option String := none
  deriving DecidableEq, Repr, Inhabited

/-- A picture. -/
structure Image where
  src : String := ""
  alt : String := ""
  width : Option String := none
  height : Option String := none
  onClick : Option String := none
  deriving DecidableEq, Repr, Inhabited

/-- A component with markup of its own. -/
structure Custom where
  name : String := ""
  template : Option String := none
  props : List (String × PropValue) := []
  deriving DecidableEq, Repr, Inhabited

/-- What a leaf is. -/
inductive Leaf where
  | button (b : Button)
  | text (t : TextBlock)
  | input (i : InputField)
  | select (s : SelectField)
  | image (i : Image)
  | custom (c : Custom)
  deriving DecidableEq, Repr, Inhabited

/-! ## Branches -/

/-- A container, which lays out its children. -/
structure Container where
  layout : Layout := Layout.default
  gap : Int := 8
  padding : Spacing := {}
  onClick : Option String := none
  deriving DecidableEq, Repr, Inhabited

/-- A card, which frames its children. -/
structure Card where
  padding : Int := 16
  shadow : Bool := true
  border : Bool := true
  borderRadius : Int := 8
  onClick : Option String := none
  deriving DecidableEq, Repr, Inhabited

/-- What a branch is, apart from its children. -/
inductive Frame where
  | container (c : Container)
  | card (c : Card)
  deriving DecidableEq, Repr, Inhabited

/-- The handler of clicks on a branch. -/
def Frame.onClick : Frame → Option String
  | container c => c.onClick
  | card c => c.onClick

/-! ## Components -/

/-- The identity of a component in a document. -/
abbrev Id := String

/-- A component with the components below it. -/
inductive Component (ι : Type) where
  | leaf (id : ι) (animation : Option Animation) (content : Leaf)
  | branch (id : ι) (animation : Option Animation) (frame : Frame)
      (children : List (Component ι))
  deriving Repr

/-- A sequence of components: the roots of a design, or the children of a branch. -/
abbrev Forest (ι : Type) := List (Component ι)

instance {ι : Type} [Inhabited ι] : Inhabited (Component ι) := ⟨.leaf default none default⟩

/-- The kinds of components. -/
inductive Kind where
  | button
  | text
  | input
  | select
  | image
  | container
  | card
  | custom
  deriving DecidableEq, Repr, Inhabited

instance : Choice Kind where
  all := [.button, .text, .input, .select, .image, .container, .card, .custom]
  name
    | .button => "button"
    | .text => "text"
    | .input => "input"
    | .select => "select"
    | .image => "image"
    | .container => "container"
    | .card => "card"
    | .custom => "custom"

/-- The kind of a leaf. -/
def Leaf.kind : Leaf → Kind
  | button _ => .button
  | text _ => .text
  | input _ => .input
  | select _ => .select
  | image _ => .image
  | custom _ => .custom

/-- The kind of a branch. -/
def Frame.kind : Frame → Kind
  | container _ => .container
  | card _ => .card

/-- The first text, or the second where the first is empty. -/
def orElse (s other : String) : String := if s.isEmpty then other else s

/-- A short label for a leaf. -/
def Leaf.displayName (l : Leaf) : String :=
  let kindLabel := Choice.label l.kind
  match l with
  | button b => b.label
  | text t => orElse t.content kindLabel
  | input i => orElse i.placeholder kindLabel
  | select s => orElse s.placeholder kindLabel
  | image i => orElse i.alt kindLabel
  | custom c => orElse c.name kindLabel

namespace Component

variable {ι κ : Type}

/-! ### Fields that every component has -/

/-- The identity of a component. -/
def id : Component ι → ι
  | leaf i _ _ => i
  | branch i _ _ _ => i

/-- The animation of a component. -/
def animation : Component ι → Option Animation
  | leaf _ a _ => a
  | branch _ a _ _ => a

/-- The kind of a component. -/
def kind : Component ι → Kind
  | leaf _ _ l => l.kind
  | branch _ _ f _ => f.kind

/-- The name of a component's kind for people. -/
def typeName (c : Component ι) : String := Choice.label c.kind

/-- A short label for lists of components. -/
def displayName : Component ι → String
  | leaf _ _ l => l.displayName
  | branch _ _ f _ => Choice.label f.kind

/-- Whether a component can own others. -/
def isBranch : Component ι → Bool
  | leaf _ _ _ => false
  | branch _ _ _ _ => true

/-- The children of a branch; a leaf has none. -/
def children : Component ι → Forest ι
  | leaf _ _ _ => []
  | branch _ _ _ cs => cs

/-- A component under another identity. -/
def withId (i : ι) : Component ι → Component ι
  | leaf _ a l => leaf i a l
  | branch _ a f cs => branch i a f cs

/-- A branch with other children; a leaf stays as it is. -/
def withChildren (cs : Forest ι) : Component ι → Component ι
  | leaf i a l => leaf i a l
  | branch i a f _ => branch i a f cs

@[simp] theorem id_withId (i : ι) (c : Component ι) : (c.withId i).id = i := by
  cases c <;> rfl

@[simp] theorem id_withChildren (cs : Forest ι) (c : Component ι) :
    (c.withChildren cs).id = c.id := by
  cases c <;> rfl

/-! ### The whole tree -/

mutual

/-- A component with every identity replaced. -/
def map (f : ι → κ) : Component ι → Component κ
  | leaf i a l => leaf (f i) a l
  | branch i a fr cs => branch (f i) a fr (mapForest f cs)

/-- `map` for a forest. -/
def mapForest (f : ι → κ) : Forest ι → Forest κ
  | [] => []
  | c :: cs => map f c :: mapForest f cs

end

mutual

/-- The number of components in a tree. -/
def size : Component ι → Nat
  | leaf _ _ _ => 1
  | branch _ _ _ cs => sizeForest cs + 1

/-- The number of components in a forest. -/
def sizeForest : Forest ι → Nat
  | [] => 0
  | c :: cs => size c + sizeForest cs

end

end Component

/-! ## Derived fields -/

/-- The value of the style property that plays an animation; none plays nothing. -/
def Animation.shorthand (a : Animation) : String :=
  if a.movement = .none then ""
  else
    a.movement.keyframes ++ " " ++ Notation.brief a.duration ++ "s ease-in-out " ++
      Notation.brief a.delay ++ "s " ++ (if a.infinite then "infinite" else "1") ++ " both"

/-- The options of a drop-down list: trimmed, without blank ones. -/
def SelectField.optionList (s : SelectField) : List String :=
  (Text.splitAtEach ',' s.options.toList).filterMap fun piece =>
    let trimmed := Text.trimList Text.isBlank piece
    if trimmed.isEmpty then none else some (String.ofList trimmed)

/-- The markup of a custom component, unless it is absent or blank. -/
def Custom.markup? (c : Custom) : Option String :=
  c.template.filter fun t => !Text.isBlankText t

end PageDesign
