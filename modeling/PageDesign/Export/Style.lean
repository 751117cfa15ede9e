/-
# PageDesign.Export.Style -- the styling of a component

What a component looks like is stated once, as a list of declarations.  Markup puts them into
an attribute and a stylesheet into a rule.  Buttons are styled by class names instead.
-/
import PageDesign.Component.Basic

namespace PageDesign

/-! ## Declarations -/

/-- A style property with its value. -/
structure Declaration where
  property : String
  value : String
  deriving DecidableEq, Repr, Inhabited

/-- A declaration as a stylesheet states it. -/
def Declaration.text (d : Declaration) : String := d.property ++ ": " ++ d.value ++ ";"

namespace Style

/-- A whole number. -/
def number (n : Int) : String := Notation.integer n

/-- A length in pixels. -/
def pixels (n : Int) : String := number n ++ "px"

/-- Declarations in one line. -/
def inline (ds : List Declaration) : String := " ".intercalate (ds.map Declaration.text)

/-! ## Tables -/

/-- Where the items of a flexible layout stand across its direction. -/
def align : FlexAlign → String
  | .start => "flex-start"
  | .center => "center"
  | .finish => "flex-end"
  | .stretch => "stretch"
  | .baseline => "baseline"

/-- How the items of a flexible layout are spread along its direction. -/
def justify : FlexJustify → String
  | .start => "flex-start"
  | .center => "center"
  | .finish => "flex-end"
  | .between => "space-between"
  | .around => "space-around"
  | .evenly => "space-evenly"

/-- The class of a button that says how prominent it is. -/
def variantClass : ButtonVariant → String
  | .primary => "btn-primary"
  | .secondary => "btn-secondary"
  | .outline => "btn-outline"
  | .ghost => "btn-ghost"

/-- The class of a button that says how large it is. -/
def sizeClass : ButtonSize → String
  | .small => "btn-sm"
  | .medium => "btn-md"
  | .large => "btn-lg"

/-- The classes of a button. -/
def buttonClass (b : Button) : String := variantClass b.variant ++ " " ++ sizeClass b.size

/-- The class of a text. -/
def textClass (t : TextBlock) : String := "text-" ++ Choice.name t.style

/-! ## Components -/

/-- The four sides of a spacing, clockwise from the top. -/
def spacing (s : Spacing) : String :=
  pixels s.top ++ " " ++ pixels s.right ++ " " ++ pixels s.bottom ++ " " ++ pixels s.left

/-- What plays an animation, if there is one to play. -/
def animation (a : Option Animation) : List Declaration :=
  match a with
  | some a => if a.movement = .none then [] else [⟨"animation", a.shorthand⟩]
  | none => []

/-- How a layout places its items. -/
def layout : Layout → List Declaration
  | .flex direction wrap align' justify' =>
    [⟨"display", "flex"⟩, ⟨"flex-direction", Choice.name direction⟩] ++
      (if wrap then [⟨"flex-wrap", "wrap"⟩] else []) ++
      [⟨"align-items", align align'⟩, ⟨"justify-content", justify justify'⟩]
  | .grid columns rows =>
    [⟨"display", "grid"⟩,
      ⟨"grid-template-columns", "repeat(" ++ number columns ++ ", 1fr)"⟩,
      ⟨"grid-template-rows", "repeat(" ++ number rows ++ ", auto)"⟩]
  | .stack => [⟨"display", "flex"⟩, ⟨"flex-direction", "column"⟩]

/-- The space between the items of a container. -/
def gap (c : Container) : Declaration := ⟨"gap", pixels c.gap⟩

/-- The space inside a container. -/
def padding (c : Container) : Declaration := ⟨"padding", spacing c.padding⟩

/-- A container: its layout, then the space between its items and around them. -/
def container (c : Container) : List Declaration := layout c.layout ++ [gap c, padding c]

/-- The shadow under a card. -/
def shadow : Declaration := ⟨"box-shadow", "0 4px 6px -1px rgb(0 0 0 / 0.1)"⟩

/-- The line around a card. -/
def border : Declaration := ⟨"border", "1px solid #e5e7eb"⟩

/-- The space inside a card and its corners. -/
def cardBox (c : Card) : List Declaration :=
  [⟨"padding", pixels c.padding⟩, ⟨"border-radius", pixels c.borderRadius⟩]

/-- A card: its box, then its shadow and its border. -/
def card (c : Card) : List Declaration :=
  cardBox c ++ (if c.shadow then [shadow] else []) ++ (if c.border then [border] else [])

/-- A branch. -/
def frame : Frame → List Declaration
  | .container c => container c
  | .card c => card c

end Style

end PageDesign
