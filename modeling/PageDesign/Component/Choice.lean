/-
# PageDesign.Component.Choice -- what the fields of a component can be set to

The choices of buttons, texts, input fields, layouts and animations.
-/
import PageDesign.Choice

namespace PageDesign

/-! ## Button Variant -/

/-- How prominent a button is. -/
inductive ButtonVariant where
  | primary
  | secondary
  | outline
  | ghost
  deriving DecidableEq, Repr, Inhabited

instance : Choice ButtonVariant where
  all := [.primary, .secondary, .outline, .ghost]
  name
    | .primary => "primary"
    | .secondary => "secondary"
    | .outline => "outline"
    | .ghost => "ghost"

/-! ## Button Size -/

/-- How large a button is. -/
inductive ButtonSize where
  | small
  | medium
  | large
  deriving DecidableEq, Repr, Inhabited

instance : Choice ButtonSize where
  all := [.small, .medium, .large]
  name
    | .small => "small"
    | .medium => "medium"
    | .large => "large"

/-! ## Text Style -/

/-- The role of a text on the page. -/
inductive TextStyle where
  | heading1
  | heading2
  | heading3
  | body
  | caption
  deriving DecidableEq, Repr, Inhabited

instance : Choice TextStyle where
  all := [.heading1, .heading2, .heading3, .body, .caption]
  name
    | .heading1 => "heading1"
    | .heading2 => "heading2"
    | .heading3 => "heading3"
    | .body => "body"
    | .caption => "caption"

/-! ## Text Tag -/

/-- The element a text is exported as. -/
inductive TextTag where
  | h1
  | h2
  | h3
  | p
  | span
  deriving DecidableEq, Repr, Inhabited

instance : Choice TextTag where
  all := [.h1, .h2, .h3, .p, .span]
  name
    | .h1 => "h1"
    | .h2 => "h2"
    | .h3 => "h3"
    | .p => "p"
    | .span => "span"

/-! ## Input Type -/

/-- What an input field takes. -/
inductive InputType where
  | text
  | password
  | email
  | number
  | tel
  deriving DecidableEq, Repr, Inhabited

instance : Choice InputType where
  all := [.text, .password, .email, .number, .tel]
  name
    | .text => "text"
    | .password => "password"
    | .email => "email"
    | .number => "number"
    | .tel => "tel"

/-! ## Flex Direction -/

/-- The direction in which a flexible layout runs. -/
inductive FlexDirection where
  | row
  | column
  deriving DecidableEq, Repr, Inhabited

instance : Choice FlexDirection where
  all := [.row, .column]
  name
    | .row => "row"
    | .column => "column"

/-! ## Flex Align -/

/-- How items of a flexible layout stand across its direction. -/
inductive FlexAlign where
  | start
  | center
  | finish
  | stretch
  | baseline
  deriving DecidableEq, Repr, Inhabited

instance : Choice FlexAlign where
  all := [.start, .center, .finish, .stretch, .baseline]
  name
    | .start => "start"
    | .center => "center"
    | .finish => "end"
    | .stretch => "stretch"
    | .baseline => "baseline"

/-! ## Flex Justify -/

/-- How items of a flexible layout are spread along its direction. -/
inductive FlexJustify where
  | start
  | center
  | finish
  | between
  | around
  | evenly
  deriving DecidableEq, Repr, Inhabited

instance : Choice FlexJustify where
  all := [.start, .center, .finish, .between, .around, .evenly]
  name
    | .start => "start"
    | .center => "center"
    | .finish => "end"
    | .between => "between"
    | .around => "around"
    | .evenly => "evenly"

/-! ## Animation Type -/

/-- The movement of an animation. -/
inductive AnimationType where
  | none
  | fadeIn
  | slideInUp
  | slideInDown
  | slideInLeft
  | slideInRight
  | bounce
  | zoomIn
  | pulse
  deriving DecidableEq, Repr, Inhabited

instance : Choice AnimationType where
  all := [.none, .fadeIn, .slideInUp, .slideInDown, .slideInLeft, .slideInRight, .bounce,
    .zoomIn, .pulse]
  name
    | .none => "none"
    | .fadeIn => "fade_in"
    | .slideInUp => "slide_in_up"
    | .slideInDown => "slide_in_down"
    | .slideInLeft => "slide_in_left"
    | .slideInRight => "slide_in_right"
    | .bounce => "bounce"
    | .zoomIn => "zoom_in"
    | .pulse => "pulse"

/-- The name of a movement in a stylesheet.  No movement has none. -/
def AnimationType.keyframes : AnimationType → String
  | none => ""
  | fadeIn => "fadeIn"
  | slideInUp => "slideInUp"
  | slideInDown => "slideInDown"
  | slideInLeft => "slideInLeft"
  | slideInRight => "slideInRight"
  | bounce => "bounce"
  | zoomIn => "zoomIn"
  | pulse => "pulse"

end PageDesign
