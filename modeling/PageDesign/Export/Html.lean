/-
# PageDesign.Export.Html -- plain HTML

Components become plain elements that are styled by declarations.  Attributes are escaped and
content is written as it is.
-/
import PageDesign.Export.Markup
import PageDesign.Text.Lines

namespace PageDesign

open Markup

namespace Html

/-- An attribute that calls a handler. -/
def on (event : String) : Option String → List Attribute :=
  given fun handler => .escaped ("on" ++ event) (handler ++ "()")

/-- The type and the placeholder of an input field. -/
def inputAttributes (i : InputField) : List Attribute :=
  [.quoted "type" (Choice.name i.inputType), .escaped "placeholder" i.placeholder]

/-- The state and the handlers of an input field. -/
def inputState (i : InputField) : List Attribute :=
  flagIf "required" i.required ++ flagIf "disabled" i.disabled ++ on "change" i.onChange ++
    on "input" i.onInput

/-- A drop-down list with attributes in front of its state. -/
def select (first : List Attribute) (a : Option Animation) (s : SelectField) : List Line :=
  selectLines
    (first ++ flagIf "disabled" s.disabled ++ on "change" s.onChange ++ styled (Style.animation a))
    hint (.escaped "value") (fun content => content) s

/-- A picture with attributes after its size. -/
def image (further : List Attribute) (a : Option Animation) (i : Image) : Line :=
  flat <| emptyTag "img"
    (imageAttributes i ++ further ++ on "click" i.onClick ++ styled (Style.animation a))

/-- The name of a custom component in a comment. -/
def customComment (c : Custom) : Line := flat (comment ("Custom: " ++ c.name))

/-- The markup of a custom component, or an element in its place. -/
def customContent (placeholderClass : String) (c : Custom) : List String :=
  match c.markup? with
  | some t => Text.lines t
  | none =>
    [element "div" [.quoted "class" placeholderClass, .escaped "data-component" c.name] missing]

/-- A leaf. -/
def leaf (a : Option Animation) : Leaf → List Line
  | .button b =>
    [flat <| element "button"
      (flagIf "disabled" b.disabled ++ on "click" b.onClick ++ styled (Style.animation a)) b.label]
  | .text t => [flat <| element (Choice.name t.tag) (styled (Style.animation a)) t.content]
  | .input i =>
    [flat <| tag "input" (inputAttributes i ++ inputState i ++ styled (Style.animation a))]
  | .select s => select [] a s
  | .image i => [image [] a i]
  | .custom c => customComment c :: (customContent "custom-placeholder" c).map flat

/-- The beginning of a branch. -/
def enter (a : Option Animation) (f : Frame) : List Line :=
  [flat <| tag "div" (on "click" f.onClick ++ styled (Style.frame f ++ Style.animation a))]

/-- Plain HTML. -/
def dialect : Dialect where
  header :=
    [flat "<!DOCTYPE html>", flat "<html>", flat "<head>", nested "<meta charset=\"UTF-8\">",
      nested "<title>Generated Layout</title>", flat "</head>", flat "<body>"]
  footer := [flat "</body>", flat "</html>"]
  base := 1
  width := 4
  leaf := leaf
  enter := enter

end Html

end PageDesign
