/-
# PageDesign.Export.React -- a React component in TSX

Styles are objects, whose keys are the properties in camel case.  Text between tags is
escaped, and the markup of a custom component stands in a template literal.
-/
import PageDesign.Export.Markup

namespace PageDesign

open Markup

namespace React

/-! ## Attributes -/

/-- A value in braces. -/
def braced (s : String) : String := "\x7b" ++ s ++ "\x7d"

/-- A truth value as an attribute. -/
def state (name : String) (b : Bool) : Attribute := .bare name (braced (truth b))

/-- An attribute that names a handler. -/
def on (event : String) : Option String → List Attribute :=
  given fun handler => .bare ("on" ++ event) (braced handler)

/-- A word with a capital first letter. -/
def capital : List Char → List Char
  | [] => []
  | c :: cs => c.toUpper :: cs

/-- A property in camel case: hyphens are left out, and a capital follows each. -/
def camel (property : String) : String :=
  match Text.splitAtEach '-' property.toList with
  | [] => ""
  | first :: rest => String.ofList (first ++ rest.flatMap capital)

/-- A character of a value between single quotes. -/
def valueChar (c : Char) : List Char := if c = '\x27' then ['\\', c] else [c]

/-- An entry of a style object. -/
def entry (d : Declaration) : String :=
  camel d.property ++ ": '" ++ String.ofList (d.value.toList.flatMap valueChar) ++ "'"

/-- Declarations as a style object. -/
def styleObject (ds : List Declaration) : String :=
  braced (braced (" " ++ ", ".intercalate (ds.map entry) ++ " "))

/-- An attribute for declarations, unless there are none. -/
def styled (ds : List Declaration) : List Attribute :=
  if ds.isEmpty then [] else [.bare "style" (styleObject ds)]

/-- The class of an element. -/
def className (s : String) : Attribute := .quoted "className" s

/-! ## Elements -/

/-- The markup of a custom component, set from a template literal. -/
def rawMarkup (t : String) : String :=
  emptyTag "div" [.bare "dangerouslySetInnerHTML"
    (braced (braced (" __html: " ++ Escape.templateLiteral t ++ " ")))]

/-- What a custom component shows. -/
def customContent (c : Custom) : String :=
  match c.markup? with
  | some t => rawMarkup t
  | none => element "div" [className "custom-placeholder"] missing

/-- A leaf. -/
def leaf (a : Option Animation) : Leaf → List Line
  | .button b =>
    [flat <| element "button"
      ([className (Style.buttonClass b), state "disabled" b.disabled] ++ on "Click" b.onClick ++
        styled (Style.animation a))
      (Escape.jsxText b.label)]
  | .text t =>
    [flat <| element (Choice.name t.tag)
      (className (Style.textClass t) :: styled (Style.animation a)) (Escape.jsxText t.content)]
  | .input i =>
    [flat <| emptyTag "input"
      ([.quoted "type" (Choice.name i.inputType), .escaped "placeholder" i.placeholder,
          state "required" i.required, state "disabled" i.disabled] ++
        on "Change" i.onChange ++ on "Input" i.onInput ++ styled (Style.animation a))]
  | .select s =>
    selectLines
      ([.quoted "defaultValue" "", state "disabled" s.disabled] ++ on "Change" s.onChange ++
        styled (Style.animation a))
      [.quoted "value" "", .flag "disabled"] (.escaped "value") Escape.jsxText s
  | .image i =>
    [flat <| emptyTag "img"
      (imageAttributes i ++ on "Click" i.onClick ++ styled (Style.animation a))]
  | .custom c =>
    [flat (braced ("/* Custom: " ++ c.name ++ " */")), flat (customContent c)]

/-- The class of a branch. -/
def frameClass : Frame → List Attribute
  | .container _ => []
  | .card _ => [className "card"]

/-- The beginning of a branch. -/
def enter (a : Option Animation) (f : Frame) : List Line :=
  [flat <| tag "div"
    (frameClass f ++ on "Click" f.onClick ++ styled (Style.frame f ++ Style.animation a))]

/-- A React component. -/
def dialect : Dialect where
  header :=
    [flat "import React from 'react';", flat "", flat "export function GeneratedLayout() \x7b",
      nested "return (", ⟨2, "<>"⟩]
  footer :=
    [⟨2, "</>"⟩, nested ");", flat "\x7d", flat "", flat "export default GeneratedLayout;"]
  base := 3
  width := 2
  leaf := leaf
  enter := enter

end React

end PageDesign
