/-
# PageDesign.Export.Leptos -- a view in the Leptos view language

Attribute values are expressions: string literals, truth values, names of handlers, or
closures over the variable to which an attribute is bound.  A binding takes the place of the
value that the attribute would have had.
-/
import PageDesign.Export.Markup
import PageDesign.Keyed
import PageDesign.Text.Lines

namespace PageDesign

open Markup

/-- The component library that a view imports. -/
inductive Preset where
  | plain
  | thaw
  | material
  | leptosUse
  deriving DecidableEq, Repr, Inhabited

instance : Choice Preset where
  all := [.plain, .thaw, .material, .leptosUse]
  name
    | .plain => "plain"
    | .thaw => "thaw"
    | .material => "material"
    | .leptosUse => "leptos_use"

/-- The imports of a view. -/
def Preset.imports : Preset → List String
  | plain => ["use leptos::*;"]
  | thaw => ["use leptos::*;", "use thaw::*;"]
  | material => ["use leptos::*;", "use leptos_material::*;"]
  | leptosUse => ["use leptos::*;", "use leptos_use::*;"]

namespace Leptos

/-! ## Attributes -/

/-- Attributes with their expressions, in the order in which they are written. -/
abbrev Attributes := Keyed String

/-- The closure that reads a variable. -/
def reactive (name : String) : String := "move || " ++ name ++ ".get()"

/-- Attributes with the bound ones replaced. -/
def bind (as : Attributes) (bs : Bindings) : Attributes :=
  Keyed.putAll (bs.map fun (attr, name) => (attr, reactive name)) as

/-- Attributes as they are written. -/
def written (as : Attributes) : List Attribute := as.map fun (name, e) => .bare name e

/-- An attribute that names a handler. -/
def on (event : String) : Option String → Attributes
  | some handler => if handler.isEmpty then [] else [("on:" ++ event, handler)]
  | none => []

/-- An attribute for declarations, unless there are none. -/
def styled (ds : List Declaration) : Attributes :=
  if ds.isEmpty then [] else [("style", "\"" ++ Style.inline ds ++ "\"")]

/-- A text that is given and not empty, as an attribute. -/
def given (name : String) : Option String → Attributes
  | some s => if s.isEmpty then [] else [(name, Escape.quoted s)]
  | none => []

/-- Bindings without the one for the text of a component. -/
def without (field : String) (bs : Bindings) : Bindings := bs.filter fun b => b.1 != field

/-- The text of a component: a literal, or a closure where the text is bound. -/
def textChild (field text : String) (bs : Bindings) : String :=
  match bs.lookup field with
  | some name => "\x7b" ++ reactive name ++ "\x7d"
  | none => Escape.quoted text

/-! ## Leaves -/

/-- The attributes of a button, apart from bindings. -/
def buttonAttributes (a : Option Animation) (b : Button) : Attributes :=
  [("class", "\"" ++ Style.buttonClass b ++ "\""), ("disabled", truth b.disabled)] ++
    on "click" b.onClick ++ styled (Style.animation a)

/-- The attributes of a text, apart from bindings. -/
def textAttributes (a : Option Animation) (t : TextBlock) : Attributes :=
  ("class", "\"" ++ Style.textClass t ++ "\"") :: styled (Style.animation a)

/-- The attributes of an input field, apart from bindings. -/
def inputAttributes (a : Option Animation) (i : InputField) : Attributes :=
  [("type", "\"" ++ Choice.name i.inputType ++ "\""),
      ("placeholder", Escape.quoted i.placeholder), ("required", truth i.required),
      ("disabled", truth i.disabled)] ++
    on "change" i.onChange ++ on "input" i.onInput ++ styled (Style.animation a)

/-- The attributes of a drop-down list. -/
def selectAttributes (a : Option Animation) (s : SelectField) : Attributes :=
  ("disabled", truth s.disabled) :: on "change" s.onChange ++ styled (Style.animation a)

/-- The attributes of a picture. -/
def imageAttributes (a : Option Animation) (i : Image) : Attributes :=
  [("src", Escape.quoted i.src), ("alt", Escape.quoted i.alt)] ++ given "width" i.width ++
    given "height" i.height ++ on "click" i.onClick ++ styled (Style.animation a)

/-- What a custom component shows. -/
def customContent (c : Custom) : List String :=
  match c.markup? with
  | some t => Text.lines t
  | none =>
    [element "div" [.quoted "class" "custom-placeholder"]
      ("\"" ++ missing ++ ": " ++ Escape.literal c.name ++ "\"")]

/-- A leaf. -/
def leaf (a : Option Animation) : Leaf → List Line
  | .button b =>
    [flat <| element "button"
      (written (bind (buttonAttributes a b) (without "label" b.bindings)))
      (textChild "label" b.label b.bindings)]
  | .text t =>
    [flat <| element (Choice.name t.tag)
      (written (bind (textAttributes a t) (without "content" t.bindings)))
      (textChild "content" t.content t.bindings)]
  | .input i => [flat <| emptyTag "input" (written (bind (inputAttributes a i) i.bindings))]
  | .select s =>
    selectLines (written (selectAttributes a s)) hint (fun o => .bare "value" (Escape.quoted o))
      Escape.quoted s
  | .image i => [flat <| emptyTag "img" (written (imageAttributes a i))]
  | .custom c =>
    flat ("// Custom component: " ++ c.name) :: (customContent c).map flat

/-! ## Branches -/

/-- The class of a layout. -/
def layoutClass : Layout → String
  | .flex direction wrap _ _ =>
    (match direction with
      | .row => "flex-row"
      | .column => "flex-col") ++ (if wrap then " flex-wrap" else "")
  | .grid columns rows =>
    "grid grid-cols-" ++ Style.number columns ++ " grid-rows-" ++ Style.number rows
  | .stack => "stack"

/-- What the class of a layout leaves to declarations. -/
def layoutStyle : Layout → List Declaration
  | .flex _ _ align justify =>
    [⟨"align-items", Style.align align⟩, ⟨"justify-content", Style.justify justify⟩]
  | _ => []

/-- The class of a branch. -/
def frameClass : Frame → String
  | .container c => "container " ++ layoutClass c.layout
  | .card c => if c.border then "card border border-gray-200" else "card"

/-- What the class of a branch leaves to declarations. -/
def frameStyle : Frame → List Declaration
  | .container c => [Style.gap c, Style.padding c] ++ layoutStyle c.layout
  | .card c => Style.cardBox c ++ (if c.shadow then [Style.shadow] else [])

/-- The attributes of a branch. -/
def frameAttributes (a : Option Animation) (f : Frame) : Attributes :=
  ("class", "\"" ++ frameClass f ++ "\"") :: styled (frameStyle f ++ Style.animation a) ++
    on "click" f.onClick

/-- The beginning of a branch. -/
def enter (a : Option Animation) (f : Frame) : List Line :=
  [flat (tag "div" (written (frameAttributes a f)))]

/-- A view that imports a component library. -/
def dialect (p : Preset) : Dialect where
  header :=
    p.imports.map flat ++
      [flat "", flat "#[component]", flat "pub fn App() -> impl IntoView \x7b",
        nested "view! \x7b"]
  footer := [nested "\x7d", flat "\x7d"]
  base := 2
  width := 4
  leaf := leaf
  enter := enter

end Leptos

end PageDesign
