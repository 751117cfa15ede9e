/-
# PageDesign.Export.Tailwind -- HTML with utility classes

The elements are those of plain HTML.  They are styled by utility classes; only an animation
is a declaration.
-/
import PageDesign.Export.Html

namespace PageDesign

open Markup

namespace Tailwind

/-! ## Classes -/

/-- The classes of a button that say how prominent it is. -/
def variant : ButtonVariant → String
  | .primary => "bg-blue-600 hover:bg-blue-700 text-white"
  | .secondary => "bg-gray-200 hover:bg-gray-300 text-gray-800"
  | .outline => "bg-transparent border-2 border-blue-600 text-blue-600 hover:bg-blue-50"
  | .ghost => "bg-transparent text-gray-600 hover:bg-gray-100"

/-- The classes of a button that say how large it is. -/
def size : ButtonSize → String
  | .small => "px-3 py-1 text-sm"
  | .medium => "px-4 py-2 text-base"
  | .large => "px-6 py-3 text-lg"

/-- The classes of a text. -/
def textTag : TextTag → String
  | .h1 => "text-4xl font-bold text-gray-900"
  | .h2 => "text-3xl font-semibold text-gray-800"
  | .h3 => "text-2xl font-medium text-gray-700"
  | .p => "text-base text-gray-600"
  | .span => "text-base text-gray-600"

/-- Where items stand across the direction of a layout. -/
def align : FlexAlign → String
  | .start => "items-start"
  | .center => "items-center"
  | .finish => "items-end"
  | .stretch => "items-stretch"
  | .baseline => "items-baseline"

/-- How items are spread along the direction of a layout. -/
def justify : FlexJustify → String
  | .start => "justify-start"
  | .center => "justify-center"
  | .finish => "justify-end"
  | .between => "justify-between"
  | .around => "justify-around"
  | .evenly => "justify-evenly"

/-- The direction of a flexible layout. -/
def direction : FlexDirection → String
  | .row => "flex-row"
  | .column => "flex-col"

/-- A length on the spacing scale: a step is four pixels, and the last step is the 16th. -/
def step (low pixels : Int) : String :=
  Style.number (max low (min (pixels / 4) 16))

/-- The classes of a layout.  A grid has at most twelve columns. -/
def layout : Layout → List String
  | .flex dir wrap align' justify' =>
    ["flex", direction dir] ++ (if wrap then ["flex-wrap"] else []) ++
      [align align', justify justify']
  | .grid columns _ => ["grid", "grid-cols-" ++ Style.number (min columns 12)]
  | .stack => ["flex", "flex-col"]

/-- The classes of a branch. -/
def frame : Frame → List String
  | .container c =>
    layout c.layout ++ ["gap-" ++ step 1 c.gap, "pt-" ++ step 0 c.padding.top,
      "pr-" ++ step 0 c.padding.right, "pb-" ++ step 0 c.padding.bottom,
      "pl-" ++ step 0 c.padding.left]
  | .card c =>
    ["bg-white", "p-" ++ step 0 c.padding] ++
      (if c.borderRadius = 0 then [] else ["rounded-lg"]) ++
      (if c.shadow then ["shadow-md"] else []) ++
      (if c.border then ["border border-gray-200"] else [])

/-- Classes as an attribute. -/
def classes (cs : List String) : Attribute := .quoted "class" (" ".intercalate cs)

/-! ## Elements -/

/-- A leaf. -/
def leaf (a : Option Animation) : Leaf → List Line
  | .button b =>
    let state := if b.disabled then "opacity-50 cursor-not-allowed" else "cursor-pointer"
    [flat <| element "button"
      (classes ["rounded-md font-medium transition-colors", variant b.variant, size b.size, state]
        :: flagIf "disabled" b.disabled ++ Html.on "click" b.onClick ++
          styled (Style.animation a))
      b.label]
  | .text t =>
    [flat <| element (Choice.name t.tag)
      (classes [textTag t.tag] :: styled (Style.animation a)) t.content]
  | .input i =>
    [flat <| tag "input"
      (Html.inputAttributes i ++
        classes ["w-full px-4 py-2 border border-gray-300 rounded-md",
          "focus:ring-2 focus:ring-blue-500 focus:border-transparent"] ::
        Html.inputState i ++ styled (Style.animation a))]
  | .select s =>
    Html.select [classes ["w-full px-4 py-2 border border-gray-300 rounded-md bg-white"]] a s
  | .image i => [Html.image [classes ["max-w-full h-auto"]] a i]
  | .custom c =>
    [Html.customComment c, flat (tag "div" [classes ["custom-component"]])] ++
      (Html.customContent "custom-placeholder text-sm text-red-500 italic" c).map nested ++
      [flat (endTag "div")]

/-- The beginning of a branch. -/
def enter (a : Option Animation) (f : Frame) : List Line :=
  [flat <| tag "div"
    (classes (frame f) :: Html.on "click" f.onClick ++ styled (Style.animation a))]

/-- HTML with utility classes. -/
def dialect : Dialect where
  header :=
    [flat "<!-- Generated with Tailwind CSS -->", flat "<!DOCTYPE html>",
      flat "<html lang=\"en\">", flat "<head>", nested "<meta charset=\"UTF-8\">",
      nested "<meta name=\"viewport\" content=\"width=device-width, initial-scale=1.0\">",
      nested "<script src=\"https://cdn.tailwindcss.com\"></script>",
      nested "<title>Generated Layout</title>", flat "</head>",
      flat "<body class=\"min-h-screen bg-gray-50\">",
      nested "<main class=\"container mx-auto p-4\">"]
  footer := [nested "</main>", flat "</body>", flat "</html>"]
  base := 2
  width := 2
  leaf := leaf
  enter := enter

end Tailwind

end PageDesign
