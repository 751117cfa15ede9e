/-
# PageDesign.Export.Outline -- an outline in Markdown

An outline has a section for every root.  Each component is a bullet with bullets for its
details below it, and children come after the details.
-/
import PageDesign.Export.Markup
import PageDesign.Text.Lines

namespace PageDesign

open Markup

namespace Outline

/-! ## Details -/

/-- A detail by name. -/
def detail (name value : String) : String := name ++ ": " ++ value

/-- A layout in words. -/
def layout : Layout → String
  | .flex direction wrap _ _ =>
    "Flex (" ++ Choice.name direction ++ (if wrap then ", wrap" else "") ++ ")"
  | .grid columns rows =>
    "Grid (" ++ Style.number columns ++ "x" ++ Style.number rows ++ ")"
  | .stack => "Stack"

/-- The markup of a custom component in one line of code. -/
def markup (c : Custom) : String :=
  match c.markup? with
  | some t => String.singleton Escape.grave ++ Text.oneLine t ++ String.singleton Escape.grave
  | none => missing

/-- The headline and the details of a leaf. -/
def leaf : Leaf → String × List String
  | .button b =>
    ("**Button**: " ++ b.label,
      [detail "Variant" (Choice.label b.variant), detail "Size" (Choice.label b.size),
        detail "Disabled" (truth b.disabled)])
  | .text t =>
    ("**Text**: " ++ t.content,
      [detail "Style" (Choice.label t.style), detail "Tag" (Choice.label t.tag)])
  | .input i =>
    ("**Input**",
      [detail "Type" (Choice.label i.inputType), detail "Placeholder" i.placeholder,
        detail "Required" (truth i.required)])
  | .select s =>
    ("**Select**",
      [detail "Placeholder" s.placeholder, detail "Options" s.options,
        detail "Disabled" (truth s.disabled)])
  | .image i => ("**Image**", [detail "Src" i.src, detail "Alt" i.alt])
  | .custom c => ("**Custom Component**: " ++ c.name, [detail "Template" (markup c)])

/-- The headline and the details of a branch with some number of children. -/
def frame (children : Nat) : Frame → String × List String
  | .container c =>
    ("**Container**",
      [detail "Layout" (layout c.layout), detail "Children" (Style.number children)])
  | .card c =>
    ("**Card**",
      [detail "Padding" (Style.number c.padding), detail "Children" (Style.number children)])

/-- The headline and the details of a component. -/
def entry {ι : Type} : Component ι → String × List String
  | .leaf _ _ l => leaf l
  | .branch _ _ f cs => frame cs.length f

/-! ## Outlines -/

/-- A bullet. -/
def bullet (level : Nat) (s : String) : Line := ⟨level, "- " ++ s⟩

/-- The bullets of a component. -/
def bullets {ι : Type} (c : Component ι) (depth : Nat) : List Line :=
  bullet depth (entry c).1 :: (entry c).2.map (bullet (depth + 1))

/-- The bullets of a step on the way through a forest; the end of a branch has none. -/
def step {ι : Type} (e : Forest.Event ι) : List Line :=
  match e.kind with
  | .exit => []
  | _ => bullets e.node e.depth

/-- The section of a root, which is given with its position. -/
def rootSection {ι : Type} (c : Component ι) (i : Nat) : List Line :=
  [flat ("## Component " ++ Style.number (i + 1)), flat ""] ++
    (Forest.events [c]).flatMap step ++ [flat ""]

/-- The lines of an outline. -/
def lines {ι : Type} (f : Forest ι) : List Line :=
  [flat "# Generated Layout Documentation", flat ""] ++
    f.zipIdx.flatMap fun (c, i) => rootSection c i

/-- The outline of a design. -/
def render {ι : Type} (f : Forest ι) : String := Markup.render 2 (lines f)

end Outline

end PageDesign
