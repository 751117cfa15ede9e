/-
# PageDesign.Export.Svelte -- a Svelte component

Handlers stand in braces.  The markup of a custom component is a template literal that is
shown as it is.
-/
import PageDesign.Export.Vue

namespace PageDesign

open Markup

namespace Svelte

/-! ## Attributes -/

/-- An attribute that names a handler. -/
def on (event : String) : Option String → List Attribute :=
  given fun handler => .bare ("on:" ++ event) ("\x7b" ++ handler ++ "\x7d")

/-! ## Elements -/

/-- What a custom component shows. -/
def customContent (c : Custom) : String :=
  match c.markup? with
  | some t => "\x7b@html " ++ Escape.templateLiteral t ++ "\x7d"
  | none => element "div" [.quoted "class" "custom-placeholder"] missing

/-- A leaf. -/
def leaf (a : Option Animation) : Leaf → List Line
  | .button b =>
    [flat <| element "button"
      ([.quoted "class" ("btn " ++ Style.buttonClass b),
          .bare "disabled" ("\x7b" ++ truth b.disabled ++ "\x7d")] ++
        on "click" b.onClick ++ styled (Style.animation a))
      b.label]
  | .text t =>
    [flat <| element (Choice.name t.tag)
      (.quoted "class" (Style.textClass t) :: styled (Style.animation a)) t.content]
  | .input i =>
    [flat <| emptyTag "input"
      ([.quoted "type" (Choice.name i.inputType), .escaped "placeholder" i.placeholder] ++
        flagIf "required" i.required ++ flagIf "disabled" i.disabled ++
        on "change" i.onChange ++ on "input" i.onInput ++ styled (Style.animation a))]
  | .select s =>
    selectLines
      (flagIf "disabled" s.disabled ++ on "change" s.onChange ++ styled (Style.animation a))
      hint (.escaped "value") (fun content => content) s
  | .image i =>
    [flat <| emptyTag "img"
      (imageAttributes i ++ on "click" i.onClick ++ styled (Style.animation a))]
  | .custom c => [flat (comment ("Custom: " ++ c.name)), flat (customContent c)]

/-- The beginning of a branch. -/
def enter (a : Option Animation) (f : Frame) : List Line :=
  [flat <| tag "div"
    (Vue.frameClass f ++ on "click" f.onClick ++ styled (Style.frame f ++ Style.animation a))]

/-- The rules that every component starts with. -/
def baseRules : List String :=
  ["  .generated-layout \x7b",
    "    /* Add your styles here */",
    "  \x7d",
    "",
    "  .btn \x7b",
    "    padding: 8px 16px;",
    "    border-radius: 6px;",
    "    cursor: pointer;",
    "    transition: all 0.2s;",
    "  \x7d",
    "",
    "  .btn-primary \x7b",
    "    background: #3b82f6;",
    "    color: white;",
    "    border: none;",
    "  \x7d",
    "",
    "  .btn-secondary \x7b",
    "    background: #e5e7eb;",
    "    color: #374151;",
    "    border: none;",
    "  \x7d",
    "",
    "  input \x7b",
    "    width: 100%;",
    "    padding: 8px 12px;",
    "    border: 1px solid #d1d5db;",
    "    border-radius: 6px;",
    "  \x7d"]

/-- A Svelte component. -/
def dialect : Dialect where
  header :=
    [flat "<script lang=\"ts\">", nested "// Generated layout",
      nested "// Props can be added here", flat "</script>", flat "",
      flat "<div class=\"generated-layout\">"]
  footer :=
    [flat "</div>", flat "", flat "<style>"] ++ baseRules.map flat ++ [flat "</style>"]
  base := 1
  width := 2
  leaf := leaf
  enter := enter

end Svelte

end PageDesign
