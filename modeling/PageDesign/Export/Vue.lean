/-
# PageDesign.Export.Vue -- a Vue single-file component

Truth values are bound attributes and handlers are event attributes.  The markup of a custom
component is a template literal inside an attribute.
-/
import PageDesign.Export.Markup

namespace PageDesign

open Markup

namespace Vue

/-! ## Attributes -/

/-- A truth value as a bound attribute. -/
def state (name : String) (b : Bool) : Attribute := .quoted (":" ++ name) (truth b)

/-- An attribute that names a handler. -/
def on (event : String) : Option String → List Attribute := given (.escaped ("@" ++ event))

/-! ## Elements -/

/-- What a custom component shows. -/
def customContent (c : Custom) : String :=
  match c.markup? with
  | some t => element "div" [.escaped "v-html" (Escape.templateLiteral t)] ""
  | none => element "div" [.quoted "class" "custom-placeholder"] missing

/-- A leaf. -/
def leaf (a : Option Animation) : Leaf → List Line
  | .button b =>
    [flat <| element "button"
      ([.quoted "class" (Style.buttonClass b), state "disabled" b.disabled] ++
        on "click" b.onClick ++ styled (Style.animation a))
      b.label]
  | .text t =>
    [flat <| element (Choice.name t.tag)
      (.quoted "class" (Style.textClass t) :: styled (Style.animation a)) t.content]
  | .input i =>
    [flat <| emptyTag "input"
      ([.quoted "type" (Choice.name i.inputType), .escaped "placeholder" i.placeholder,
          state "required" i.required, state "disabled" i.disabled] ++
        on "change" i.onChange ++ on "input" i.onInput ++ styled (Style.animation a))]
  | .select s =>
    selectLines
      (state "disabled" s.disabled :: on "change" s.onChange ++ styled (Style.animation a))
      hint (.escaped "value") (fun content => content) s
  | .image i =>
    [flat <| emptyTag "img"
      (imageAttributes i ++ on "click" i.onClick ++ styled (Style.animation a))]
  | .custom c => [flat (comment ("Custom: " ++ c.name)), flat (customContent c)]

/-- The class of a branch. -/
def frameClass : Frame → List Attribute
  | .container _ => []
  | .card _ => [.quoted "class" "card"]

/-- The beginning of a branch. -/
def enter (a : Option Animation) (f : Frame) : List Line :=
  [flat <| tag "div"
    (frameClass f ++ on "click" f.onClick ++ styled (Style.frame f ++ Style.animation a))]

/-- A Vue single-file component. -/
def dialect : Dialect where
  header := [flat "<template>", nested "<div class=\"generated-layout\">"]
  footer :=
    [nested "</div>", flat "</template>", flat "", flat "<script setup lang=\"ts\">",
      flat "// Generated layout", flat "</script>", flat "", flat "<style scoped>",
      flat ".generated-layout \x7b", nested "/* Add your styles here */", flat "\x7d",
      flat "</style>"]
  base := 2
  width := 2
  leaf := leaf
  enter := enter

end Vue

end PageDesign
