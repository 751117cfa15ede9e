/-
# PageDesign.Component.Record -- components as JSON

Every component is stored as one object: its identity, its animation and its kind first, then
the fields of its kind in the order of their declaration.  A branch stores its children right
after its kind.
-/
import PageDesign.Component.Basic
import PageDesign.Json.Printer

namespace PageDesign

/-! ## Parts -/

/-- A choice as its name. -/
def Choice.record {α : Type} [Choice α] (a : α) : Json := .str (Choice.name a)

/-- A text that may be absent. -/
def Json.ofText? : Option String → Json
  | some s => .str s
  | none => .null

/-- Bindings as an object. -/
def Bindings.record (bs : Bindings) : Json := .obj (bs.map fun (k, v) => (k, .str v))

/-- An animation as an object. -/
def Animation.record (a : Animation) : Json :=
  .obj [("animation_type", Choice.record a.movement), ("duration", .float a.duration),
    ("delay", .float a.delay), ("infinite", .bool a.infinite)]

/-- A spacing as an object. -/
def Spacing.record (s : Spacing) : Json :=
  .obj [("top", .int s.top), ("right", .int s.right), ("bottom", .int s.bottom),
    ("left", .int s.left)]

/-- A layout as an object, which tells its type first. -/
def Layout.record : Layout → Json
  | flex direction wrap align justify =>
    .obj [("type", .str "flex"), ("direction", Choice.record direction), ("wrap", .bool wrap),
      ("align_items", Choice.record align), ("justify_content", Choice.record justify)]
  | grid columns rows =>
    .obj [("type", .str "grid"), ("columns", .int columns), ("rows", .int rows)]
  | stack => .obj [("type", .str "stack")]

/-- The value of a property. -/
def PropValue.record : PropValue → Json
  | bool b => .bool b
  | number x => .float x
  | text s => .str s
  | empty => .null

/-! ## Kinds -/

/-- The fields of a leaf. -/
def Leaf.fields : Leaf → Json.Members
  | button b =>
    [("label", .str b.label), ("variant", Choice.record b.variant), ("size", Choice.record b.size),
      ("disabled", .bool b.disabled), ("on_click", Json.ofText? b.onClick),
      ("bindings", b.bindings.record)]
  | text t =>
    [("content", .str t.content), ("style", Choice.record t.style), ("tag", Choice.record t.tag),
      ("bindings", t.bindings.record)]
  | input i =>
    [("placeholder", .str i.placeholder), ("input_type", Choice.record i.inputType),
      ("required", .bool i.required), ("disabled", .bool i.disabled),
      ("on_change", Json.ofText? i.onChange), ("on_input", Json.ofText? i.onInput),
      ("bindings", i.bindings.record)]
  | select s =>
    [("options", .str s.options), ("placeholder", .str s.placeholder),
      ("disabled", .bool s.disabled), ("on_change", Json.ofText? s.onChange)]
  | image i =>
    [("src", .str i.src), ("alt", .str i.alt), ("width", Json.ofText? i.width),
      ("height", Json.ofText? i.height), ("on_click", Json.ofText? i.onClick)]
  | custom c =>
    [("name", .str c.name), ("template", Json.ofText? c.template),
      ("props", .obj (c.props.map fun (k, v) => (k, v.record)))]

/-- The fields of a branch after its children. -/
def Frame.fields : Frame → Json.Members
  | container c =>
    [("layout", c.layout.record), ("gap", .int c.gap), ("padding", c.padding.record),
      ("on_click", Json.ofText? c.onClick)]
  | card c =>
    [("padding", .int c.padding), ("shadow", .bool c.shadow), ("border", .bool c.border),
      ("border_radius", .int c.borderRadius), ("on_click", Json.ofText? c.onClick)]

/-! ## Components -/

namespace Component

/-- The fields that every component has. -/
def baseFields (i : Id) (a : Option Animation) (k : Kind) : Json.Members :=
  [("id", .str i), ("animation", (a.map Animation.record).getD .null), ("kind", Choice.record k)]

mutual

/-- A component as an object. -/
def record : Component Id → Json
  | leaf i a l => .obj (baseFields i a l.kind ++ l.fields)
  | branch i a f cs =>
    .obj (baseFields i a f.kind ++ ("children", .arr (recordForest cs)) :: f.fields)

/-- A forest as objects. -/
def recordForest : Forest Id → List Json
  | [] => []
  | c :: cs => record c :: recordForest cs

end

/-- A forest as an array. -/
def recordAll (cs : Forest Id) : Json := .arr (recordForest cs)

end Component

end PageDesign
