/-
# PageDesign.Export.JsonSchema -- a JSON Schema for stored designs

The schema says what a stored design may hold, with the default of every field, and gives a
design as an example.  The keys of a subschema are in alphabetical order, and so are the
definitions; the properties of an object are in the order in which they are stored.
-/
import PageDesign.Component.Record

namespace PageDesign

namespace JsonSchema

/-! ## Subschemas -/

/-- An object whose keys are put in order. -/
def ordered (ms : Json.Members) : Json := .obj (ms.mergeSort fun a b => decide (a.1 ≤ b.1))

/-- The place of a definition. -/
def place (name : String) : Json := .str ("#/$defs/" ++ name)

/-- A definition by its name. -/
def reference (name : String) : Json := .obj [("$ref", place name)]

/-- A basic type. -/
def basic (type : String) : Json := .obj [("type", .str type)]

/-- The title of a field: its name in words. -/
def title (field : String) : String :=
  " ".intercalate ((Text.splitAtEach '_' field.toList).map fun word =>
    match word with
    | [] => ""
    | c :: cs => String.ofList (c.toUpper :: cs))

/-- A property with its title. -/
def titled (field : String) (ms : Json.Members) : String × Json :=
  (field, ordered (("title", .str (title field)) :: ms))

/-- A property of a basic type. -/
def plain (field type : String) (default : Json) (ms : Json.Members := []) : String × Json :=
  titled field ([("default", default), ("type", .str type)] ++ ms)

/-- A text. -/
def text (field default : String) (ms : Json.Members := []) : String × Json :=
  plain field "string" (.str default) ms

/-- A truth value. -/
def flag (field : String) (default : Bool) : String × Json :=
  plain field "boolean" (.bool default)

/-- An integer from some least value up. -/
def integer (field : String) (least default : Int) : String × Json :=
  plain field "integer" (.int default) [("minimum", .int least)]

/-- A number of seconds. -/
def seconds (field : String) (default : Binary64) : String × Json :=
  plain field "number" (.float default)
    [("description", .str "Seconds"), ("minimum", .float Binary64.zero)]

/-- A property of a defined type. -/
def choice {α : Type} [Choice α] (field type : String) (default : α) : String × Json :=
  (field, ordered [("$ref", place type), ("default", Choice.record default)])

/-- What may be absent. -/
def nullable (s : Json) : Json.Members :=
  [("anyOf", .arr [s, basic "null"]), ("default", .null)]

/-- A text that may be absent. -/
def optionalText (field : String) (ms : Json.Members := []) : String × Json :=
  titled field (nullable (basic "string") ++ ms)

/-- An object with values of one type. -/
def table (field : String) (values : Json) (ms : Json.Members := []) : String × Json :=
  titled field ([("additionalProperties", values), ("type", .str "object")] ++ ms)

/-- Attributes bound to variables. -/
def bindings (ms : Json.Members := []) : String × Json := table "bindings" (basic "string") ms

/-- A description. -/
def description (s : String) : Json.Members := [("description", .str s)]

/-- One of several definitions, which a field of theirs tells apart. -/
def tagged (tag : String) (types : List (String × String)) : Json.Members :=
  [("discriminator",
      .obj [("mapping", ordered (types.map fun (name, type) => (name, place type))),
        ("propertyName", .str tag)]),
    ("oneOf", .arr (types.map fun (_, type) => reference type))]

/-! ## Definitions -/

/-- The name of the definition of a kind. -/
def typeOf (k : Kind) : String := Choice.label k ++ "Component"

/-- Any component. -/
def anyComponent : Json :=
  .obj (tagged "kind" ((Choice.all : List Kind).map fun k => (Choice.name k, typeOf k)))

/-- The layouts by name. -/
def layouts : List (String × String) :=
  [("flex", "FlexLayout"), ("grid", "GridLayout"), ("stack", "StackLayout")]

/-- A field that tells what an object is. -/
def constant (field value : String) : String × Json :=
  text field value [("const", .str value)]

/-- A definition of objects. -/
def object (name : String) (properties : Json.Members) (ms : Json.Members := []) :
    String × Json :=
  (name, ordered ([("properties", .obj properties), ("title", .str name),
    ("type", .str "object")] ++ ms))

/-- A definition of a choice. -/
def choiceType (name : String) (α : Type) [Choice α] : String × Json :=
  (name, .obj [("enum", .arr ((Choice.all : List α).map Choice.record)), ("title", .str name),
    ("type", .str "string")])

/-- The properties of a kind after its children. -/
def kindProperties : Kind → Json.Members
  | .button =>
    let d : Button := {}
    [text "label" d.label, choice "variant" "ButtonVariant" d.variant,
      choice "size" "ButtonSize" d.size, flag "disabled" d.disabled,
      optionalText "on_click" (description "Click handler name"),
      bindings (description "Attribute -> variable")]
  | .text =>
    let d : TextBlock := {}
    [text "content" d.content, choice "style" "TextStyle" d.style, choice "tag" "TextTag" d.tag,
      bindings]
  | .input =>
    let d : InputField := {}
    [text "placeholder" d.placeholder, choice "input_type" "InputType" d.inputType,
      flag "required" d.required, flag "disabled" d.disabled, optionalText "on_change",
      optionalText "on_input", bindings]
  | .select =>
    let d : SelectField := {}
    [text "options" d.options (description "Comma separated"), text "placeholder" d.placeholder,
      flag "disabled" d.disabled, optionalText "on_change"]
  | .image =>
    let d : Image := {}
    [text "src" d.src, text "alt" d.alt, optionalText "width", optionalText "height",
      optionalText "on_click"]
  | .container =>
    let d : Container := {}
    [titled "layout" (tagged "type" layouts), integer "gap" 0 d.gap,
      ("padding", reference "Spacing"), optionalText "on_click"]
  | .card =>
    let d : Card := {}
    [integer "padding" 0 d.padding, flag "shadow" d.shadow, flag "border" d.border,
      integer "border_radius" 0 d.borderRadius, optionalText "on_click"]
  | .custom =>
    let d : Custom := {}
    [text "name" d.name, optionalText "template" (description "Raw markup"),
      table "props" (.obj [("anyOf", .arr (["boolean", "number", "string", "null"].map basic))])]

/-- The properties for the children of a kind. -/
def childProperties (k : Kind) : Json.Members :=
  if k = .container ∨ k = .card then
    [titled "children" [("items", anyComponent), ("type", .str "array")]]
  else []

/-- The definition of a kind. -/
def kindType (k : Kind) : String × Json :=
  object (typeOf k)
    ([titled "id" (("type", .str "string") :: description "Unique identifier"),
        ("animation", .obj (nullable (reference "Animation"))),
        constant "kind" (Choice.name k)] ++
      childProperties k ++ kindProperties k)
    [("additionalProperties", .bool false)]

/-- The definition of animations. -/
def animation : String × Json :=
  let d : Animation := {}
  object "Animation"
    [choice "animation_type" "AnimationType" d.movement, seconds "duration" d.duration,
      seconds "delay" d.delay, flag "infinite" d.infinite]
    (description "Entrance/loop animation; affects export styling only.")

/-- The definition of spacings. -/
def spacing : String × Json :=
  let d : Spacing := {}
  object "Spacing"
    [integer "top" 0 d.top, integer "right" 0 d.right, integer "bottom" 0 d.bottom,
      integer "left" 0 d.left]
    (description "Four-sided spacing in pixels.")

/-- The definitions of the layouts. -/
def layoutTypes : Json.Members :=
  [object "FlexLayout"
      [constant "type" "flex", choice "direction" "FlexDirection" FlexDirection.column,
        flag "wrap" false, choice "align_items" "FlexAlign" FlexAlign.start,
        choice "justify_content" "FlexJustify" FlexJustify.start],
    object "GridLayout" [constant "type" "grid", integer "columns" 1 2, integer "rows" 1 2],
    object "StackLayout" [constant "type" "stack"]]

/-- The definitions of the choices. -/
def choiceTypes : Json.Members :=
  [choiceType "AnimationType" AnimationType, choiceType "ButtonSize" ButtonSize,
    choiceType "ButtonVariant" ButtonVariant, choiceType "FlexAlign" FlexAlign,
    choiceType "FlexDirection" FlexDirection, choiceType "FlexJustify" FlexJustify,
    choiceType "InputType" InputType, choiceType "TextStyle" TextStyle,
    choiceType "TextTag" TextTag]

/-- All definitions. -/
def definitions : Json :=
  ordered ([animation, spacing] ++ layoutTypes ++ choiceTypes ++
    (Choice.all : List Kind).map kindType)

/-! ## The whole schema -/

/-- The schema, with a design as an example. -/
def schema (f : Forest Id) : Json :=
  .obj [("$schema", .str "https://json-schema.org/draft/2020-12/schema"),
    ("title", .str "Canvas Layout"),
    ("description", .str "Ordered list of canvas components"),
    ("$defs", definitions),
    ("items", anyComponent),
    ("type", .str "array"),
    ("examples", .arr [Component.recordAll f])]

end JsonSchema

end PageDesign
