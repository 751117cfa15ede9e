/-
# PageDesign.Export.TypeScript -- type declarations for stored designs

Consumers of stored designs find there the same choices, records and kinds as in this library.
The declarations are the same for every design.
-/
import PageDesign.Component.Basic

namespace PageDesign

namespace TypeScript

/-! ## Declarations -/

/-- A text between single quotes. -/
def quoted (s : String) : String := "'" ++ s ++ "'"

/-- A type that is one of several, in one line. -/
def union (name : String) (types : List String) : String :=
  "export type " ++ name ++ " = " ++ " | ".intercalate types ++ ";"

/-- A type that is one of several, each on a line of its own. -/
def tallUnion (name : String) (types : List String) : List String :=
  match (types.map ("  | " ++ ·)).reverse with
  | [] => []
  | last :: rest => ("export type " ++ name ++ " =") :: (rest.reverse ++ [last ++ ";"])

/-- The names of a choice. -/
def names (α : Type) [Choice α] : List String := (Choice.all : List α).map (quoted ∘ Choice.name)

/-- The fields of a record on lines of their own. -/
def fields (fs : List (String × String)) : List String :=
  fs.map fun (name, type) => "  " ++ name ++ ": " ++ type ++ ";"

/-- An interface. -/
def interface (heading : String) (fs : List (String × String)) : List String :=
  [heading ++ " \x7b"] ++ fields fs ++ ["\x7d", ""]

/-- A record in one line. -/
def record (fs : List (String × String)) : String :=
  "\x7b " ++ "; ".intercalate (fs.map fun (name, type) => name ++ ": " ++ type) ++ " \x7d"

/-- A type with an empty value. -/
def nullable (type : String) : String := type ++ " | null"

/-! ## Components -/

/-- The type of the components of a kind. -/
def typeOf (k : Kind) : String := Choice.label k ++ "Component"

/-- The field of a handler or of another text that may be absent. -/
def optionalText (name : String) : String × String := (name, nullable "string")

/-- The fields of a kind. -/
def kindFields : Kind → List (String × String)
  | .button =>
    [("label", "string"), ("variant", "ButtonVariant"), ("size", "ButtonSize"),
      ("disabled", "boolean"), optionalText "on_click", ("bindings", "Record<string, string>")]
  | .text =>
    [("content", "string"), ("style", "TextStyle"), ("tag", "TextTag"),
      ("bindings", "Record<string, string>")]
  | .input =>
    [("placeholder", "string"), ("input_type", "InputType"), ("required", "boolean"),
      ("disabled", "boolean"), optionalText "on_change", optionalText "on_input",
      ("bindings", "Record<string, string>")]
  | .select =>
    [("options", "string"), ("placeholder", "string"), ("disabled", "boolean"),
      optionalText "on_change"]
  | .image =>
    [("src", "string"), ("alt", "string"), optionalText "width", optionalText "height",
      optionalText "on_click"]
  | .container =>
    [("children", "CanvasComponent[]"), ("layout", "Layout"), ("gap", "number"),
      ("padding", "Spacing"), optionalText "on_click"]
  | .card =>
    [("children", "CanvasComponent[]"), ("padding", "number"), ("shadow", "boolean"),
      ("border", "boolean"), ("border_radius", "number"), optionalText "on_click"]
  | .custom =>
    [("name", "string"), optionalText "template",
      ("props", "Record<string, boolean | number | string | null>")]

/-- The interface of a kind. -/
def kindInterface (k : Kind) : List String :=
  interface ("export interface " ++ typeOf k ++ " extends ComponentBase")
    (("kind", quoted (Choice.name k)) :: kindFields k)

/-- The test for a kind. -/
def guard (k : Kind) : String :=
  "export const is" ++ Choice.label k ++ " = (c: CanvasComponent): c is " ++ typeOf k ++
    " => c.kind === " ++ quoted (Choice.name k) ++ ";"

/-! ## The whole text -/

/-- The types of choices. -/
def choices : List String :=
  [union "ButtonVariant" (names ButtonVariant), union "ButtonSize" (names ButtonSize),
      union "TextStyle" (names TextStyle), union "TextTag" (names TextTag),
      union "InputType" (names InputType), union "FlexDirection" (names FlexDirection),
      union "FlexAlign" (names FlexAlign), union "FlexJustify" (names FlexJustify)] ++
    tallUnion "AnimationType" (names AnimationType) ++ [""]

/-- The types of the parts of a component. -/
def parts : List String :=
  interface "export interface Animation"
      [("animation_type", "AnimationType"), ("duration", "number"), ("delay", "number"),
        ("infinite", "boolean")] ++
    interface "export interface Spacing"
      [("top", "number"), ("right", "number"), ("bottom", "number"), ("left", "number")] ++
    tallUnion "Layout"
      [record [("type", "'flex'"), ("direction", "FlexDirection"), ("wrap", "boolean"),
          ("align_items", "FlexAlign"), ("justify_content", "FlexJustify")],
        record [("type", "'grid'"), ("columns", "number"), ("rows", "number")],
        record [("type", "'stack'")]] ++
    [""]

/-- The lines of all declarations. -/
def lines : List String :=
  ["// Generated TypeScript declarations for canvas layouts", ""] ++ choices ++ parts ++
    interface "interface ComponentBase" [("id", "string"), ("animation", nullable "Animation")] ++
    (Choice.all : List Kind).flatMap kindInterface ++
    tallUnion "CanvasComponent" ((Choice.all : List Kind).map typeOf) ++
    ["", "export type CanvasLayout = CanvasComponent[];", "", "// Type guards"] ++
    (Choice.all : List Kind).map guard

/-- The declarations. -/
def text : String := String.join (lines.map (· ++ "\n"))

end TypeScript

end PageDesign
