/-
# PageDesign.Export.Target -- what a design can be exported to

A target is named by its user.  A plan holds what the settings say about an export; with a
plan every design has an export, so that all refusals come before.
-/
import PageDesign.Export.JsonSchema
import PageDesign.Export.Leptos
import PageDesign.Export.Outline
import PageDesign.Export.React
import PageDesign.Export.Stylesheet
import PageDesign.Export.Svelte
import PageDesign.Export.Tailwind
import PageDesign.Export.TypeScript
import PageDesign.Settings.Basic

namespace PageDesign

/-- What a design can be exported to. -/
inductive Target where
  | leptos
  | html
  | tailwind
  | react
  | vue
  | svelte
  | json
  | jsonSchema
  | typescript
  | markdown
  | css
  deriving DecidableEq, Repr, Inhabited

instance : Choice Target where
  all := [.leptos, .html, .tailwind, .react, .vue, .svelte, .json, .jsonSchema, .typescript,
    .markdown, .css]
  name
    | .leptos => "leptos"
    | .html => "html"
    | .tailwind => "tailwind"
    | .react => "react"
    | .vue => "vue"
    | .svelte => "svelte"
    | .json => "json"
    | .jsonSchema => "json_schema"
    | .typescript => "typescript"
    | .markdown => "markdown"
    | .css => "css"

namespace Target

/-- The names of all targets. -/
def names : List String := (Choice.all : List Target).map Choice.name

/-- The extension of files with exports. -/
def fileExtension : Target → String
  | leptos => "rs"
  | html => "html"
  | tailwind => "html"
  | react => "tsx"
  | vue => "vue"
  | svelte => "svelte"
  | json => "json"
  | jsonSchema => "schema.json"
  | typescript => "d.ts"
  | markdown => "md"
  | css => "css"

end Target

/-! ## Refusals -/

/-- Why there is no export. -/
inductive ExportError where
  /-- No target has the name. -/
  | unknownTarget (target : String)
  /-- No target has the name, when only its extension was asked for. -/
  | noExtension (target : String)
  /-- No preset has the name. -/
  | unknownPreset (preset target : String)
  deriving DecidableEq, Repr

namespace ExportError

/-- The words for a refusal. -/
def message : ExportError → String
  | unknownTarget t =>
    "Unknown export target '" ++ t ++ "' (available: " ++ ", ".intercalate Target.names ++ ")"
  | noExtension t => "Unknown export target '" ++ t ++ "'"
  | unknownPreset p _ => "Unknown export preset '" ++ p ++ "'"

/-- The words for a user. -/
def userMessage (e : ExportError) : String := "Export failed: " ++ e.message

/-- The target that was asked for. -/
def target : ExportError → String
  | unknownTarget t => t
  | noExtension t => t
  | unknownPreset _ t => t

end ExportError

/-- The refusal of a width for a target whose layout is fixed. -/
structure FixedLayout where
  target : Target
  deriving DecidableEq, Repr

/-- What makes the exports with a fixed layout. -/
def FixedLayout.generator (e : FixedLayout) : String :=
  match e.target with
  | .json => "JsonGenerator"
  | .jsonSchema => "JsonSchemaGenerator"
  | .typescript => "TypeScriptGenerator"
  | .markdown => "MarkdownGenerator"
  | .css => "CssGenerator"
  | _ => ""

/-- The words for a refusal. -/
def FixedLayout.message (e : FixedLayout) : String := e.generator ++ "() takes no arguments"

/-! ## Plans -/

/-- How designs are exported. -/
structure ExportPlan where
  target : Target
  preset : Preset := .plain
  /-- Spaces for a level of indentation, where the kind of markup does not decide. -/
  width : Option Int := none
  deriving DecidableEq, Repr

namespace ExportPlan

/-- The kind of markup of a plan, unless its target is of another kind. -/
def dialect? (p : ExportPlan) : Option Dialect :=
  match p.target with
  | .leptos => some (Leptos.dialect p.preset)
  | .html => some Html.dialect
  | .tailwind => some Tailwind.dialect
  | .react => some React.dialect
  | .vue => some Vue.dialect
  | .svelte => some Svelte.dialect
  | _ => none

/-- A value on several lines. -/
def dumpLines (v : Json) : String := v.dump 2 ++ "\n"

/-- What a design is exported to, where the target is not markup. -/
def renderOther (t : Target) (f : Forest Id) : String :=
  match t with
  | .json => dumpLines (Component.recordAll f)
  | .jsonSchema => dumpLines (JsonSchema.schema f)
  | .typescript => TypeScript.text
  | .markdown => Outline.render f
  | .css => Stylesheet.render f
  | _ => ""

/-- The export of a design. -/
def render (p : ExportPlan) (f : Forest Id) : String :=
  match p.dialect? with
  | some d => d.render (p.width.getD d.width) f
  | none => renderOther p.target f

/-- The plan for a target by its name.  Only views have a preset, so that only they refuse
one. -/
def ofSettings (s : Settings) (target : String) : Except ExportError ExportPlan :=
  match (Choice.ofName? target : Option Target) with
  | none => .error (.unknownTarget target)
  | some .leptos =>
    match Choice.ofName? s.preset with
    | some p => .ok ⟨.leptos, p, s.indentWidth⟩
    | none => .error (.unknownPreset s.preset target)
  | some t => .ok ⟨t, .plain, s.indentWidth⟩

/-- The plan for a target with a width, which only markup has. -/
def ofWidth (target : Target) (width : Int) : Except FixedLayout ExportPlan :=
  let plan : ExportPlan := ⟨target, .plain, some width⟩
  if plan.dialect?.isSome then .ok plan else .error ⟨target⟩

end ExportPlan

/-- The extension of files with exports, by the name of the target. -/
def Target.extensionOf (target : String) : Except ExportError String :=
  match (Choice.ofName? target : Option Target) with
  | some t => .ok t.fileExtension
  | none => .error (.noExtension target)

end PageDesign
