/-
# PageDesign.Component.Patch -- changing fields of a component

A patch is an object of fields.  It is checked as if it were a component of the same kind
with an identity, and then only the fields that it names are taken over.
-/
import PageDesign.Component.Load
import PageDesign.Forest.Edit

namespace PageDesign.Patch

open Schema

/-- The value of a field after a patch that names some fields. -/
def pick {α : Type} (named : List String) (field : String) (new old : α) : α :=
  if named.contains field then new else old

/-- A leaf with the named fields of another of the same kind. -/
def assignLeaf (named : List String) (new old : Leaf) : Leaf :=
  let on {α : Type} (field : String) (a b : α) : α := pick named field a b
  match new, old with
  | .button n, .button o =>
    .button {
      label := on "label" n.label o.label
      variant := on "variant" n.variant o.variant
      size := on "size" n.size o.size
      disabled := on "disabled" n.disabled o.disabled
      onClick := on "on_click" n.onClick o.onClick
      bindings := on "bindings" n.bindings o.bindings }
  | .text n, .text o =>
    .text {
      content := on "content" n.content o.content
      style := on "style" n.style o.style
      tag := on "tag" n.tag o.tag
      bindings := on "bindings" n.bindings o.bindings }
  | .input n, .input o =>
    .input {
      placeholder := on "placeholder" n.placeholder o.placeholder
      inputType := on "input_type" n.inputType o.inputType
      required := on "required" n.required o.required
      disabled := on "disabled" n.disabled o.disabled
      onChange := on "on_change" n.onChange o.onChange
      onInput := on "on_input" n.onInput o.onInput
      bindings := on "bindings" n.bindings o.bindings }
  | .select n, .select o =>
    .select {
      options := on "options" n.options o.options
      placeholder := on "placeholder" n.placeholder o.placeholder
      disabled := on "disabled" n.disabled o.disabled
      onChange := on "on_change" n.onChange o.onChange }
  | .image n, .image o =>
    .image {
      src := on "src" n.src o.src
      alt := on "alt" n.alt o.alt
      width := on "width" n.width o.width
      height := on "height" n.height o.height
      onClick := on "on_click" n.onClick o.onClick }
  | .custom n, .custom o =>
    .custom {
      name := on "name" n.name o.name
      template := on "template" n.template o.template
      props := on "props" n.props o.props }
  | _, old => old

/-- A branch with the named fields of another of the same kind. -/
def assignFrame (named : List String) (new old : Frame) : Frame :=
  let on {α : Type} (field : String) (a b : α) : α := pick named field a b
  match new, old with
  | .container n, .container o =>
    .container {
      layout := on "layout" n.layout o.layout
      gap := on "gap" n.gap o.gap
      padding := on "padding" n.padding o.padding
      onClick := on "on_click" n.onClick o.onClick }
  | .card n, .card o =>
    .card {
      padding := on "padding" n.padding o.padding
      shadow := on "shadow" n.shadow o.shadow
      border := on "border" n.border o.border
      borderRadius := on "border_radius" n.borderRadius o.borderRadius
      onClick := on "on_click" n.onClick o.onClick }
  | _, old => old

/-- A component with the named fields of another of the same kind. -/
def assign (named : List String) (new old : Component Id) : Component Id :=
  let on {α : Type} (field : String) (a b : α) : α := pick named field a b
  match new, old with
  | .leaf i a l, .leaf j b m =>
    .leaf (on "id" i j) (on "animation" a b) (assignLeaf named l m)
  | .branch i a f cs, .branch j b g ds =>
    .branch (on "id" i j) (on "animation" a b) (assignFrame named f g) (on "children" cs ds)
  | _, old => old

/-- The identity that stands in for the one of the patched component. -/
def placeholderId : String := "-"

/-- The change that a patch makes to a component, if its fields are sound.  Identities that
are missing below it are drawn. -/
def apply (fields : Json.Members) (c : Component Id) (n : Minted) :
    Check (Component Id × Minted) :=
  let ms := Keyed.putAll fields [("id", .str placeholderId)]
  (Draft.readKind c.kind ms (Draft.readChildren ms)).map fun d =>
    let (new, n) := d.fill n
    (assign fields.names new c, n)

/-- A forest in which the first component with an identity is patched, if there is one. -/
def applyIn (fields : Json.Members) (id : Id) (f : Forest Id) (n : Minted) :
    Option (Check (Forest Id × Minted)) :=
  (f.get? id).map fun c =>
    (apply fields c n).map fun (new, n) => ((f.update? id fun _ => new).getD f, n)

end PageDesign.Patch
