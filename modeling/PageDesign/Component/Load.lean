/-
# PageDesign.Component.Load -- components from JSON

An object is read as a component of the kind it names.  Fields are checked in the order of
their declaration and an absent field takes its default; a component has no fields beyond
those of its kind, while parts of it may.  What is read keeps missing identities missing;
`loadForest` and `loadOne` draw them afterwards.
-/
import PageDesign.Component.Ids
import PageDesign.Component.Record
import PageDesign.Schema.Scalar
import PageDesign.Text.Quoted

namespace PageDesign

open Schema

/-- A component as it is read, its identities perhaps missing. -/
abbrev Draft := Component (Option Id)

namespace Draft

/-! ## Parts -/

/-- An object that stands for a part of a given name. -/
def part {α : Type} (name : String) (read : Json.Members → Check α) : Json → Check α
  | .obj ms => read ms
  | _ => .fault (.notModel name)

/-- An animation. -/
def readAnimation : Json → Check Animation :=
  part "Animation" fun ms =>
    let d : Animation := {}
    Animation.mk
      <$> field ms "animation_type" d.movement (choice AnimationType)
      <*> field ms "duration" d.duration numberFromZero
      <*> field ms "delay" d.delay numberFromZero
      <*> field ms "infinite" d.infinite bool

/-- Space on four sides. -/
def readSpacing : Json → Check Spacing :=
  part "Spacing" fun ms =>
    Spacing.mk
      <$> field ms "top" 0 (intFrom 0)
      <*> field ms "right" 0 (intFrom 0)
      <*> field ms "bottom" 0 (intFrom 0)
      <*> field ms "left" 0 (intFrom 0)

/-- The tags of layouts. -/
def layoutTags : List String := ["flex", "grid", "stack"]

/-- A layout of the kind with a given tag, if there is one. -/
def readLayoutOf? (tag : String) (ms : Json.Members) : Option (Check Layout) :=
  match tag with
  | "flex" => some <|
    Layout.flex
      <$> field ms "direction" .column (choice FlexDirection)
      <*> field ms "wrap" false bool
      <*> field ms "align_items" .start (choice FlexAlign)
      <*> field ms "justify_content" .start (choice FlexJustify)
  | "grid" =>
    some (Layout.grid <$> field ms "columns" 2 (intFrom 1) <*> field ms "rows" 2 (intFrom 1))
  | "stack" => some (.ok .stack)
  | _ => none

mutual

/-- A value as it is shown in place of a tag. -/
def shown : Json → String
  | .null => "None"
  | .bool b => if b then "True" else "False"
  | .int n => Notation.integer n
  | .float x =>
    match x with
    | .nan => "nan"
    | .infinite negative => if negative then "-inf" else "inf"
    | x => Json.renderFloat (Json.spaced none) x
  | .str s => Text.quoted s
  | .arr vs => "[" ++ ", ".intercalate (shownItems vs) ++ "]"
  | .obj ms => "\x7b" ++ ", ".intercalate (shownMembers ms) ++ "\x7d"

/-- The items of an array as they are shown. -/
def shownItems : List Json → List String
  | [] => []
  | v :: vs => shown v :: shownItems vs

/-- The members of an object as they are shown. -/
def shownMembers : List (String × Json) → List String
  | [] => []
  | (k, v) :: ms => (Text.quoted k ++ ": " ++ shown v) :: shownMembers ms

end

/-- A tag as it is shown: text stands for itself. -/
def shownTag : Json → String
  | .str s => s
  | v => shown v

/-- Reads an object by the tag under a key.  The reader is asked for the name of a tag, and
its issues are placed under the tag. -/
def tagged {α : Type} (key : String) (tags : List String) (ms : Json.Members)
    (read? : String → Option (Check α)) : Check α :=
  match ms.lookup key with
  | none => .fault (.noTag key)
  | some (.str tag) =>
    match read? tag with
    | some c => c.within (.field tag)
    | none => .fault (.unknownTag key tag tags)
  | some v => .fault (.unknownTag key (shownTag v) tags)

/-- A layout. -/
def readLayout : Json → Check Layout
  | .obj ms => tagged "type" layoutTags ms (readLayoutOf? · ms)
  | _ => .fault .notRecord

/-- The value of a property: a boolean, a number, text or nothing. -/
def readProp : Json → Check PropValue
  | .null => .ok .empty
  | .bool b => .ok (.bool b)
  | .str s => .ok (.text s)
  | v =>
    match number v with
    | .ok x => .ok (.number x)
    | .fail _ =>
      .fail [⟨[.field "bool"], .notBool⟩, ⟨[.field "float"], .notNumber⟩,
        ⟨[.field "str"], .notText⟩]

/-- Bindings. -/
def readBindings : Json → Check Bindings := dict text

/-! ## Kinds -/

/-- A button. -/
def readButton (ms : Json.Members) : Check Button :=
  let d : Button := {}
  Button.mk
    <$> field ms "label" d.label text
    <*> field ms "variant" d.variant (choice ButtonVariant)
    <*> field ms "size" d.size (choice ButtonSize)
    <*> field ms "disabled" d.disabled bool
    <*> field ms "on_click" d.onClick (optional text)
    <*> field ms "bindings" d.bindings readBindings

/-- A piece of text. -/
def readTextBlock (ms : Json.Members) : Check TextBlock :=
  let d : TextBlock := {}
  TextBlock.mk
    <$> field ms "content" d.content text
    <*> field ms "style" d.style (choice TextStyle)
    <*> field ms "tag" d.tag (choice TextTag)
    <*> field ms "bindings" d.bindings readBindings

/-- An input field. -/
def readInputField (ms : Json.Members) : Check InputField :=
  let d : InputField := {}
  InputField.mk
    <$> field ms "placeholder" d.placeholder text
    <*> field ms "input_type" d.inputType (choice InputType)
    <*> field ms "required" d.required bool
    <*> field ms "disabled" d.disabled bool
    <*> field ms "on_change" d.onChange (optional text)
    <*> field ms "on_input" d.onInput (optional text)
    <*> field ms "bindings" d.bindings readBindings

/-- A drop-down list. -/
def readSelectField (ms : Json.Members) : Check SelectField :=
  let d : SelectField := {}
  SelectField.mk
    <$> field ms "options" d.options text
    <*> field ms "placeholder" d.placeholder text
    <*> field ms "disabled" d.disabled bool
    <*> field ms "on_change" d.onChange (optional text)

/-- A picture. -/
def readImage (ms : Json.Members) : Check Image :=
  let d : Image := {}
  Image.mk
    <$> field ms "src" d.src text
    <*> field ms "alt" d.alt text
    <*> field ms "width" d.width (optional text)
    <*> field ms "height" d.height (optional text)
    <*> field ms "on_click" d.onClick (optional text)

/-- A component with markup of its own. -/
def readCustom (ms : Json.Members) : Check Custom :=
  let d : Custom := {}
  Custom.mk
    <$> field ms "name" d.name text
    <*> field ms "template" d.template (optional text)
    <*> field ms "props" d.props (dict readProp)

/-- A container, apart from its children. -/
def readContainer (ms : Json.Members) : Check Container :=
  let d : Container := {}
  Container.mk
    <$> field ms "layout" d.layout readLayout
    <*> field ms "gap" d.gap (intFrom 0)
    <*> field ms "padding" d.padding readSpacing
    <*> field ms "on_click" d.onClick (optional text)

/-- A card, apart from its children. -/
def readCard (ms : Json.Members) : Check Card :=
  let d : Card := {}
  Card.mk
    <$> field ms "padding" d.padding (intFrom 0)
    <*> field ms "shadow" d.shadow bool
    <*> field ms "border" d.border bool
    <*> field ms "border_radius" d.borderRadius (intFrom 0)
    <*> field ms "on_click" d.onClick (optional text)

/-! ## Components -/

/-- The names of the fields of a leaf of each kind, and of a branch. -/
def knownFields (k : Kind) : List String :=
  ["id", "animation", "kind"] ++ match k with
    | .button => (Leaf.button {}).fields.map (·.1)
    | .text => (Leaf.text {}).fields.map (·.1)
    | .input => (Leaf.input {}).fields.map (·.1)
    | .select => (Leaf.select {}).fields.map (·.1)
    | .image => (Leaf.image {}).fields.map (·.1)
    | .custom => (Leaf.custom {}).fields.map (·.1)
    | .container => "children" :: (Frame.container {}).fields.map (·.1)
    | .card => "children" :: (Frame.card {}).fields.map (·.1)

/-- A leaf around what its kind reads. -/
def readLeaf (k : Kind) (ms : Json.Members) (content : Check Leaf) : Check Draft :=
  (fun i a _ l _ => .leaf i a l)
    <$> field ms "id" none (fun v => (text v).map some)
    <*> field ms "animation" none (optional readAnimation)
    <*> field ms "kind" () (exactly (Choice.name k))
    <*> content
    <*> noExtras (knownFields k) ms

/-- A branch around its children and what its kind reads. -/
def readBranch (k : Kind) (ms : Json.Members) (children : Check (List Draft))
    (frame : Check Frame) : Check Draft :=
  (fun i a _ cs f _ => .branch i a f cs)
    <$> field ms "id" none (fun v => (text v).map some)
    <*> field ms "animation" none (optional readAnimation)
    <*> field ms "kind" () (exactly (Choice.name k))
    <*> children
    <*> frame
    <*> noExtras (knownFields k) ms

/-- The fields of a component of a given kind, whose children have been read. -/
def readKind (k : Kind) (ms : Json.Members) (children : Check (List Draft)) : Check Draft :=
  match k with
  | .button => readLeaf k ms (Leaf.button <$> readButton ms)
  | .text => readLeaf k ms (Leaf.text <$> readTextBlock ms)
  | .input => readLeaf k ms (Leaf.input <$> readInputField ms)
  | .select => readLeaf k ms (Leaf.select <$> readSelectField ms)
  | .image => readLeaf k ms (Leaf.image <$> readImage ms)
  | .custom => readLeaf k ms (Leaf.custom <$> readCustom ms)
  | .container => readBranch k ms children (Frame.container <$> readContainer ms)
  | .card => readBranch k ms children (Frame.card <$> readCard ms)

mutual

/-- A component, of the kind that the object names. -/
def read : Json → Check Draft
  | .obj ms =>
    tagged "kind" ((Choice.all : List Kind).map Choice.name) ms fun tag =>
      (Choice.ofName? tag).map fun k => readKind k ms (readChildren ms)
  | _ => .fault .notRecord

/-- The children among the fields of an object; none when they are absent. -/
def readChildren : List (String × Json) → Check (List Draft)
  | [] => .ok []
  | (k, v) :: ms =>
    if k = "children" then (readForest v).within (.field "children") else readChildren ms

/-- A forest. -/
def readForest : Json → Check (List Draft)
  | .arr vs => readItems 0 vs
  | _ => .fault .notList

/-- The trees of a forest from a position on. -/
def readItems : Nat → List Json → Check (List Draft)
  | _, [] => .ok []
  | n, v :: vs => List.cons <$> (read v).within (.index n) <*> readItems (n + 1) vs

end

end Draft

/-! ## Loading -/

namespace Component

/-- A component from JSON.  Identities that are missing are drawn in pre-order. -/
def loadOne (v : Json) (n : Minted) : Check (Component Id × Minted) :=
  (Draft.read v).map fun c => c.fill n

/-- A forest from JSON.  Identities that are missing are drawn in pre-order. -/
def loadForest (v : Json) (n : Minted) : Check (Forest Id × Minted) :=
  (Draft.readForest v).map fun cs => fillForest cs n

end Component

end PageDesign
