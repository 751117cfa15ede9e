/-
# PageDesign.Export.Markup -- markup in lines

Every kind of markup has a header, a footer and, for each component, the lines that it takes
there.  A line is stated with the number of levels by which it is indented; only when the
lines are joined does a level become a number of spaces.
-/
import PageDesign.Export.Escape
import PageDesign.Export.Style
import PageDesign.Forest.Walk

namespace PageDesign

namespace Markup

/-! ## Lines -/

/-- A line of text, indented by some levels. -/
structure Line where
  level : Nat
  text : String
  deriving DecidableEq, Repr, Inhabited

/-- A line without indentation. -/
def flat (s : String) : Line := ⟨0, s⟩

/-- A line indented by one level. -/
def nested (s : String) : Line := ⟨1, s⟩

/-- A line some levels deeper. -/
def Line.shift (n : Nat) (l : Line) : Line := { l with level := l.level + n }

/-- Spaces. -/
def spaces (n : Nat) : String := String.ofList (List.replicate n ' ')

/-- A line with its end, a level being `width` spaces. -/
def Line.render (width : Nat) (l : Line) : String :=
  spaces (width * l.level) ++ l.text ++ "\n"

/-- Lines with their ends. -/
def render (width : Nat) (ls : List Line) : String := String.join (ls.map (Line.render width))

/-! ## Tags -/

/-- An attribute of a tag. -/
inductive Attribute where
  /-- A name that stands alone. -/
  | flag (name : String)
  /-- A value between quotes, as it is. -/
  | quoted (name value : String)
  /-- A value between quotes, escaped. -/
  | escaped (name value : String)
  /-- A value without quotes. -/
  | bare (name value : String)
  deriving DecidableEq, Repr, Inhabited

/-- An attribute as it is written. -/
def Attribute.text : Attribute → String
  | flag name => name
  | quoted name value => name ++ "=\"" ++ value ++ "\""
  | escaped name value => name ++ "=\"" ++ Escape.attr value ++ "\""
  | bare name value => name ++ "=" ++ value

/-- The inside of a tag: its name and its attributes. -/
def inside (name : String) (as : List Attribute) : String :=
  name ++ String.join (as.map fun a => " " ++ a.text)

/-- A tag that begins an element. -/
def tag (name : String) (as : List Attribute) : String := "<" ++ inside name as ++ ">"

/-- A tag that is an element by itself. -/
def emptyTag (name : String) (as : List Attribute) : String := "<" ++ inside name as ++ " />"

/-- A tag that ends an element. -/
def endTag (name : String) : String := "</" ++ name ++ ">"

/-- An element with its content. -/
def element (name : String) (as : List Attribute) (content : String) : String :=
  tag name as ++ content ++ endTag name

/-! ## Attributes that may be absent -/

/-- An attribute that is there when something holds. -/
def flagIf (name : String) (holds : Bool) : List Attribute := if holds then [.flag name] else []

/-- An attribute for a text that is given and not empty. -/
def given (attr : String → Attribute) : Option String → List Attribute
  | some s => if s.isEmpty then [] else [attr s]
  | none => []

/-- An attribute for declarations, unless there are none. -/
def styled (ds : List Declaration) : List Attribute :=
  if ds.isEmpty then [] else [.quoted "style" (Style.inline ds)]

/-- A truth value. -/
def truth (b : Bool) : String := if b then "true" else "false"

/-- The source and the description of a picture, and its size where it is given. -/
def imageAttributes (i : Image) : List Attribute :=
  [.escaped "src" i.src, .escaped "alt" i.alt] ++ given (.escaped "width") i.width ++
    given (.escaped "height") i.height

/-! ## Drop-down lists -/

/-- The first option of a drop-down list only shows its placeholder. -/
def hint : List Attribute := [.quoted "value" "", .flag "disabled", .flag "selected"]

/-- A drop-down list with its options, each on a line of its own. -/
def selectLines (as hint : List Attribute) (value : String → Attribute)
    (content : String → String) (s : SelectField) : List Line :=
  flat (tag "select" as) ::
    (if s.placeholder.isEmpty then [] else
      [nested (element "option" hint (content s.placeholder))]) ++
    s.optionList.map (fun o => nested (element "option" [value o] (content o))) ++
    [flat (endTag "select")]

/-- What stands for markup that a custom component lacks. -/
def missing : String := "template not found"

/-- A comment on a line of its own. -/
def comment (s : String) : String := "<!-- " ++ s ++ " -->"

end Markup

/-! ## Dialects -/

/-- A kind of markup. -/
structure Dialect where
  /-- The lines before the components. -/
  header : List Markup.Line
  /-- The lines after the components. -/
  footer : List Markup.Line
  /-- The level of the roots. -/
  base : Nat
  /-- The spaces of a level, unless the settings say otherwise. -/
  width : Nat
  /-- The lines of a leaf. -/
  leaf : Option Animation → Leaf → List Markup.Line
  /-- The lines that begin a branch. -/
  enter : Option Animation → Frame → List Markup.Line
  /-- The lines that end a branch. -/
  exit : Frame → List Markup.Line := fun _ => [Markup.flat (Markup.endTag "div")]

namespace Dialect

variable {ι : Type}

/-- The lines of a step on the way through a forest, before they are indented. -/
def fragment (d : Dialect) (e : Forest.Event ι) : List Markup.Line :=
  match e.kind, e.node with
  | .exit, .branch _ _ f _ => d.exit f
  | _, .branch _ a f _ => d.enter a f
  | _, .leaf _ a l => d.leaf a l

/-- All lines of a forest between the header and the footer. -/
def body (d : Dialect) (f : Forest ι) : List Markup.Line :=
  f.events.flatMap fun e => (d.fragment e).map (·.shift (d.base + e.depth))

/-- A page of markup, a level being `width` spaces; a negative number counts as zero. -/
def render (d : Dialect) (width : Int) (f : Forest ι) : String :=
  Markup.render width.toNat (d.header ++ d.body f ++ d.footer)

end Dialect

end PageDesign
