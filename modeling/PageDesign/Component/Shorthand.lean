/-
# PageDesign.Component.Shorthand -- components from a few words

Each kind of component has a short way to be made: its main fields by position and the rest
as an object of fields.  What is left out at the end of the words has a value of its own
(`Default`).  A new component draws a fresh identity unless the fields name one.
-/
import PageDesign.Component.Load

namespace PageDesign.Shorthand

open Schema

/-! ## Refusals -/

/-- Why words cannot be made into fields. -/
inductive Refusal where
  /-- The level of a heading is of a kind that cannot be compared with a number. -/
  | unordered (kind : String)
  /-- The level of a heading names no style. -/
  | notAStyle (name : String)
  /-- An option is not text. -/
  | notText (position : Nat) (kind : String)
  deriving DecidableEq, Repr

/-- The words for a refusal. -/
def Refusal.message : Refusal → String
  | unordered kind =>
    "'>' not supported between instances of 'int' and " ++ Text.quoted kind
  | notAStyle name => Text.quoted name ++ " is not a valid TextStyle"
  | notText position kind =>
    "sequence item " ++ Notation.integer position ++ ": expected str instance, " ++ kind ++ " found"

/-! ## Words left out -/

namespace Default

/-- The label of a button. -/
def label : Json := .str "Button"

/-- The content of a piece of text. -/
def content : Json := .str "Text"

/-- The level of a heading. -/
def level : Json := .int 1

/-- The placeholder of an input field. -/
def placeholder : Json := .str ""

/-- The options of a drop-down list, which leave it those that its kind has. -/
def options : Json := .null

/-- The words for a picture that is not shown. -/
def alt : Json := .str ""

/-- The layout of a container, which leaves it the one of a container that states none. -/
def layout : Option Layout := none

/-- The markup of a component with markup of its own. -/
def template : Json := .null

/-- The properties of a component with markup of its own. -/
def props : Json := .null

end Default

/-! ## Components -/

/-- A component of a kind, made of an object of fields. -/
def make (k : Kind) (ms : Json.Members) (children : Check (List Draft)) (n : Minted) :
    Check (Component Id × Minted) :=
  (Draft.readKind k ms children).map fun c => c.fill n

/-- A leaf with some fields by position and the others by name. -/
def leaf (k : Kind) (given : Json.Members) (others : Json.Members) (n : Minted) :
    Check (Component Id × Minted) :=
  make k (given ++ others) (.ok []) n

/-- A button. -/
def button (label : Json := Default.label) (others : Json.Members := []) :
    Minted → Check (Component Id × Minted) :=
  leaf .button [("label", label)] others

/-- A piece of text. -/
def text (content : Json := Default.content) (others : Json.Members := []) :
    Minted → Check (Component Id × Minted) :=
  leaf .text [("content", content)] others

/-- The nearest level of a heading, from one to three.  A level in between stays as it is. -/
def headingLevel : Json → Except Refusal Json
  | .int n => .ok (.int (min (max n 1) 3))
  | .bool b => .ok (if b then .bool b else .int 1)
  | .float x =>
    if x.isBelow (Binary64.ofInt 1) then .ok (.int 1)
    else if (Binary64.ofInt 3).isBelow x then .ok (.int 3)
    else .ok (.float x)
  | v => .error (.unordered v.kindName)

/-- A heading of a level, which is brought between one and three.  Only whole numbers written
without a point give one. -/
def heading (content : Json) (level : Json := Default.level) :
    Except Refusal (Minted → Check (Component Id × Minted)) := do
  let digit := Draft.shown (← headingLevel level)
  let style := "heading" ++ digit
  match (Choice.ofName? style : Option TextStyle) with
  | none => throw (.notAStyle style)
  | some _ =>
    return leaf .text
      [("content", content), ("style", .str style), ("tag", .str ("h" ++ digit))] []

/-- An input field. -/
def input (placeholder : Json := Default.placeholder) (others : Json.Members := []) :
    Minted → Check (Component Id × Minted) :=
  leaf .input [("placeholder", placeholder)] others

/-- Options, of which the first stands at `position`, as texts. -/
def optionTexts (position : Nat) : List Json → Except Refusal (List String)
  | [] => .ok []
  | .str s :: vs => do return s :: (← optionTexts (position + 1) vs)
  | v :: _ => .error (.notText position v.kindName)

/-- A drop-down list, its options in a list or in one text. -/
def select (options : Json := Default.options) (others : Json.Members := []) :
    Except Refusal (Minted → Check (Component Id × Minted)) :=
  match options with
  | .null => .ok (leaf .select [] others)
  | .arr vs => do
    let joined := ", ".intercalate (← optionTexts 0 vs)
    return leaf .select [] (Keyed.put "options" (.str joined) others)
  | v => .ok (leaf .select [] (Keyed.put "options" v others))

/-- A picture. -/
def image (src : Json) (alt : Json := Default.alt) (others : Json.Members := []) :
    Minted → Check (Component Id × Minted) :=
  leaf .image [("src", src), ("alt", alt)] others

/-- Whether a value holds nothing: no value, zero, or an empty text, list or object. -/
def isVoid : Json → Bool
  | .null => true
  | .bool b => !b
  | .int n => n == 0
  | .float x => x.toInt? == some 0
  | .str s => s.isEmpty
  | .arr vs => vs.isEmpty
  | .obj ms => ms.isEmpty

/-- A component with markup of its own. -/
def custom (name : Json) (template : Json := Default.template) (props : Json := Default.props) :
    Minted → Check (Component Id × Minted) :=
  let props := if isVoid props then .obj [] else props
  leaf .custom [("name", name), ("template", template), ("props", props)] []

/-- A tree that is finished keeps its identities. -/
def asDraft (c : Component Id) : Draft := c.map some

/-- A container around finished children. -/
def container (children : Forest Id) (layout : Option Layout := Default.layout)
    (others : Json.Members := []) : Minted → Check (Component Id × Minted) :=
  make .container (("layout", (layout.getD Layout.default).record) :: others)
    (.ok (children.map asDraft))

/-- A card around finished children. -/
def card (children : Forest Id) (others : Json.Members := []) :
    Minted → Check (Component Id × Minted) :=
  make .card others (.ok (children.map asDraft))

end PageDesign.Shorthand
