/-
# PageDesign.Document.Text -- documents and components as text

A document is stored as an object with its components and its selection.  A component that is
copied is written as one object; pasting reads such an object out of any text and puts in a
copy of it under fresh identities.
-/
import PageDesign.Document.Basic

namespace PageDesign

/-! ## Storage -/

/-- Why a stored document is refused. -/
inductive OpenError where
  | text (e : Json.ExtractError)
  | schema (issues : List Schema.Issue)
  | rules (e : Offence)
  | capacity (e : History.CapacityError)

namespace Document

/-- A document as an object. -/
def toJson (d : Document) : Json :=
  .obj [("components", Component.recordAll d.components), ("selected", Json.ofText? d.selected)]

/-- A document as text. -/
def toText (d : Document) (indent : Int := 0) : String := d.toJson.dump indent

open Schema in
/-- The components and the selection that are stored in a value. -/
def readStored (v : Json) : Check (List Draft × Option Id) :=
  match v with
  | .obj ms =>
    Prod.mk
      <$> field ms "components" [] Draft.readForest
      <*> field ms "selected" none (optional text)
  | _ => .fault (.notModel "DocumentData")

/-- A document from a stored value.  A selection that does not occur is given up. -/
def ofJson (v : Json) (capacity : Option Int) (n : Minted) :
    Except OpenError (Document × Minted) :=
  match readStored v with
  | .fail issues => .error (.schema issues)
  | .ok (drafts, selected) =>
    let (components, n) := Component.fillForest drafts n
    match components.validate with
    | .error e => .error (.rules e)
    | .ok () =>
      match ofForest components (selected.filter components.contains) capacity with
      | .ok d => .ok (d, n)
      | .error e => .error (.capacity e)

/-- A document from stored text. -/
def ofText (s : String) (capacity : Option Int) (n : Minted) :
    Except OpenError (Document × Minted) :=
  match Json.extractObject s false with
  | .error e => .error (.text e)
  | .ok ms => ofJson (.obj ms) capacity n

/-- Whether a document that is written and opened again is written the same. -/
def roundTrips (d : Document) (indent : Int) (n : Minted) : Except OpenError Bool :=
  (ofText (d.toText indent) none n).map fun (again, _) => again.toText indent == d.toText indent

/-! ## The clipboard -/

/-- A component as text. -/
def copy? (d : Document) (id : Id) : Option String :=
  (d.components.get? id).map fun c => c.record.dump

/-- The component in a text, under fresh identities. -/
def readCopy (payload : String) (n : Minted) : Except OpenError (Component Id × Minted) :=
  match Json.extractObject payload true with
  | .error e => .error (.text e)
  | .ok ms =>
    match Component.loadOne (.obj ms) n with
    | .fail issues => .error (.schema issues)
    | .ok (c, n) => .ok (c.remint n)

/-- The refusal of a parent that cannot hold children. -/
def cannotHold (parent : Id) : Offence :=
  .invalidProperty "parent_id" ("'" ++ parent ++ "' cannot hold children")

/-- Puts in the component of a text, at the end of the roots or of a branch's children.  The
answer has its identity. -/
def paste (d : Document) (payload : String) (parent : Option Id) (n : Minted) :
    Except OpenError (Except Offence (Id × Document) × Minted) := do
  let (c, n) ← readCopy payload n
  let placed : Except Offence (Id × Document) :=
    match parent with
    | none => (d.addRoot c).map (c.id, ·)
    | some id =>
      match d.addChild id c with
      | .error e => .error e
      | .ok none => .error (cannotHold id)
      | .ok (some d) => .ok (c.id, d)
  return (placed, n)

end Document

end PageDesign
