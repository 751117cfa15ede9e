/-
# PageDesign.Document.Basic -- the design that is edited

A document holds a forest, the selected component and the history of both.  Every recorded
change follows one order: what comes in is checked, the change is tried, and only a change
that happened leaves an undo point with the state from before.  A change that is refused
leaves the document as it was.

Changes that bring in copies draw fresh identities; they take the number drawn so far and
return the new one.
-/
import PageDesign.Component.Validate
import PageDesign.Component.Patch
import PageDesign.Forest.Edit
import PageDesign.History
import PageDesign.Json.Extract
import PageDesign.Template.Basic

namespace PageDesign

/-- The state of a document at one time, with the words for the change that followed. -/
structure Snapshot where
  components : Forest Id
  selected : Option Id
  description : String

/-- A design with its selection and its history. -/
structure Document where
  components : Forest Id
  selected : Option Id
  history : History Snapshot

namespace Document

/-! ## Making documents -/

/-- A document around a forest.  No capacity, or a capacity of zero, means the default. -/
def ofForest (components : Forest Id) (selected : Option Id) (capacity : Option Int) :
    Except History.CapacityError Document :=
  let wanted := match capacity with
    | some n => if n = 0 then (History.defaultCapacity : Int) else n
    | none => History.defaultCapacity
  (History.ofCapacity wanted).map fun h => ⟨components, selected, h⟩

/-- A document without components. -/
def empty (capacity : Nat := History.defaultCapacity) : Document :=
  ⟨[], none, History.empty capacity⟩

/-! ## Undo points -/

/-- The present state. -/
def snapshot (d : Document) (description : String := "") : Snapshot :=
  ⟨d.components, d.selected, description⟩

/-- Records the present state as an undo point. -/
def record (d : Document) (description : String) : Document :=
  { d with history := d.history.push (d.snapshot description) }

/-- Takes over a state, with the history that goes with it. -/
def restore (d : Document) (s : Snapshot) (h : History Snapshot) : Document :=
  { d with components := s.components, selected := s.selected, history := h }

/-- Takes back the last change, if there is one. -/
def undo? (d : Document) : Option Document :=
  (d.history.undo? d.snapshot).map fun (s, h) => d.restore s h

/-- Makes the change that was last taken back, if there is one. -/
def redo? (d : Document) : Option Document :=
  (d.history.redo? d.snapshot).map fun (s, h) => d.restore s h

/-- Goes back to an undo point by its position, the newest at zero. -/
def restoreTo? (d : Document) (index : Int) : Option Document :=
  (d.history.restoreTo? index d.snapshot).map fun (s, h) => d.restore s h

/-! ## Selection -/

/-- Selects a component, or none.  An identity that does not occur cannot be selected. -/
def select? (d : Document) : Option Id → Option Document
  | none => some { d with selected := none }
  | some id => if d.components.contains id then some { d with selected := some id } else none

/-- The selected identity, unless it is the empty text. -/
def selection? (d : Document) : Option Id := d.selected.filter fun id => !id.isEmpty

/-- The selected component. -/
def selectedComponent? (d : Document) : Option (Component Id) :=
  d.selection?.bind d.components.get?

/-! ## Checks -/

/-- Checks a tree that is to come in: its components obey their rules and its identities are
free.  A tree that it replaces gives its identities free. -/
def checkIncoming (d : Document) (c : Component Id) (replacing : Option Id := none) :
    Except Offence Unit := do
  c.validate
  let freed := ((replacing.bind d.components.get?).map fun old => Forest.ids [old]).getD []
  c.checkUnique (d.components.ids.filter fun i => !freed.contains i)

/-! ## Changes -/

/-- Puts a component at the end of the roots. -/
def addRoot (d : Document) (c : Component Id) : Except Offence Document := do
  d.checkIncoming c
  return { d.record "Add Component" with components := d.components.addRoot c }

/-- Puts a component at the end of the roots, unchecked and unrecorded. -/
def addRootUnrecorded (d : Document) (c : Component Id) : Document :=
  { d with components := d.components.addRoot c }

/-- Puts a component at the end of a branch's children.  Nothing happens without such a
branch. -/
def addChild (d : Document) (parent : Id) (c : Component Id) :
    Except Offence (Option Document) := do
  d.checkIncoming c
  return (d.components.addChild? parent c).map fun f =>
    { d.record "Add Child Component" with components := f }

/-- Puts a component at the end of a branch's children, unchecked and unrecorded. -/
def addChildUnrecorded? (d : Document) (parent : Id) (c : Component Id) : Option Document :=
  (d.components.addChild? parent c).map fun f => { d with components := f }

/-- Removes a component with all below it.  A selection inside is given up. -/
def remove? (d : Document) (id : Id) : Option Document :=
  (d.components.remove? id).map fun (removed, f) =>
    let inside := (d.selection?.map (Forest.contains [removed])).getD false
    { d.record "Remove Component" with
      components := f
      selected := if inside then none else d.selected }

/-- Puts a component in the place of another, under the identity of that one. -/
def commit (d : Document) (id : Id) (c : Component Id) (description : String) :
    Except Offence (Option Document) := do
  let candidate := c.withId id
  d.checkIncoming candidate (some id)
  return (d.components.replace? id candidate).map fun f =>
    { d.record description with components := f }

/-- Replaces a component; the new one takes over the identity.  Nothing happens when the
identity does not occur. -/
def replace (d : Document) (id : Id) (c : Component Id) : Except Offence (Option Document) :=
  if d.components.contains id then d.commit id c "Replace Component" else .ok none

/-- Changes a component in its place; its identity stays.  Nothing happens when the identity
does not occur. -/
def update (d : Document) (id : Id) (change : Component Id → Component Id) :
    Except Offence (Option Document) :=
  match d.components.get? id with
  | none => .ok none
  | some c => d.commit id (change c) "Update Component"

/-- Exchanges a component with the sibling some positions away. -/
def move? (d : Document) (id : Id) (offset : Int) : Option Document :=
  let description := if offset < 0 then "Move Component Up" else "Move Component Down"
  (d.components.move? id offset).map fun f => { d.record description with components := f }

/-- Moves a component among the roots or among a branch's children. -/
def moveTo? (d : Document) (id : Id) (parent : Option Id) (index : Int) : Option Document :=
  (d.components.moveTo? id parent index).map fun f =>
    { d.record "Move Component" with components := f }

/-- Puts a copy of a component right after it.  The answer has the copy's identity. -/
def duplicate? (d : Document) (id : Id) (n : Minted) : Option (Id × Document × Minted) := do
  let source ← d.components.get? id
  let path ← d.components.crumbs? id
  let last ← path.getLast?
  let (copy, n) := source.remint n
  let parent := (path.dropLast.getLast?).map (·.id)
  let recorded := d.record "Duplicate Component"
  let f := (d.components.insertChildAt? parent (last.index + 1) copy).getD d.components
  return (copy.id, { recorded with components := f }, n)

/-- Puts a copy of a template at the end of the roots, as a single change.  The answer has
the identities of the new roots. -/
def applyTemplate (d : Document) (t : Template) (n : Minted) : List Id × Document × Minted :=
  let (copies, n) := t.instantiate n
  let recorded := d.record ("Apply Template: " ++ t.name)
  (copies.map (·.id), copies.foldl addRootUnrecorded recorded, n)

/-- Removes everything.  A document without components stays as it is. -/
def clear (d : Document) : Document :=
  if d.components.isEmpty then d
  else { d.record "Clear Canvas" with components := [], selected := none }

end Document

end PageDesign
