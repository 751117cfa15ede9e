/-
# PageDesign.Forest.Edit -- changing a forest

Every change edits one sequence of siblings.  Changes that name a component by its identity
mean the first one in pre-order, and yield nothing when there is none or when it cannot take
the change; the forest then stays as it is.
-/
import PageDesign.Forest.Address

namespace PageDesign.Forest

variable {ι : Type}

/-! ## Siblings -/

/-- Siblings with a component put in at a position, which is clamped to the ends. -/
def insertClamped (index : Int) (c : Component ι) (siblings : Forest ι) : Forest ι :=
  let i := min index.toNat siblings.length
  siblings.take i ++ c :: siblings.drop i

/-- Siblings with two of them exchanged. -/
def swap (i j : Nat) (siblings : Forest ι) : Forest ι :=
  match siblings[i]?, siblings[j]? with
  | some c, some d => (siblings.set i d).set j c
  | _, _ => siblings

/-! ## Changes by address -/

/-- A forest without the tree at an address. -/
def removeAt (f : Forest ι) (a : Address) : Forest ι :=
  editSequence (·.eraseIdx a.index) a.owner f

/-- A forest with another tree at an address. -/
def replaceAt (f : Forest ι) (a : Address) (c : Component ι) : Forest ι :=
  editSequence (·.set a.index c) a.owner f

/-! ## Changes by identity -/

/-- A forest with another root at the end. -/
def addRoot (f : Forest ι) (c : Component ι) : Forest ι := f ++ [c]

variable [DecidableEq ι]

/-- The address of the branch with an identity, unless it is missing or a leaf. -/
def branch? (f : Forest ι) (id : ι) : Option Address :=
  (f.locate? id).filter fun a => ((f.at? a).map Component.isBranch).getD false

/-- Puts a component at the end of a branch's children. -/
def addChild? (f : Forest ι) (parent : ι) (c : Component ι) : Option (Forest ι) :=
  (f.branch? parent).map fun a => editSequence (· ++ [c]) a.path f

/-- Puts a component among the roots, or among a branch's children, at a clamped position. -/
def insertChildAt? (f : Forest ι) (parent : Option ι) (index : Int) (c : Component ι) :
    Option (Forest ι) :=
  match parent with
  | none => some (insertClamped index c f)
  | some id => (f.branch? id).map fun a => editSequence (insertClamped index c) a.path f

/-- Takes a component out with all below it. -/
def remove? (f : Forest ι) (id : ι) : Option (Component ι × Forest ι) := do
  let a ← f.locate? id
  let c ← f.at? a
  return (c, f.removeAt a)

/-- Puts a tree in the place of a component. -/
def replace? (f : Forest ι) (id : ι) (c : Component ι) : Option (Forest ι) :=
  (f.locate? id).map fun a => f.replaceAt a c

/-- Changes a component in its place. -/
def update? (f : Forest ι) (id : ι) (change : Component ι → Component ι) :
    Option (Forest ι) := do
  let a ← f.locate? id
  let c ← f.at? a
  return f.replaceAt a (change c)

/-- Exchanges a component with the sibling some positions away, if there is one. -/
def move? (f : Forest ι) (id : ι) (offset : Int) : Option (Forest ι) := do
  let a ← f.locate? id
  let siblings ← sequence? a.owner f
  let target := (a.index : Int) + offset
  if offset = 0 ∨ target < 0 ∨ (siblings.length : Int) ≤ target then none
  else return editSequence (swap a.index target.toNat) a.owner f

/-- Whether a component may move below another one: it is a branch, and not part of what
moves. -/
def mayHold (f : Forest ι) (moving : Component ι) (parent : ι) : Bool :=
  !(contains [moving] parent) && (f.branch? parent).isSome

/-- Moves a component among the roots, or among a branch's children, at a clamped position.
It cannot move below itself or below a leaf. -/
def moveTo? (f : Forest ι) (id : ι) (parent : Option ι) (index : Int) : Option (Forest ι) := do
  let moving ← f.get? id
  if (parent.map (f.mayHold moving)).getD true then
    let (c, rest) ← f.remove? id
    rest.insertChildAt? parent index c
  else none

end PageDesign.Forest
