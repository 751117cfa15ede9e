/-
# PageDesign.Forest.Address -- places in a forest

An address names a place in a forest: the positions that lead from the roots down to the
sequence in which the place is, and the position in that sequence.  Every operation on a
component finds its address first; the component meant by an identity is the first one in
pre-order that has it.
-/
import PageDesign.Forest.Walk

namespace PageDesign

/-- A place in a forest. -/
structure Address where
  /-- The positions of the branches on the way, from the roots down. -/
  owner : List Nat
  /-- The position in the sequence of the last of them. -/
  index : Nat
  deriving DecidableEq, Repr, Inhabited

/-- An address seen from one branch further up. -/
def Address.below (i : Nat) (a : Address) : Address := { a with owner := i :: a.owner }

/-- The address of the component at an address, as the owner of others. -/
def Address.path (a : Address) : List Nat := a.owner ++ [a.index]

namespace Forest

variable {ι : Type}

/-! ## Sequences -/

/-- The sequence to which positions lead: the roots for none. -/
def sequence? : List Nat → Forest ι → Option (Forest ι)
  | [], f => some f
  | i :: path, f => (f[i]?).bind fun c => sequence? path c.children

/-- The component at an address. -/
def at? (f : Forest ι) (a : Address) : Option (Component ι) :=
  (sequence? a.owner f).bind fun siblings => siblings[a.index]?

/-- A forest in which the sequence at the end of some positions is edited. -/
def editSequence (edit : Forest ι → Forest ι) : List Nat → Forest ι → Forest ι
  | [], f => edit f
  | i :: path, f => f.modify i fun c => c.withChildren (editSequence edit path c.children)

/-! ## Looking for an identity -/

variable [DecidableEq ι]

mutual

/-- The first place with an identity in the tree that stands at position `i`. -/
def locateIn (id : ι) (i : Nat) : Component ι → Option Address
  | .leaf j _ _ => if j = id then some ⟨[], i⟩ else none
  | .branch j _ _ cs =>
    if j = id then some ⟨[], i⟩ else (locateFrom id 0 cs).map (Address.below i)

/-- The first place with an identity among siblings, the first of which is at position `i`. -/
def locateFrom (id : ι) (i : Nat) : Forest ι → Option Address
  | [] => none
  | c :: cs =>
    match locateIn id i c with
    | some a => some a
    | none => locateFrom id (i + 1) cs

end

/-- The first place in pre-order that has an identity. -/
def locate? (f : Forest ι) (id : ι) : Option Address := locateFrom id 0 f

/-- Whether an identity occurs. -/
def contains (f : Forest ι) (id : ι) : Bool := (f.locate? id).isSome

/-- The first component in pre-order that has an identity. -/
def get? (f : Forest ι) (id : ι) : Option (Component ι) := (f.locate? id).bind f.at?

/-- The owner of the first component in pre-order that has a child with an identity. -/
def parentOf? (f : Forest ι) (id : ι) : Option ι :=
  (f.nodes.find? fun c => c.children.any (·.id = id)).map (·.id)

end Forest

/-! ## The way to a component -/

/-- One step of the way from a root down to a component. -/
structure Crumb (ι : Type) where
  id : ι
  kind : Kind
  /-- The position among its siblings. -/
  index : Nat
  /-- The short label of the component. -/
  name : String
  deriving DecidableEq, Repr

namespace Crumb

variable {ι : Type}

/-- The step to a component at a position. -/
def ofComponent (c : Component ι) (index : Nat) : Crumb ι := ⟨c.id, c.kind, index, c.displayName⟩

/-- The sign of a kind. -/
def icon (c : Crumb ι) : String :=
  match c.kind with
  | .button => "🔘"
  | .text => "📝"
  | .input => "📝"
  | .select => "🔽"
  | .image => "🖼️"
  | .container => "📦"
  | .card => "🃏"
  | .custom => "⚡"

/-- The kind and the position, counted from one. -/
def displayName (c : Crumb ι) : String :=
  Choice.label c.kind ++ " #" ++ toString (c.index + 1)

end Crumb

namespace Forest

variable {ι : Type} [DecidableEq ι]

mutual

/-- The way to the first component with an identity in the tree that stands at position `i`. -/
def crumbsIn (id : ι) (i : Nat) : Component ι → Option (List (Crumb ι))
  | .leaf j a l => if j = id then some [Crumb.ofComponent (.leaf j a l) i] else none
  | .branch j a f cs =>
    let here := Crumb.ofComponent (.branch j a f cs) i
    if j = id then some [here] else (crumbsFrom id 0 cs).map (here :: ·)

/-- The way to the first component with an identity among siblings, the first of which is at
position `i`. -/
def crumbsFrom (id : ι) (i : Nat) : Forest ι → Option (List (Crumb ι))
  | [] => none
  | c :: cs =>
    match crumbsIn id i c with
    | some path => some path
    | none => crumbsFrom id (i + 1) cs

end

/-- The way from a root down to the first component in pre-order that has an identity. -/
def crumbs? (f : Forest ι) (id : ι) : Option (List (Crumb ι)) := crumbsFrom id 0 f

end Forest

end PageDesign
