/-
# PageDesign.Forest.Walk -- visiting every component

A walk visits each component before those below it, and siblings from left to right.  `walk`
lists the components with their depth; `events` also tells where a branch ends.  Both work
through a list of what is still to visit, so that no depth of nesting is too great.
`preorder` says by recursion what a walk lists.
-/
import PageDesign.Component.Basic

namespace PageDesign

variable {ι : Type}

/-! ## Sizes -/

namespace Component

theorem size_eq (c : Component ι) : c.size = sizeForest c.children + 1 := by
  cases c <;> simp [size, children, sizeForest]

theorem sizeForest_append (cs ds : Forest ι) :
    sizeForest (cs ++ ds) = sizeForest cs + sizeForest ds := by
  induction cs with
  | nil => simp [sizeForest]
  | cons c cs ih => simp [sizeForest, ih, Nat.add_assoc]

end Component

namespace Forest

/-! ## The order of a walk, by recursion -/

mutual

/-- The components of a tree with their depth, the root at depth `d`. -/
def preorderOf (d : Nat) : Component ι → List (Component ι × Nat)
  | .leaf i a l => [(.leaf i a l, d)]
  | .branch i a f cs => (.branch i a f cs, d) :: preorder (d + 1) cs

/-- The components of a forest with their depth, the roots at depth `d`. -/
def preorder (d : Nat) : Forest ι → List (Component ι × Nat)
  | [] => []
  | c :: cs => preorderOf d c ++ preorder d cs

end

/-! ## Walks -/

/-- The number of components in trees that are still to visit. -/
def pending (todo : List (Component ι × Nat)) : Nat := Component.sizeForest (todo.map (·.1))

/-- Visits trees, each at its depth. -/
def walkFrom : List (Component ι × Nat) → List (Component ι × Nat)
  | [] => []
  | (c, d) :: todo => (c, d) :: walkFrom (c.children.map (·, d + 1) ++ todo)
termination_by todo => pending todo
decreasing_by
  simp only [pending, List.map_append, List.map_map, Component.sizeForest_append, List.map_cons,
    Component.sizeForest, Component.size_eq c]
  have : (fun c : Component ι => c) = Prod.fst ∘ fun x => (x, d + 1) := rfl
  rw [← this, List.map_id']
  omega

/-- Every component with its depth, in pre-order. -/
def walk (f : Forest ι) : List (Component ι × Nat) := walkFrom (f.map (·, 0))

/-- Every component, in pre-order. -/
def nodes (f : Forest ι) : List (Component ι) := f.walk.map (·.1)

/-- The identities of all components, in pre-order. -/
def ids (f : Forest ι) : List ι := f.nodes.map (·.id)

/-- The number of components. -/
def count (f : Forest ι) : Nat := f.walk.length

/-! ## Events -/

/-- What happens on the way: a leaf, the start of a branch or its end. -/
inductive EventKind where
  | leaf
  | enter
  | exit
  deriving DecidableEq, Repr

instance : Choice EventKind where
  all := [.leaf, .enter, .exit]
  name
    | .leaf => "leaf"
    | .enter => "enter"
    | .exit => "exit"

/-- A step on the way through a forest. -/
structure Event (ι : Type) where
  kind : EventKind
  node : Component ι
  depth : Nat

/-- What is still to do: a tree to visit, or a branch to leave. -/
inductive Visit (ι : Type) where
  | enter (node : Component ι) (depth : Nat)
  | leave (node : Component ι) (depth : Nat)

/-- A tree to visit takes at most two steps for each of its components. -/
def Visit.weight : Visit ι → Nat
  | enter c _ => 2 * c.size
  | leave _ _ => 1

/-- How many steps at most there are still to do. -/
def Visit.weights : List (Visit ι) → Nat
  | [] => 0
  | v :: vs => v.weight + weights vs

theorem weights_append (vs ws : List (Visit ι)) :
    Visit.weights (vs ++ ws) = Visit.weights vs + Visit.weights ws := by
  induction vs with
  | nil => simp [Visit.weights]
  | cons v vs ih => simp [Visit.weights, ih, Nat.add_assoc]

theorem weights_enter (cs : Forest ι) (d : Nat) :
    Visit.weights (cs.map (Visit.enter · d)) = 2 * Component.sizeForest cs := by
  induction cs with
  | nil => rfl
  | cons c cs ih =>
    simp only [List.map_cons, ih, Visit.weights, Visit.weight, Component.sizeForest]
    omega

/-- The steps through what is still to do. -/
def eventsFrom : List (Visit ι) → List (Event ι)
  | [] => []
  | .leave c d :: todo => ⟨.exit, c, d⟩ :: eventsFrom todo
  | .enter (.leaf i a l) d :: todo => ⟨.leaf, .leaf i a l, d⟩ :: eventsFrom todo
  | .enter (.branch i a f cs) d :: todo =>
    ⟨.enter, .branch i a f cs, d⟩ ::
      eventsFrom (cs.map (.enter · (d + 1)) ++ .leave (.branch i a f cs) d :: todo)
termination_by todo => Visit.weights todo
decreasing_by
  · simp [Visit.weights, Visit.weight]
  · simp [Visit.weights, Visit.weight, Component.size]
  · have hcs : cs.attach.map (fun x => Visit.enter x.val (d + 1)) =
        cs.map (Visit.enter · (d + 1)) :=
      List.attach_map_val (l := cs) (f := fun c => Visit.enter c (d + 1))
    rw [hcs, weights_append, weights_enter]
    simp only [Visit.weights, Visit.weight, Component.size]
    omega

/-- The steps through a forest whose roots are at depth `depth`. -/
def events (f : Forest ι) (depth : Nat := 0) : List (Event ι) :=
  eventsFrom (f.map (.enter · depth))

end Forest

end PageDesign
