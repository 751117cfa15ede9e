/-
# PageDesign.Proofs.Forest.Preorder -- walks list a forest in pre-order

A walk works through a list of what is still to visit; the order that it is meant to follow is
given by recursion (`Forest.preorder`).  Both are the same list: `walk_eq_preorder`.  From it
come the equations by which everything listed by a walk (the components, their identities,
their number) is computed from the parts of a forest.

`parts` lists the components with their children left out.  It is what an edit somewhere in a
forest moves about but does not change, so statements about edits are made of it.
-/
import Mathlib.Data.List.Nodup
import PageDesign.Forest.Walk

namespace PageDesign

variable {ι κ : Type}

namespace Component

/-- A component without its children. -/
def bare (c : Component ι) : Component ι := c.withChildren []

@[simp] theorem id_bare (c : Component ι) : c.bare.id = c.id := id_withChildren [] c

@[simp] theorem bare_withChildren (cs : Forest ι) (c : Component ι) :
    (c.withChildren cs).bare = c.bare := by
  cases c <;> rfl

@[simp] theorem withChildren_children (c : Component ι) : c.withChildren c.children = c := by
  cases c <;> rfl

@[simp] theorem withChildren_withChildren (c : Component ι) (cs ds : Forest ι) :
    (c.withChildren cs).withChildren ds = c.withChildren ds := by
  cases c <;> rfl

end Component

namespace Forest

/-! ## Induction over forests -/

/-- A property of the empty forest that passes from the children of the first root and from
the other roots to the whole holds of every forest. -/
theorem induction {motive : Forest ι → Prop} (nil : motive [])
    (cons : ∀ (c : Component ι) (cs : Forest ι),
      motive c.children → motive cs → motive (c :: cs)) :
    ∀ f : Forest ι, motive f
  | [] => nil
  | c :: cs => cons c cs (induction nil cons c.children) (induction nil cons cs)
termination_by f => Component.sizeForest f
decreasing_by
  all_goals
    have := Component.size_eq c
    simp only [Component.sizeForest]
    omega

/-- A property that passes from the children of all roots to a forest holds of every forest. -/
theorem induction_children {motive : Forest ι → Prop}
    (step : ∀ f : Forest ι, (∀ c ∈ f, motive c.children) → motive f) (f : Forest ι) :
    motive f := by
  refine step f ?_
  induction f using Forest.induction with
  | nil => simp
  | cons c cs ihc ihcs =>
      intro d hd
      rcases List.mem_cons.mp hd with rfl | hd
      · exact step _ ihc
      · exact ihcs d hd

/-! ## The order by recursion -/

theorem preorderOf_eq (d : Nat) (c : Component ι) :
    preorderOf d c = (c, d) :: preorder (d + 1) c.children := by
  cases c <;> simp [preorderOf, Component.children, preorder]

theorem preorder_cons (d : Nat) (c : Component ι) (cs : Forest ι) :
    preorder d (c :: cs) = (c, d) :: (preorder (d + 1) c.children ++ preorder d cs) := by
  rw [preorder, preorderOf_eq, List.cons_append]

theorem preorder_append (d : Nat) (f g : Forest ι) :
    preorder d (f ++ g) = preorder d f ++ preorder d g := by
  induction f with
  | nil => rfl
  | cons c cs ih => simp only [List.cons_append, preorder_cons, ih, List.append_assoc]

theorem preorder_eq_flatMap (d : Nat) (f : Forest ι) :
    preorder d f = f.flatMap (preorderOf d) := by
  induction f with
  | nil => rfl
  | cons c cs ih => rw [preorder, ih, List.flatMap_cons]

/-- The depth at which a listing begins has no say in what is listed. -/
theorem map_fst_preorder (d e : Nat) (f : Forest ι) :
    (preorder d f).map (·.1) = (preorder e f).map (·.1) := by
  induction f using Forest.induction generalizing d e with
  | nil => rfl
  | cons c cs ihc ihcs =>
      simp only [preorder_cons, List.map_cons, List.map_append]
      rw [ihc (d + 1) (e + 1), ihcs d e]

/-! ## Walks -/

/-- What is still to visit is visited tree by tree. -/
theorem walkFrom_eq (todo : List (Component ι × Nat)) :
    walkFrom todo = todo.flatMap fun x => preorderOf x.2 x.1 := by
  induction todo using walkFrom.induct with
  | case1 => rw [walkFrom, List.flatMap_nil]
  | case2 c d todo ih =>
      rw [walkFrom, ih, List.flatMap_append, List.flatMap_cons, preorderOf_eq,
        preorder_eq_flatMap, List.flatMap_map, List.cons_append]

/-- A walk through a forest is its listing in pre-order. -/
theorem walk_eq_preorder (f : Forest ι) : f.walk = preorder 0 f := by
  rw [walk, walkFrom_eq, List.flatMap_map, preorder_eq_flatMap]

theorem nodes_eq (d : Nat) (f : Forest ι) : f.nodes = (preorder d f).map (·.1) := by
  rw [nodes, walk_eq_preorder, map_fst_preorder 0 d]

@[simp] theorem nodes_nil : nodes ([] : Forest ι) = [] := by
  rw [nodes_eq 0, preorder, List.map_nil]

theorem nodes_cons (c : Component ι) (cs : Forest ι) :
    nodes (c :: cs) = c :: (nodes c.children ++ nodes cs) := by
  rw [nodes_eq 0, preorder_cons, List.map_cons, List.map_append, ← nodes_eq, ← nodes_eq]

@[simp] theorem nodes_append (f g : Forest ι) : nodes (f ++ g) = nodes f ++ nodes g := by
  simp only [nodes_eq 0, preorder_append, List.map_append]

@[simp] theorem ids_nil : ids ([] : Forest ι) = [] := by simp [ids]

theorem ids_cons (c : Component ι) (cs : Forest ι) :
    ids (c :: cs) = c.id :: (ids c.children ++ ids cs) := by
  simp [ids, nodes_cons]

@[simp] theorem ids_append (f g : Forest ι) : ids (f ++ g) = ids f ++ ids g := by
  simp [ids]

/-! ## Components apart from their children -/

/-- The components of a forest in pre-order, each without its children and with its depth. -/
def entries (d : Nat) (f : Forest ι) : List (Component ι × Nat) :=
  (preorder d f).map fun x => (x.1.bare, x.2)

@[simp] theorem entries_nil (d : Nat) : entries d ([] : Forest ι) = [] := rfl

theorem entries_cons (d : Nat) (c : Component ι) (cs : Forest ι) :
    entries d (c :: cs) = (c.bare, d) :: (entries (d + 1) c.children ++ entries d cs) := by
  simp [entries, preorder_cons]

@[simp] theorem entries_append (d : Nat) (f g : Forest ι) :
    entries d (f ++ g) = entries d f ++ entries d g := by
  simp [entries, preorder_append]

/-- The components of a forest in pre-order, each without its children. -/
def parts (f : Forest ι) : List (Component ι) := f.nodes.map Component.bare

theorem map_fst_entries (d : Nat) (f : Forest ι) : (entries d f).map (·.1) = f.parts := by
  rw [entries, parts, nodes_eq d, List.map_map, List.map_map]
  rfl

@[simp] theorem parts_nil : parts ([] : Forest ι) = [] := by simp [parts]

theorem parts_cons (c : Component ι) (cs : Forest ι) :
    parts (c :: cs) = c.bare :: (parts c.children ++ parts cs) := by
  simp [parts, nodes_cons]

@[simp] theorem parts_append (f g : Forest ι) : parts (f ++ g) = parts f ++ parts g := by
  simp [parts]

theorem parts_eq_flatMap (f : Forest ι) : parts f = f.flatMap fun c => parts [c] := by
  induction f with
  | nil => simp
  | cons c cs ih => simp [List.flatMap_cons, ← ih, parts_cons c]

theorem ids_eq_map_parts (f : Forest ι) : f.ids = f.parts.map (·.id) := by
  simp [ids, parts]

/-! ## Components of a tree -/

section Tree

variable {f : Forest ι} {c d : Component ι}

/-- What is below a component of a forest is in the forest. -/
theorem mem_nodes_of_mem_nodes (hc : c ∈ f.nodes) (hd : d ∈ nodes [c]) : d ∈ f.nodes := by
  induction f using Forest.induction with
  | nil => simp at hc
  | cons e cs ihe ihcs =>
      rw [nodes_cons, List.mem_cons, List.mem_append] at hc ⊢
      rcases hc with rfl | hc | hc
      · rw [nodes_cons, nodes_nil, List.append_nil, List.mem_cons] at hd
        rcases hd with rfl | hd
        · exact .inl rfl
        · exact .inr (.inl hd)
      · exact .inr (.inl (ihe hc))
      · exact .inr (.inr (ihcs hc))

theorem mem_ids_singleton {id : ι} : id ∈ ids [c] ↔ id = c.id ∨ id ∈ ids c.children := by
  rw [ids_cons, ids_nil, List.append_nil, List.mem_cons]

theorem mem_ids_of_mem_nodes (hc : c ∈ f.nodes) {id : ι} (hid : id ∈ ids [c]) : id ∈ f.ids := by
  obtain ⟨d, hd, rfl⟩ := List.mem_map.mp hid
  exact List.mem_map_of_mem (mem_nodes_of_mem_nodes hc hd)

/-- Where no identity occurs twice, a component is in a tree exactly if its identity is. -/
theorem mem_ids_iff_mem_nodes (hf : f.ids.Nodup) (hc : c ∈ f.nodes) (hd : d ∈ f.nodes) :
    d.id ∈ ids [c] ↔ d ∈ nodes [c] := by
  constructor
  · intro h
    obtain ⟨e, he, hid⟩ := List.mem_map.mp h
    have hsame : e = d :=
      List.inj_on_of_nodup_map hf (mem_nodes_of_mem_nodes hc he) hd hid
    rwa [← hsame]
  · exact List.mem_map_of_mem

end Tree

end Forest

end PageDesign
