/-
# PageDesign.Proofs.Forest.Breadcrumbs -- the way to a component and its parent agree

The way to a component is searched for by a loop that keeps the steps passed so far with every
sequence of siblings on its stack.  The parent is looked up by a walk that stops at the first
component with such a child.  Neither knows of the other.

Where no identity occurs twice they agree (`breadcrumbs_agree`).  A way that is found is the only
trail down to the component, and as long as the component is deep; every step but the last is for a
branch with another identity, and the last step but one is for the parent.
-/
import PageDesign.Proofs.Forest.Trail
import PageDesign.Proofs.Forest.Traversal

namespace PageDesign.Forest

open Loop (Ends Slot siblingTurn slotsFrom seek)

variable {ι : Type}

/-! ## Trails -/

namespace Trail

variable {f : Forest ι} {path : List Nat} {c : Component ι} {crumbs : List (Crumb ι)}

theorem length_eq (h : Trail f path c crumbs) : crumbs.length = path.length := by
  induction h with
  | last => rfl
  | step _ _ ih => rw [List.length_cons, List.length_cons, ih]

theorem crumbs_ne_nil (h : Trail f path c crumbs) : crumbs ≠ [] := by
  cases h <;> exact List.cons_ne_nil _ _

/-- The first step is for a root. -/
theorem root {x : Crumb ι} {post : List (Crumb ι)} (h : Trail f path c (x :: post)) :
    ∃ m, f[x.index]? = some m ∧ x = Crumb.ofComponent m x.index := by
  cases h with
  | last hi => exact ⟨_, hi, rfl⟩
  | step hi _ => exact ⟨_, hi, rfl⟩

/-- A component with a trail below it is a branch. -/
theorem isBranch {d : Component ι} (h : Trail d.children path c crumbs) : d.isBranch = true := by
  apply Component.isBranch_of_children
  intro hnil
  rw [hnil] at h
  cases h with
  | last hi => cases hi
  | step hi _ => cases hi

/-- Its positions are an address, at which the component stands. -/
theorem exists_holds (h : Trail f path c crumbs) : ∃ a, path = Address.path a ∧ f.Holds a c := by
  induction h with
  | @last f i c hi => exact ⟨⟨[], i⟩, rfl, f, .here f, hi⟩
  | @step f i d c path crumbs hi htrail ih =>
      obtain ⟨a, rfl, s, hs, hindex⟩ := ih
      exact ⟨a.below i, rfl, s, .down hi htrail.isBranch hs, hindex⟩

/-- Every step but the last is for a branch. -/
theorem kind_of_mem_dropLast (h : Trail f path c crumbs) {x : Crumb ι}
    (hx : x ∈ crumbs.dropLast) : x.kind = .container ∨ x.kind = .card := by
  induction h with
  | last => cases hx
  | @step f i d c path crumbs hi htrail ih =>
      rw [List.dropLast_cons_of_ne_nil htrail.crumbs_ne_nil, List.mem_cons] at hx
      rcases hx with rfl | hx
      · exact Component.isBranch_iff.mp htrail.isBranch
      · exact ih hx

/-- Of two steps in a row, the second is for a child of the component that the first is for, at the
position that it tells. -/
theorem adjacent (h : Trail f path c crumbs) {pre post : List (Crumb ι)} {x y : Crumb ι}
    (hsplit : crumbs = pre ++ x :: y :: post) :
    ∃ a m n, f.Holds a m ∧ x = Crumb.ofComponent m a.index ∧ m.children[y.index]? = some n ∧
      y = Crumb.ofComponent n y.index := by
  induction h generalizing pre with
  | last =>
      have hlength := congrArg List.length hsplit
      simp only [List.length_append, List.length_cons, List.length_nil] at hlength
      omega
  | @step f i d c path crumbs hi htrail ih =>
      cases pre with
      | nil =>
          rw [List.nil_append, List.cons.injEq] at hsplit
          obtain ⟨rfl, rfl⟩ := hsplit
          obtain ⟨n, hn, hy⟩ := htrail.root
          exact ⟨⟨[], i⟩, d, n, ⟨f, .here f, hi⟩, rfl, hn, hy⟩
      | cons p pre =>
          rw [List.cons_append, List.cons.injEq] at hsplit
          obtain ⟨a, m, n, ⟨s, hs, hm⟩, hx, hn, hy⟩ := ih hsplit.2
          exact ⟨a.below i, m, n, ⟨s, .down hi htrail.isBranch hs, hm⟩, hx, hn, hy⟩

end Trail

/-- Where no identity occurs twice, a component is the only one with its identity that a walk
visits. -/
theorem mem_walk_iff {f : Forest ι} (hf : f.ids.Nodup) {a : Address} {c : Component ι}
    (hc : f.Holds a c) (x : Component ι × Nat) :
    x ∈ f.walk ∧ x.1.id = c.id ↔ x = (c, a.owner.length) := by
  have hmem : (c, a.owner.length) ∈ f.walk := by
    rw [walk_eq_map_places]
    exact List.mem_map.mpr ⟨(a, c), mem_places_iff.mpr hc, rfl⟩
  constructor
  · rintro ⟨hx, hid⟩
    rw [ids, nodes, List.map_map] at hf
    exact List.inj_on_of_nodup_map hf hx hmem hid
  · rintro rfl
    exact ⟨hmem, rfl⟩

variable [DecidableEq ι]

/-- The search ends at the first component that has the identity, so nothing above has it. -/
theorem crumbsFrom_apart {id : ι} {i : Nat} {f : Forest ι} {crumbs : List (Crumb ι)}
    (h : crumbsFrom id i f = some crumbs) : ∀ x ∈ crumbs.dropLast, x.id ≠ id := by
  induction f using Forest.induction generalizing i crumbs with
  | nil => cases h
  | cons c cs ihc ihcs =>
      rw [crumbsFrom_cons, crumbsIn_eq, Option.or_eq_some_iff] at h
      rcases h with h | ⟨-, h⟩
      · split at h
        next =>
          cases h
          intro x hx
          cases hx
        next hid =>
          obtain ⟨below, hbelow, rfl⟩ := Option.map_eq_some_iff.mp h
          intro x hx
          have hmem : x ∈ Crumb.ofComponent c i :: below.dropLast := by
            cases below with
            | nil => cases hx
            | cons y below => exact hx
          rcases List.mem_cons.mp hmem with rfl | hx
          · exact hid
          · exact ihc hbelow x hx
      · exact ihcs h

/-! ## The loops -/

/-- What the search for a way keeps: the steps down to a component. -/
def passed (way : List (Crumb ι)) (i : Nat) (c : Component ι) : List (Crumb ι) :=
  way ++ [Crumb.ofComponent c i]

/-- The steps down to a component, if it is the one that is searched for. -/
def arrived (id : ι) (x : Slot ι (List (Crumb ι))) : Option (List (Crumb ι)) :=
  if x.node.id = id then some (passed x.way x.index x.node) else none

theorem findSome_arrived (id : ι) (siblings : Forest ι) (i : Nat) (way : List (Crumb ι))
    (f : Forest ι) :
    (slotsFrom passed siblings i way f).findSome? (arrived id) =
      (crumbsFrom id i f).map (way ++ ·) := by
  induction f using Forest.induction generalizing siblings i way with
  | nil => rw [slotsFrom, crumbsFrom, List.findSome?_nil, Option.map_none]
  | cons c cs ihc ihcs =>
      rw [Loop.slotsFrom_cons, List.findSome?_cons, crumbsFrom_cons, crumbsIn_eq]
      by_cases hid : c.id = id
      · have hhere : arrived id ⟨⟨siblings, i, way⟩, c⟩ = some (way ++ [Crumb.ofComponent c i]) :=
          if_pos hid
        rw [hhere, if_pos hid]
        rfl
      · have hhere : arrived id ⟨⟨siblings, i, way⟩, c⟩ = none := if_neg hid
        rw [hhere, if_neg hid, List.findSome?_append, ihc, ihcs]
        -- what is below the component comes before what is behind it
        cases crumbsFrom id 0 c.children with
        | none => rfl
        | some below =>
            simp only [passed, Option.map_some, Option.some_or, List.append_assoc,
              List.singleton_append]

theorem ends_crumbs_iff (f : Forest ι) (id : ι) (r : Option (List (Crumb ι))) :
    Ends (siblingTurn passed (seek (arrived id)) fun _ => none) ((), [⟨f, 0, []⟩]) r ↔
      r = f.crumbs? id := by
  rw [Loop.ends_seek_iff, findSome_arrived, crumbs?]
  simp only [List.nil_append, Option.map_id']

/-- The identity of a component, if a child of it is the one that is searched for. -/
def owning (id : ι) (x : Slot ι Nat) : Option ι :=
  if x.node.children.any (·.id = id) then some x.node.id else none

theorem ends_parent_iff (f : Forest ι) (id : ι) (r : Option ι) :
    Ends (siblingTurn deeper (seek (owning id)) fun _ => none) ((), [⟨f, 0, 0⟩]) r ↔
      r = f.parentOf? id := by
  have howner : f.slots.findSome? (owning id) = f.parentOf? id := by
    unfold owning
    rw [Loop.findSome_if, parentOf?, ← map_node_slots, List.find?_map, Option.map_map]
    rfl
  rw [Loop.ends_seek_iff, ← howner, slots]

/-! ## Agreement -/

/-- A way leads down to the component with an identity, which stands at the address `a`. -/
structure Reaches (f : Forest ι) (id : ι) (crumbs : List (Crumb ι)) (a : Address)
    (c : Component ι) : Prop where
  trail : Trail f a.path c crumbs
  /-- A walk visits the component, and no other one with the identity. -/
  visited : ∀ x, x ∈ f.walk ∧ x.1.id = id ↔ x = (c, a.owner.length)
  length : crumbs.length = a.owner.length + 1
  last : crumbs.getLast? = some (Crumb.ofComponent c a.index)
  /-- Of two steps in a row, the second is for a child of the component that the first is for, at
  the position that it tells. -/
  adjacent : ∀ pre x y post, crumbs = pre ++ x :: y :: post →
    ∃ m n, f.get? x.id = some m ∧ m.children[y.index]? = some n ∧ f.get? y.id = some n ∧
      y = Crumb.ofComponent n y.index
  kinds : ∀ x ∈ crumbs.dropLast, x.kind = .container ∨ x.kind = .card
  apart : ∀ x ∈ crumbs.dropLast, x.id ≠ id
  parent : f.parentOf? id = crumbs.dropLast.getLast?.map (·.id)

theorem Holds.get {f : Forest ι} {a : Address} {c : Component ι} (h : f.Holds a c)
    (hf : f.ids.Nodup) : f.get? c.id = some c :=
  (means_of_find (h.find_places hf)).get

/-- Where no identity occurs twice, the last step but one of a way is for the parent. -/
theorem parentOf_eq_crumbs {f : Forest ι} (hf : f.ids.Nodup) {a : Address} {c : Component ι}
    {crumbs : List (Crumb ι)} (hc : f.Holds a c) (htrail : Trail f a.path c crumbs) :
    crumbs.getLast? = some (Crumb.ofComponent c a.index) ∧
      f.parentOf? c.id = crumbs.dropLast.getLast?.map (·.id) := by
  obtain ⟨s, hs, hi⟩ := hc
  obtain ⟨above, hway⟩ := hs.exists_way
  obtain rfl : crumbs = above ++ [Crumb.ofComponent c a.index] := by
    have hself := hway.trail (fun s => s) a.index c hi
    rw [editSequence_self hs] at hself
    exact htrail.unique hself
  rw [List.getLast?_concat, List.dropLast_concat]
  refine ⟨rfl, ?_⟩
  rcases hway.owned with ⟨howner, rfl⟩ | ⟨path, k, d, howner, hd, hbranch, rfl, hlast⟩
  · have hlocate := hs.locate hf hi
    rw [howner] at hlocate
    exact parentOf_root hf hlocate
  · rw [hlast]
    exact parentOf_child hf hd (List.mem_of_getElem? hi)

theorem reaches_of_trail {f : Forest ι} (hf : f.ids.Nodup) {a : Address} {c : Component ι}
    {crumbs : List (Crumb ι)} (hc : f.Holds a c) (htrail : Trail f a.path c crumbs) :
    f.Reaches c.id crumbs a c := by
  obtain ⟨hlast, hparent⟩ := parentOf_eq_crumbs hf hc htrail
  constructor
  case trail => exact htrail
  case visited => exact mem_walk_iff hf hc
  case length =>
    rw [htrail.length_eq, Address.path, List.length_append]
    rfl
  case last => exact hlast
  case adjacent =>
    intro pre x y post hsplit
    obtain ⟨b, m, n, hm, rfl, hn, hy⟩ := htrail.adjacent hsplit
    have hbranch : m.isBranch = true :=
      Component.isBranch_of_children (List.ne_nil_of_mem (List.mem_of_getElem? hn))
    have hchild : f.Holds ⟨b.path, y.index⟩ n := ⟨m.children, hm.leads hbranch, hn⟩
    refine ⟨m, n, hm.get hf, hn, ?_, hy⟩
    rw [hy]
    exact hchild.get hf
  case kinds => exact fun x hx => htrail.kind_of_mem_dropLast hx
  case apart => exact crumbsFrom_apart (crumbs_of_trail (hc.find_places hf) htrail)
  case parent => exact hparent

theorem crumbs_eq_none_iff {f : Forest ι} {id : ι} : f.crumbs? id = none ↔ id ∉ f.ids := by
  rw [← contains_iff]
  cases hfind : f.places.find? (·.2.id = id) with
  | none =>
      have hmisses := misses_of_find hfind
      simp [hmisses.crumbs, hmisses.contains]
  | some p =>
      have hmeans : f.Means id p.1 p.2 := means_of_find hfind
      obtain ⟨crumbs, hcrumbs, -⟩ := hmeans.crumbs
      simp [hcrumbs, hmeans.contains]

/-- A way that is found is the trail to a component with the identity. -/
theorem exists_trail {f : Forest ι} {id : ι} {crumbs : List (Crumb ι)}
    (h : f.crumbs? id = some crumbs) :
    ∃ a c, f.Holds a c ∧ c.id = id ∧ Trail f a.path c crumbs := by
  have hne : f.places.find? (·.2.id = id) ≠ none := by
    intro hnone
    rw [(misses_of_find hnone).crumbs] at h
    cases h
  obtain ⟨⟨a, c⟩, hfind⟩ := Option.ne_none_iff_exists'.mp hne
  obtain ⟨-, hc, hid⟩ := locate_of_find_places hfind
  obtain ⟨found, hfound, htrail⟩ := (means_of_find hfind).crumbs
  cases h.symm.trans hfound
  exact ⟨a, c, hc, hid, htrail⟩

theorem parentOf_of_notMem {f : Forest ι} {id : ι} (h : id ∉ f.ids) : f.parentOf? id = none := by
  rw [parentOf?, Option.map_eq_none_iff, List.find?_eq_none]
  intro d hd hany
  apply h
  rw [← map_snd_places] at hd
  obtain ⟨p, hp, rfl⟩ := List.mem_map.mp hd
  obtain ⟨x, hx, hid⟩ := List.any_eq_true.mp hany
  obtain ⟨i, hi⟩ := List.mem_iff_getElem?.mp hx
  have hbranch : p.2.isBranch = true := Component.isBranch_of_children (List.ne_nil_of_mem hx)
  have hchild : (⟨p.1.path, i⟩, x) ∈ f.places :=
    mem_places_iff.mpr ⟨_, (holds_of_mem_places hp).leads hbranch, hi⟩
  rw [ids, ← map_snd_places, List.map_map]
  exact List.mem_map.mpr ⟨_, hchild, of_decide_eq_true hid⟩

/-- Where no identity occurs twice, the loop that searches for a way and the one that looks up a
parent end, the former with nothing exactly if the identity does not occur.  Otherwise it ends with
the only trail down to the component, with which the walk and the parent agree. -/
theorem breadcrumbs_agree (f : Forest ι) (hf : f.ids.Nodup) (id : ι) :
    (∀ r, Ends (siblingTurn passed (seek (arrived id)) fun _ => none) ((), [⟨f, 0, []⟩]) r ↔
      r = f.crumbs? id) ∧
    (∀ r, Ends (siblingTurn deeper (seek (owning id)) fun _ => none) ((), [⟨f, 0, 0⟩]) r ↔
      r = f.parentOf? id) ∧
    (f.crumbs? id = none ↔ id ∉ f.ids) ∧ (id ∉ f.ids → f.parentOf? id = none) ∧
    (∀ crumbs, f.crumbs? id = some crumbs ↔ ∃ path c, c.id = id ∧ Trail f path c crumbs) ∧
    ∀ crumbs, f.crumbs? id = some crumbs →
      ∃ a c, f.get? id = some c ∧ f.Reaches id crumbs a c := by
  refine ⟨ends_crumbs_iff f id, ends_parent_iff f id, crumbs_eq_none_iff, parentOf_of_notMem,
    fun crumbs => ⟨fun h => ?_, ?_⟩, fun crumbs h => ?_⟩
  · obtain ⟨a, c, hc, rfl, htrail⟩ := exists_trail h
    exact ⟨a.path, c, rfl, htrail⟩
  · rintro ⟨path, c, rfl, htrail⟩
    obtain ⟨a, rfl, hc⟩ := htrail.exists_holds
    exact crumbs_of_trail (hc.find_places hf) htrail
  · obtain ⟨a, c, hc, rfl, htrail⟩ := exists_trail h
    exact ⟨a, c, hc.get hf, reaches_of_trail hf hc htrail⟩

/-- A button stands in a container, which stands in a card behind a text. -/
theorem breadcrumbs_agree_sample :
    let button : Component Id := .leaf "b" none (.button {})
    let box : Component Id := .branch "c" none (.container {}) [button]
    let f : Forest Id := [.leaf "t" none (.text {}), .branch "a" none (.card {}) [box]]
    f.ids.Nodup ∧ (f.crumbs? "b").map (·.map fun x => (x.id, x.index)) =
        some [("a", 1), ("c", 0), ("b", 0)] ∧
      f.parentOf? "b" = some "c" ∧ (button, 2) ∈ f.walk := by
  intro button box f
  have hids : f.ids = ["t", "a", "c", "b"] := by decide +kernel
  have hnodup : f.ids.Nodup := by rw [hids]; decide
  let crumbs : List (Crumb Id) := [Crumb.ofComponent (.branch "a" none (.card {}) [box]) 1,
    Crumb.ofComponent box 0, Crumb.ofComponent button 0]
  have hcrumbs : f.crumbs? "b" = some crumbs := rfl
  obtain ⟨a, c, hget, hreaches⟩ := (breadcrumbs_agree f hnodup "b").2.2.2.2.2 crumbs hcrumbs
  cases hget
  have hdepth : a.owner.length = 2 := Nat.succ.inj hreaches.length.symm
  refine ⟨hnodup, by rw [hcrumbs]; rfl, hreaches.parent, ?_⟩
  rw [← hdepth]
  exact ((hreaches.visited _).mpr rfl).1

end PageDesign.Forest
