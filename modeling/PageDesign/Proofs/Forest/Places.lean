/-
# PageDesign.Proofs.Forest.Places -- one component is meant by an identity

Identities may occur more than once in a forest, so it has to be said which component an
operation means: the first one in pre-order that has the identity.  `places` lists every
component with its address in that order, apart from any search, and `resolution` says what each
operation does with the first place that has the identity, and that all of them do nothing when
there is none.

An edit is described by what it leaves alone.  `Edited` says that two forests differ in one
sequence of siblings at most, and `Exchanged` that they differ in one tree of it.
-/
import PageDesign.Proofs.Forest.Comprise

namespace PageDesign.Forest

variable {ι : Type}

/-! ## The listing with addresses -/

mutual

/-- The components of the tree that stands at position `i`, each with its address. -/
def placesOf (i : Nat) : Component ι → List (Address × Component ι)
  | .leaf j a l => [(⟨[], i⟩, .leaf j a l)]
  | .branch j a f cs =>
    (⟨[], i⟩, .branch j a f cs) :: (placesFrom 0 cs).map fun p => (p.1.below i, p.2)

/-- The components of siblings, the first of which is at position `i`, each with its address. -/
def placesFrom (i : Nat) : Forest ι → List (Address × Component ι)
  | [] => []
  | c :: cs => placesOf i c ++ placesFrom (i + 1) cs

end

/-- Every component with its address, in pre-order. -/
def places (f : Forest ι) : List (Address × Component ι) := placesFrom 0 f

theorem placesOf_eq (i : Nat) (c : Component ι) :
    placesOf i c = (⟨[], i⟩, c) :: (placesFrom 0 c.children).map fun p => (p.1.below i, p.2) := by
  cases c with
  | leaf j a l => rw [placesOf, Component.children, placesFrom, List.map_nil]
  | branch j a f cs => rw [placesOf, Component.children]

theorem placesFrom_cons (i : Nat) (c : Component ι) (cs : Forest ι) :
    placesFrom i (c :: cs) = (⟨[], i⟩, c) ::
      ((placesFrom 0 c.children).map (fun p => (p.1.below i, p.2)) ++ placesFrom (i + 1) cs) := by
  rw [placesFrom, placesOf_eq, List.cons_append]

theorem map_snd_placesFrom (i : Nat) (f : Forest ι) :
    (placesFrom i f).map (·.2) = f.nodes := by
  induction f using Forest.induction generalizing i with
  | nil => simp [placesFrom]
  | cons c cs ihc ihcs =>
      have hbelow : ((placesFrom 0 c.children).map fun p => (p.1.below i, p.2)).map (·.2) =
          nodes c.children := by
        rw [List.map_map, ← ihc 0]
        rfl
      rw [placesFrom_cons, List.map_cons, List.map_append, hbelow, ihcs, nodes_cons]

/-- The places of a forest list the components that a walk visits, in the same order. -/
theorem map_snd_places (f : Forest ι) : f.places.map (·.2) = f.nodes := map_snd_placesFrom 0 f

theorem holds_of_mem_placesFrom (pre : Forest ι) {f : Forest ι} {p : Address × Component ι}
    (hp : p ∈ placesFrom pre.length f) : Holds (pre ++ f) p.1 p.2 := by
  induction f using Forest.induction generalizing pre p with
  | nil => simp [placesFrom] at hp
  | cons c cs ihc ihcs =>
      have hi : (pre ++ c :: cs)[pre.length]? = some c := by simp
      rw [placesFrom_cons, List.mem_cons, List.mem_append] at hp
      rcases hp with rfl | hp | hp
      · exact ⟨pre ++ c :: cs, .here _, hi⟩
      · obtain ⟨q, hq, rfl⟩ := List.mem_map.mp hp
        obtain ⟨s, hs, hindex⟩ := ihc [] hq
        have hbranch : c.isBranch = true := by
          apply Component.isBranch_of_children
          intro hnil
          rw [hnil] at hq
          simp [placesFrom] at hq
        exact ⟨s, .down hi hbranch hs, hindex⟩
      · -- behind the first tree there is one sibling more in front
        have hlength : (pre ++ [c]).length = pre.length + 1 := by simp
        have hrest : Holds ((pre ++ [c]) ++ cs) p.1 p.2 := ihcs (pre ++ [c]) (by rwa [hlength])
        rwa [List.append_assoc] at hrest

/-- Every place of a forest holds the component that is listed with it. -/
theorem holds_of_mem_places {f : Forest ι} {p : Address × Component ι} (hp : p ∈ f.places) :
    f.Holds p.1 p.2 :=
  holds_of_mem_placesFrom [] hp

/-! ## Edits by what they leave alone -/

/-- Two forests are the same except for one sequence, to which the same positions lead: it is `s`
in the first forest and `t` in the second. -/
inductive Edited (s t : Forest ι) : List Nat → Forest ι → Forest ι → Prop
  | here : Edited s t [] s t
  | down {path : List Nat} {cs ds : Forest ι} (pre post : Forest ι) (i : ι)
      (a : Option Animation) (fr : Frame) : Edited s t path cs ds →
      Edited s t (pre.length :: path) (pre ++ .branch i a fr cs :: post)
        (pre ++ .branch i a fr ds :: post)

/-- Two forests are the same except for the tree at an address, which is `c` in the first forest
and for which the second has the trees `cs`. -/
def Exchanged (c : Component ι) (cs : Forest ι) (a : Address) (f g : Forest ι) : Prop :=
  ∃ pre post, pre.length = a.index ∧ Edited (pre ++ c :: post) (pre ++ cs ++ post) a.owner f g

/-- Editing a sequence leaves everything else alone. -/
theorem Leads.edited {path : List Nat} {f s : Forest ι} (h : Leads path f s)
    (edit : Forest ι → Forest ι) : Edited s (edit s) path f (editSequence edit path f) := by
  induction h with
  | here f => exact .here
  | @down i path f s c hi hc _ ih =>
      have hlength : (f.take i).length = i := length_take_of_getElem? hi
      cases c with
      | leaf j a l => cases hc
      | branch j a fr cs =>
          have hstep := Edited.down (f.take i) (f.drop (i + 1)) j a fr ih
          rw [hlength, Component.children, ← eq_take_cons_drop hi] at hstep
          rw [editSequence, modify_eq_take_cons_drop hi]
          exact hstep

/-- An edit of the sequence in which a component stands, told by the trees that come for it. -/
theorem Holds.exchanged {f : Forest ι} {a : Address} {c : Component ι} (h : f.Holds a c)
    (cs : Forest ι) {edit : Forest ι → Forest ι}
    (hedit : ∀ pre post, pre.length = a.index → edit (pre ++ c :: post) = pre ++ cs ++ post) :
    Exchanged c cs a f (editSequence edit a.owner f) := by
  obtain ⟨s, hs, hi⟩ := h
  have hlength : (s.take a.index).length = a.index := length_take_of_getElem? hi
  refine ⟨s.take a.index, s.drop (a.index + 1), hlength, ?_⟩
  rw [← hedit _ _ hlength, ← eq_take_cons_drop hi]
  exact hs.edited edit

theorem Holds.exchanged_removeAt {f : Forest ι} {a : Address} {c : Component ι}
    (h : f.Holds a c) : Exchanged c [] a f (f.removeAt a) := by
  refine h.exchanged [] fun pre post hpre => ?_
  rw [← hpre, List.eraseIdx_append_of_length_le (Nat.le_refl _), Nat.sub_self, List.append_nil]
  rfl

theorem Holds.exchanged_replaceAt {f : Forest ι} {a : Address} {c : Component ι}
    (h : f.Holds a c) (new : Component ι) : Exchanged c [new] a f (f.replaceAt a new) := by
  refine h.exchanged [new] fun pre post hpre => ?_
  rw [← hpre, List.set_append_right _ _ (Nat.le_refl _), Nat.sub_self, List.append_assoc]
  rfl

/-! ## The way to a component -/

/-- The steps of a way name the components that are passed when its positions are followed down
to a component, each with its position. -/
inductive Trail : Forest ι → List Nat → Component ι → List (Crumb ι) → Prop
  | last {f : Forest ι} {i : Nat} {c : Component ι} :
      f[i]? = some c → Trail f [i] c [Crumb.ofComponent c i]
  | step {f : Forest ι} {i : Nat} {d c : Component ι} {path : List Nat}
      {crumbs : List (Crumb ι)} :
      f[i]? = some d → Trail d.children path c crumbs →
      Trail f (i :: path) c (Crumb.ofComponent d i :: crumbs)

variable [DecidableEq ι]

theorem crumbsIn_eq (id : ι) (i : Nat) (c : Component ι) :
    crumbsIn id i c = if c.id = id then some [Crumb.ofComponent c i]
      else (crumbsFrom id 0 c.children).map (Crumb.ofComponent c i :: ·) := by
  cases c with
  | leaf j a l => rw [crumbsIn]; rfl
  | branch j a f cs => rw [crumbsIn]; rfl

theorem crumbsFrom_cons (id : ι) (i : Nat) (c : Component ι) (cs : Forest ι) :
    crumbsFrom id i (c :: cs) = (crumbsIn id i c).or (crumbsFrom id (i + 1) cs) := by
  rw [crumbsFrom]
  cases crumbsIn id i c <;> rfl

/-! ## The searches agree with the listing -/

/-- What the search for an address finds, and what the search for the way there finds, is what
the listing has first. -/
theorem searches_placesFrom (id : ι) (pre f : Forest ι) :
    match (placesFrom pre.length f).find? (·.2.id = id) with
    | some (a, c) => locateFrom id pre.length f = some a ∧
        ∃ crumbs, crumbsFrom id pre.length f = some crumbs ∧ Trail (pre ++ f) a.path c crumbs
    | none => locateFrom id pre.length f = none ∧ crumbsFrom id pre.length f = none := by
  induction f using Forest.induction generalizing pre with
  | nil => simp [placesFrom, locateFrom, crumbsFrom]
  | cons c cs ihc ihcs =>
      have hi : (pre ++ c :: cs)[pre.length]? = some c := by simp
      rw [placesFrom_cons, locateFrom_cons, crumbsFrom_cons, locateIn_eq, crumbsIn_eq]
      by_cases hid : c.id = id
      · rw [List.find?_cons_of_pos (by simpa using hid), if_pos hid, if_pos hid]
        exact ⟨rfl, _, rfl, .last hi⟩
      · rw [List.find?_cons_of_neg (by simpa using hid), if_neg hid, if_neg hid,
          List.find?_append, List.find?_map]
        have hbelow := ihc []
        have hbehind := ihcs (pre ++ [c])
        have hlength : (pre ++ [c]).length = pre.length + 1 := by simp
        rw [hlength, List.append_assoc, List.singleton_append] at hbehind
        rw [List.length_nil, List.nil_append] at hbelow
        -- what is below the first tree comes before what is behind it
        cases hchild : (placesFrom 0 c.children).find? (·.2.id = id) with
        | some p =>
            obtain ⟨a, d⟩ := p
            rw [hchild] at hbelow
            obtain ⟨hlocate, crumbs, hcrumbs, htrail⟩ := hbelow
            simp only [Function.comp_def, hchild, Option.map_some, Option.some_or, hlocate,
              hcrumbs]
            exact ⟨trivial, _, rfl, .step hi htrail⟩
        | none =>
            rw [hchild] at hbelow
            obtain ⟨hlocate, hcrumbs⟩ := hbelow
            simp only [Function.comp_def, hchild, Option.map_none, Option.none_or, hlocate,
              hcrumbs]
            exact hbehind

theorem searches_places (f : Forest ι) (id : ι) :
    match f.places.find? (·.2.id = id) with
    | some (a, c) => f.locate? id = some a ∧
        ∃ crumbs, f.crumbs? id = some crumbs ∧ Trail f a.path c crumbs
    | none => f.locate? id = none ∧ f.crumbs? id = none :=
  searches_placesFrom id [] f

/-! ## The component that is meant -/

/-- Every operation on an identity means the component `c` at the address `a`. -/
structure Means (f : Forest ι) (id : ι) (a : Address) (c : Component ι) : Prop where
  contains : f.contains id = true
  get : f.get? id = some c
  crumbs : ∃ crumbs, f.crumbs? id = some crumbs ∧ Trail f a.path c crumbs
  remove : ∃ g, f.remove? id = some (c, g) ∧ Exchanged c [] a f g
  replace : ∀ new, ∃ g, f.replace? id new = some g ∧ Exchanged c [new] a f g
  update : ∀ change, ∃ g, f.update? id change = some g ∧ Exchanged c [change c] a f g
  addChild : ∀ new, if c.isBranch then ∃ g, f.addChild? id new = some g ∧
      Edited c.children (c.children ++ [new]) a.path f g
    else f.addChild? id new = none
  /-- The position is clamped to the ends of the children. -/
  insertChildAt : ∀ (index : Int) new, if c.isBranch then
      ∃ pre post g, c.children = pre ++ post ∧
        (pre.length : Int) = max 0 (min index c.children.length) ∧
        f.insertChildAt? (some id) index new = some g ∧
        Edited c.children (pre ++ new :: post) a.path f g
    else f.insertChildAt? (some id) index new = none

/-- Every operation on an identity does nothing. -/
structure Misses (f : Forest ι) (id : ι) : Prop where
  contains : f.contains id = false
  get : f.get? id = none
  crumbs : f.crumbs? id = none
  remove : f.remove? id = none
  replace : ∀ new, f.replace? id new = none
  update : ∀ change, f.update? id change = none
  addChild : ∀ new, f.addChild? id new = none
  insertChildAt : ∀ index new, f.insertChildAt? (some id) index new = none
  move : ∀ offset, f.move? id offset = none
  moveTo : ∀ parent index, f.moveTo? id parent index = none

theorem branch_of_holds {f : Forest ι} {id : ι} {a : Address} {c : Component ι}
    (ha : f.locate? id = some a) (hc : f.Holds a c) :
    f.branch? id = if c.isBranch then some a else none := by
  rw [branch?, ha, Option.filter_some, hc.at?]
  rfl

theorem means_of_locate {f : Forest ι} {id : ι} {a : Address} {c : Component ι}
    (ha : f.locate? id = some a) (hc : f.Holds a c)
    (hcrumbs : ∃ crumbs, f.crumbs? id = some crumbs ∧ Trail f a.path c crumbs) :
    f.Means id a c where
  contains := by rw [Forest.contains, ha]; rfl
  get := by rw [get?, ha, Option.bind_some, hc.at?]
  crumbs := hcrumbs
  remove := ⟨f.removeAt a, by simp [remove?, ha, hc.at?], hc.exchanged_removeAt⟩
  replace new := ⟨f.replaceAt a new, by rw [replace?, ha]; rfl, hc.exchanged_replaceAt new⟩
  update change :=
    ⟨f.replaceAt a (change c), by simp [update?, ha, hc.at?], hc.exchanged_replaceAt (change c)⟩
  addChild new := by
    rw [addChild?, branch_of_holds ha hc]
    split
    next hbranch => exact ⟨_, rfl, (hc.leads hbranch).edited (· ++ [new])⟩
    next => rfl
  insertChildAt index new := by
    rw [insertChildAt?, branch_of_holds ha hc]
    split
    next hbranch =>
      let i := min index.toNat c.children.length
      refine ⟨c.children.take i, c.children.drop i, _, (List.take_append_drop i _).symm, ?_, rfl,
        (hc.leads hbranch).edited (insertClamped index new)⟩
      rw [List.length_take]
      omega
    next => rfl

theorem misses_of_locate {f : Forest ι} {id : ι} (ha : f.locate? id = none)
    (hcrumbs : f.crumbs? id = none) : f.Misses id where
  contains := by rw [Forest.contains, ha]; rfl
  get := by rw [get?, ha]; rfl
  crumbs := hcrumbs
  remove := by rw [remove?, ha]; rfl
  replace new := by rw [replace?, ha]; rfl
  update change := by rw [update?, ha]; rfl
  addChild new := by rw [addChild?, branch?, ha]; rfl
  insertChildAt index new := by rw [insertChildAt?, branch?, ha]; rfl
  move offset := by rw [move?, ha]; rfl
  moveTo parent index := by rw [moveTo?, get?, ha]; rfl

theorem means_of_find {f : Forest ι} {id : ι} {a : Address} {c : Component ι}
    (h : f.places.find? (·.2.id = id) = some (a, c)) : f.Means id a c := by
  have hsearches := searches_places f id
  rw [h] at hsearches
  have hplace : f.Holds a c := holds_of_mem_places (List.mem_of_find?_eq_some h)
  exact means_of_locate hsearches.1 hplace hsearches.2

theorem misses_of_find {f : Forest ι} {id : ι} (h : f.places.find? (·.2.id = id) = none) :
    f.Misses id := by
  have hsearches := searches_places f id
  rw [h] at hsearches
  exact misses_of_locate hsearches.1 hsearches.2

/-- Where no identity comes twice, every component is meant by its own. -/
theorem exists_means {f : Forest ι} (hf : f.ids.Nodup) {c : Component ι} (hc : c ∈ f.nodes) :
    ∃ a, (a, c) ∈ f.places ∧ f.Means c.id a c := by
  rw [← map_snd_places] at hc
  obtain ⟨p, hp, rfl⟩ := List.mem_map.mp hc
  cases hfind : f.places.find? (·.2.id = p.2.id) with
  | none =>
      have hnone := List.find?_eq_none.mp hfind p hp
      simp at hnone
  | some q =>
      obtain ⟨a, d⟩ := q
      have hmem := List.mem_of_find?_eq_some hfind
      have hid : d.id = p.2.id := by simpa using List.find?_some hfind
      -- the first one with the identity is the only one
      have hsame : d = p.2 := by
        rw [ids, ← map_snd_places] at hf
        exact List.inj_on_of_nodup_map hf (List.mem_map_of_mem hmem) (List.mem_map_of_mem hp) hid
      subst hsame
      exact ⟨a, hmem, means_of_find hfind⟩

/-- The places of a forest are what a walk visits, its components in pre-order, with their
addresses, and every operation on an identity means the first place that has it, and does nothing
if there is none.  Identities may occur more than once. -/
theorem resolution (f : Forest ι) (id : ι) :
    f.places.map (·.2) = f.walk.map (·.1) ∧ f.walk = preorder 0 f ∧
      (∀ p ∈ f.places, f.Holds p.1 p.2) ∧
      match f.places.find? (·.2.id = id) with
      | some (a, c) => f.Means id a c
      | none => f.Misses id := by
  refine ⟨map_snd_places f, walk_eq_preorder f, fun p => holds_of_mem_places, ?_⟩
  cases hfind : f.places.find? (·.2.id = id) with
  | none => exact misses_of_find hfind
  | some p => exact means_of_find hfind

end PageDesign.Forest
