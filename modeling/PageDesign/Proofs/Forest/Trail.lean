/-
# PageDesign.Proofs.Forest.Trail -- a place that is found again by the way to it

The way to a component names what is passed on it, and its last step but one names the parent.
Where no identity occurs twice, the parent that is named is found where the way passed it, so a
tree that is to come in behind the component does come in there (`exists_insertBehind`).  An
edit of the siblings leaves the way down to them as it is (`Leads.exists_way`): the way to the
tree that came in differs in the last step alone.
-/
import PageDesign.Proofs.Forest.Relocate

namespace PageDesign

variable {ι : Type}

@[simp] theorem Crumb.ofComponent_withChildren (cs : Forest ι) (c : Component ι) (i : Nat) :
    ofComponent (c.withChildren cs) i = ofComponent c i := by
  cases c <;> rfl

namespace Forest

/-! ## Siblings -/

theorem insertClamped_behind {pre : Forest ι} {i : Nat} (hpre : pre.length = i)
    (n c : Component ι) (post : Forest ι) :
    insertClamped ((i : Int) + 1) c (pre ++ n :: post) = pre ++ [n, c] ++ post := by
  have hlength : (pre ++ [n]).length = i + 1 := by simp [hpre]
  have hmin : min ((i : Int) + 1).toNat (pre ++ n :: post).length = i + 1 := by
    rw [List.length_append, List.length_cons]
    omega
  have hsplit : pre ++ n :: post = (pre ++ [n]) ++ post := by simp
  rw [insertClamped, hmin, hsplit, List.take_left' hlength, List.drop_left' hlength]
  simp

/-! ## Trails -/

theorem Trail.path_ne_nil {f : Forest ι} {path : List Nat} {c : Component ι}
    {crumbs : List (Crumb ι)} (h : Trail f path c crumbs) : path ≠ [] := by
  cases h <;> exact List.cons_ne_nil _ _

/-- Positions lead to one component on one way. -/
theorem Trail.unique {f : Forest ι} {path : List Nat} {c d : Component ι}
    {crumbs crumbs' : List (Crumb ι)} (h : Trail f path c crumbs)
    (h' : Trail f path d crumbs') : crumbs = crumbs' := by
  induction h generalizing crumbs' with
  | last hi =>
      cases h' with
      | last hi' =>
          cases hi.symm.trans hi'
          rfl
      | step _ htrail => exact absurd rfl htrail.path_ne_nil
  | step hi htrail ih =>
      cases h' with
      | last => exact absurd rfl htrail.path_ne_nil
      | step hi' htrail' =>
          cases hi.symm.trans hi'
          rw [ih htrail']

/-- The steps of a way lead down to the siblings: every one of them has its trail, and so has
every one after an edit of them.  There are no steps to the roots; otherwise the last step names
the owner of the siblings. -/
structure Way (owner : List Nat) (f s : Forest ι) (steps : List (Crumb ι)) : Prop where
  trail : ∀ (edit : Forest ι → Forest ι) (j : Nat) (d : Component ι), (edit s)[j]? = some d →
    Trail (editSequence edit owner f) (owner ++ [j]) d (steps ++ [Crumb.ofComponent d j])
  owned : owner = [] ∧ steps = [] ∨ ∃ path k d, owner = path ++ [k] ∧ f.Holds ⟨path, k⟩ d ∧
    d.isBranch = true ∧ s = d.children ∧ steps.getLast? = some (Crumb.ofComponent d k)

theorem Leads.exists_way {owner : List Nat} {f s : Forest ι} (h : Leads owner f s) :
    ∃ steps, Way owner f s steps := by
  induction h with
  | here f => exact ⟨[], fun edit j d hd => .last hd, .inl ⟨rfl, rfl⟩⟩
  | @down i path f s c hi hc hs ih =>
      obtain ⟨steps, hway⟩ := ih
      refine ⟨Crumb.ofComponent c i :: steps, ?_, .inr ?_⟩
      · intro edit j d hd
        -- the branch that is passed has other children, and is the same otherwise
        have hbelow := hway.trail edit j d hd
        rw [← Component.children_withChildren hc (editSequence edit path c.children)] at hbelow
        have hstep := Trail.step (getElem?_editSequence_cons hi edit path) hbelow
        rwa [Crumb.ofComponent_withChildren] at hstep
      · rcases hway.owned with ⟨rfl, rfl⟩ | ⟨way, k, d, rfl, ⟨t, ht, hk⟩, hd, rfl, hlast⟩
        · cases hs
          exact ⟨[], i, c, rfl, ⟨f, .here f, hi⟩, hc, rfl, rfl⟩
        · refine ⟨i :: way, k, d, rfl, ⟨t, .down hi hc ht, hk⟩, hd, rfl, ?_⟩
          rw [List.getLast?_cons, hlast]
          rfl

variable [DecidableEq ι]

/-- The sequence that a way leads to is the one under the parent that its last step names. -/
theorem Way.owned_last {owner : List Nat} {f s : Forest ι} {steps : List (Crumb ι)}
    (h : Way owner f s steps) (hs : Leads owner f s) (hf : f.ids.Nodup) :
    f.Owned (steps.getLast?.map (·.id)) owner s := by
  rcases h.owned with ⟨rfl, rfl⟩ | ⟨path, k, d, rfl, hd, hbranch, rfl, hlast⟩
  · cases hs
    exact ⟨rfl, rfl⟩
  · rw [hlast]
    exact ⟨_, d, hd.find_places hf, hbranch, rfl, rfl⟩

/-- The way that is searched for is the trail to what is found. -/
theorem crumbs_of_trail {f : Forest ι} {id : ι} {a : Address} {c : Component ι}
    {crumbs : List (Crumb ι)} (h : f.places.find? (·.2.id = id) = some (a, c))
    (htrail : Trail f a.path c crumbs) : f.crumbs? id = some crumbs := by
  obtain ⟨found, hfound, htrail'⟩ := (means_of_find h).crumbs
  rw [hfound, htrail.unique htrail']

/-! ## Coming in behind a component -/

/-- Where no identity occurs twice, a tree comes in behind a component by the way to that one:
under the parent that its last step but one names, at the next position.  If still no identity
occurs twice, the way to the tree that came in differs in the last step alone. -/
theorem exists_insertBehind {f : Forest ι} (hf : f.ids.Nodup) {a : Address} {n : Component ι}
    (hn : f.Holds a n) (c : Component ι) :
    ∃ steps g, f.crumbs? n.id = some (steps ++ [Crumb.ofComponent n a.index]) ∧
      f.insertChildAt? (steps.getLast?.map (·.id)) (a.index + 1) c = some g ∧
      Exchanged n [n, c] a f g ∧
      (g.ids.Nodup → g.places.find? (·.2.id = c.id) = some (⟨a.owner, a.index + 1⟩, c) ∧
        g.crumbs? c.id = some (steps ++ [Crumb.ofComponent c (a.index + 1)])) := by
  have hfirst := hn.find_places hf
  obtain ⟨s, hs, hi⟩ := hn
  obtain ⟨steps, hway⟩ := hs.exists_way
  let edit := insertClamped ((a.index : Int) + 1) c
  have hin : (edit s)[a.index + 1]? = some c := by
    have hlength : (s.take a.index).length = a.index := length_take_of_getElem? hi
    have hsplit := insertClamped_behind hlength n c (s.drop (a.index + 1))
    rw [← eq_take_cons_drop hi] at hsplit
    show (insertClamped ((a.index : Int) + 1) c s)[a.index + 1]? = some c
    rw [hsplit, List.append_assoc, List.getElem?_append_right (by omega), hlength]
    simp
  refine ⟨steps, editSequence edit a.owner f, ?_, ?_, ?_, fun hg => ?_⟩
  · have htrail := hway.trail (fun s => s) a.index n hi
    rw [editSequence_self hs] at htrail
    exact crumbs_of_trail hfirst htrail
  · exact (hway.owned_last hs hf).insertChildAt _ c
  · exact Holds.exchanged ⟨s, hs, hi⟩ [n, c] fun pre post hpre => insertClamped_behind hpre n c post
  · have hplace : (editSequence edit a.owner f).Holds ⟨a.owner, a.index + 1⟩ c :=
      ⟨_, hs.edited_leads edit, hin⟩
    have hfound := hplace.find_places hg
    exact ⟨hfound, crumbs_of_trail hfound (hway.trail edit _ c hin)⟩

end Forest

end PageDesign
