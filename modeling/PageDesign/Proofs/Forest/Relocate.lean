/-
# PageDesign.Proofs.Forest.Relocate -- a tree that moves comes to another place and can come back

A move takes a tree out first and then looks for the place where it comes in, in a forest that
has become another.  That place is still there (`moveTo_isSome_iff`), and it is the one that was
meant: `Owned` says which sequence of siblings stands under a parent, and `Relocated` what a move
makes of a forest.

Coming in and leaving are inverse to each other.  A tree whose identity is new comes in and can
be removed again (`remove_of_insertChildAt`); where no identity occurs twice, a tree that was
removed can come in again where it was (`insertChildAt_of_remove`).  Together they say that a
move can be taken back by a move (`moveTo_relocates`).
-/
import PageDesign.Proofs.Forest.Splice

namespace PageDesign

variable {ι : Type}

theorem Component.isBranch_withChildren (cs : Forest ι) (c : Component ι) :
    (c.withChildren cs).isBranch = c.isBranch := by
  cases c <;> rfl

namespace Forest

/-! ## One tree among siblings -/

theorem getElem?_insertClamped (index : Int) (c : Component ι) (s : Forest ι) :
    (insertClamped index c s)[min index.toNat s.length]? = some c := by
  rw [insertClamped, List.getElem?_append_right (List.length_take_le _ _),
    List.length_take_of_le (Nat.min_le_right _ _), Nat.sub_self]
  rfl

theorem eraseIdx_insertClamped (index : Int) (c : Component ι) (s : Forest ι) :
    (insertClamped index c s).eraseIdx (min index.toNat s.length) = s := by
  rw [insertClamped, List.eraseIdx_append_of_length_le (List.length_take_le _ _),
    List.length_take_of_le (Nat.min_le_right _ _), Nat.sub_self]
  exact List.take_append_drop _ s

theorem insertClamped_eraseIdx {s : Forest ι} {i : Nat} {c : Component ι} (h : s[i]? = some c) :
    insertClamped i c (s.eraseIdx i) = s := by
  obtain ⟨hi, -⟩ := List.getElem?_eq_some_iff.mp h
  have hlength : (s.take i).length = i := List.length_take_of_le (Nat.le_of_lt hi)
  have herased : s.eraseIdx i = s.take i ++ s.drop (i + 1) := List.eraseIdx_eq_take_drop_succ s i
  have hmin : min (i : Int).toNat (s.eraseIdx i).length = i := by
    rw [List.length_eraseIdx_of_lt hi, Int.toNat_natCast]
    omega
  rw [insertClamped, hmin, herased, List.take_left' hlength, List.drop_left' hlength]
  exact (eq_take_cons_drop h).symm

/-! ## Edits of one sequence, one after the other -/

/-- On the way to an edit a branch is passed, which has other children afterwards. -/
theorem getElem?_editSequence_cons {f : Forest ι} {i : Nat} {c : Component ι}
    (hi : f[i]? = some c) (edit : Forest ι → Forest ι) (path : List Nat) :
    (editSequence edit (i :: path) f)[i]? =
      some (c.withChildren (editSequence edit path c.children)) := by
  rw [editSequence, List.getElem?_modify_eq, hi, Option.map_eq_map, Option.map_some]

/-- After an edit of a sequence the same positions lead to what has become of it. -/
theorem Leads.edited_leads {path : List Nat} {f s : Forest ι} (h : Leads path f s)
    (edit : Forest ι → Forest ι) : Leads path (editSequence edit path f) (edit s) := by
  induction h with
  | here f => exact .here _
  | @down i path f s c hi hc _ ih =>
      refine .down (getElem?_editSequence_cons hi edit path) ?_ ?_
      · rw [Component.isBranch_withChildren, hc]
      · rw [Component.children_withChildren hc]
        exact ih

/-- Where a tree stood stands the one that came for it. -/
theorem Holds.holds_exchangeAt {f : Forest ι} {a : Address} {c : Component ι} (h : f.Holds a c)
    (new : Component ι) : (f.exchangeAt a [new]).Holds a new := by
  obtain ⟨s, hs, hi⟩ := h
  have hlength : (s.take a.index).length = a.index := length_take_of_getElem? hi
  refine ⟨_, hs.edited_leads _, ?_⟩
  rw [List.append_assoc, List.getElem?_append_right (Nat.le_of_eq hlength), hlength, Nat.sub_self]
  rfl

theorem Leads.editSequence_editSequence {path : List Nat} {f s : Forest ι} (h : Leads path f s)
    (first second : Forest ι → Forest ι) :
    editSequence second path (editSequence first path f) =
      editSequence (fun t => second (first t)) path f := by
  induction h with
  | here f => rfl
  | @down i path f s c hi hc _ ih =>
      obtain ⟨hlt, -⟩ := List.getElem?_eq_some_iff.mp hi
      rw [editSequence, editSequence, editSequence, List.modify_modify_eq]
      rw [modify_eq_take_cons_drop hi, modify_eq_take_cons_drop hi, Function.comp_apply,
        Component.children_withChildren hc, ih, Component.withChildren_withChildren]

theorem Leads.mem_ids {path : List Nat} {f s : Forest ι} (h : Leads path f s) {i : ι}
    (hi : i ∈ ids s) : i ∈ ids f := by
  induction h with
  | here f => exact hi
  | @down n path f s c hn _ _ ih =>
      rw [eq_take_cons_drop hn, ids_append, ids_cons, List.mem_append, List.mem_cons,
        List.mem_append]
      exact .inr (.inr (.inl (ih hi)))

/-- Positions that lead somewhere pass through a branch just before they end, unless they are
none. -/
theorem Leads.owner {path : List Nat} {f s : Forest ι} {k : Nat} (h : Leads (path ++ [k]) f s) :
    ∃ d, f.Holds ⟨path, k⟩ d ∧ d.isBranch = true ∧ s = d.children := by
  induction path generalizing f with
  | nil =>
      cases h with
      | down hi hc hs =>
          cases hs
          exact ⟨_, ⟨f, .here f, hi⟩, hc, rfl⟩
  | cons i path ih =>
      cases h with
      | down hi hc hs =>
          obtain ⟨d, ⟨t, ht, hd⟩, hbranch, rfl⟩ := ih hs
          exact ⟨d, ⟨t, .down hi hc ht, hd⟩, hbranch, rfl⟩

/-! ## The search after an edit -/

variable [DecidableEq ι]

theorem locateFrom_append {id : ι} {pre : Forest ι} (h : id ∉ ids pre) (i : Nat)
    (cs : Forest ι) : locateFrom id i (pre ++ cs) = locateFrom id (i + pre.length) cs := by
  induction pre generalizing i with
  | nil => rfl
  | cons c pre ih =>
      rw [← List.singleton_append, ids_append, List.mem_append, not_or] at h
      rw [List.cons_append, locateFrom_cons, locateIn_eq_none_iff.mpr h.1, Option.none_or, ih h.2,
        List.length_cons]
      congr 1
      omega

theorem locate_here {id : ι} {pre : Forest ι} {c : Component ι} (hpre : id ∉ ids pre)
    (hid : c.id = id) (post : Forest ι) :
    (pre ++ c :: post).locate? id = some ⟨[], pre.length⟩ := by
  rw [locate?, locateFrom_append hpre, locateFrom_cons, locateIn_eq, if_pos hid, Nat.zero_add]
  rfl

theorem locate_below {id : ι} {pre : Forest ι} {c : Component ι} {a : Address}
    (hpre : id ∉ ids pre) (hid : c.id ≠ id) (ha : c.children.locate? id = some a)
    (post : Forest ι) : (pre ++ c :: post).locate? id = some (a.below pre.length) := by
  rw [locate?] at ha
  rw [locate?, locateFrom_append hpre, locateFrom_cons, locateIn_eq, if_neg hid, ha, Nat.zero_add]
  rfl

/-- Where no identity occurs twice, a component is found where it stands. -/
theorem Leads.locate {path : List Nat} {f s : Forest ι} (h : Leads path f s) (hf : f.ids.Nodup)
    {i : Nat} {c : Component ι} (hi : s[i]? = some c) : f.locate? c.id = some ⟨path, i⟩ := by
  induction h with
  | here f =>
      have hlength : (f.take i).length = i := length_take_of_getElem? hi
      rw [eq_take_cons_drop hi, ids_append, List.nodup_append'] at hf
      have hpre : c.id ∉ ids (f.take i) := fun hmem => hf.2.2 hmem (by simp [ids_cons])
      have hhere := locate_here hpre rfl (f.drop (i + 1))
      rwa [← eq_take_cons_drop hi, hlength] at hhere
  | @down n path f s d hn _ hs ih =>
      have hlength : (f.take n).length = n := length_take_of_getElem? hn
      have hbelow : c.id ∈ ids d.children := by
        apply hs.mem_ids
        rw [eq_take_cons_drop hi, ids_append, ids_cons]
        simp
      rw [eq_take_cons_drop hn, ids_append, ids_cons, List.nodup_append', List.nodup_cons,
        List.nodup_append'] at hf
      obtain ⟨-, ⟨hd, hchildren, -⟩, hapart⟩ := hf
      have hpre : c.id ∉ ids (f.take n) := fun hmem => hapart hmem (by simp [hbelow])
      have hne : d.id ≠ c.id := fun heq => hd (by rw [heq]; exact List.mem_append_left _ hbelow)
      have hfound := locate_below hpre hne (ih hchildren hi) (f.drop (n + 1))
      rwa [← eq_take_cons_drop hn, hlength] at hfound

/-- An identity that is new is found where it comes in. -/
theorem Leads.locate_edited {path : List Nat} {f s : Forest ι} (h : Leads path f s) {id : ι}
    {edit : Forest ι → Forest ι} {i : Nat} (hid : id ∉ f.ids)
    (hi : (edit s).locate? id = some ⟨[], i⟩) :
    (editSequence edit path f).locate? id = some ⟨path, i⟩ := by
  induction h with
  | here f => exact hi
  | @down n path f s c hn hc _ ih =>
      have hlength : (f.take n).length = n := length_take_of_getElem? hn
      rw [eq_take_cons_drop hn, ids_append, ids_cons, List.mem_append, List.mem_cons,
        List.mem_append, not_or, not_or, not_or] at hid
      obtain ⟨hpre, hne, hbelow, -⟩ := hid
      have hchildren : ((c.withChildren (editSequence edit path c.children)).children).locate? id =
          some ⟨path, i⟩ := by
        rw [Component.children_withChildren hc, ih hbelow hi]
      have hfound := locate_below hpre (by rw [Component.id_withChildren]; exact Ne.symm hne)
        hchildren (f.drop (n + 1))
      rw [editSequence, modify_eq_take_cons_drop hn]
      rwa [hlength] at hfound

/-! ## Places found first -/

theorem locate_of_find_places {f : Forest ι} {id : ι} {a : Address} {c : Component ι}
    (h : f.places.find? (·.2.id = id) = some (a, c)) :
    f.locate? id = some a ∧ f.Holds a c ∧ c.id = id := by
  have hsearches := searches_places f id
  rw [h] at hsearches
  exact ⟨hsearches.1, holds_of_mem_places (List.mem_of_find?_eq_some h),
    by simpa using List.find?_some h⟩

theorem find_places_of_locate {f : Forest ι} {id : ι} {a : Address} {c : Component ι}
    (ha : f.locate? id = some a) (hc : f.Holds a c) :
    f.places.find? (·.2.id = id) = some (a, c) := by
  have hsearches := searches_places f id
  cases hfind : f.places.find? (·.2.id = id) with
  | none =>
      rw [hfind, ha] at hsearches
      cases hsearches.1
  | some p =>
      obtain ⟨b, d⟩ := p
      obtain ⟨hb, hd, -⟩ := locate_of_find_places hfind
      cases ha.symm.trans hb
      cases hc.at?.symm.trans hd.at?
      rfl

/-- Where no identity occurs twice, a component is the first one with its identity. -/
theorem Holds.find_places {f : Forest ι} {a : Address} {c : Component ι} (h : f.Holds a c)
    (hf : f.ids.Nodup) : f.places.find? (·.2.id = c.id) = some (a, c) := by
  obtain ⟨s, hs, hi⟩ := h
  exact find_places_of_locate (hs.locate hf hi) ⟨s, hs, hi⟩

/-! ## The sequence under a parent -/

/-- Positions lead to the sequence under a parent: to the roots if there is none, or else to the
children of the first component that has its identity, which is a branch. -/
def Owned (f : Forest ι) (parent : Option ι) (path : List Nat) (s : Forest ι) : Prop :=
  match parent with
  | none => path = [] ∧ s = f
  | some p => ∃ a c, f.places.find? (·.2.id = p) = some (a, c) ∧ c.isBranch = true ∧
      path = a.path ∧ s = c.children

namespace Owned

variable {f s : Forest ι} {parent : Option ι} {path : List Nat}

theorem leads (h : f.Owned parent path s) : Leads path f s := by
  cases parent with
  | none =>
      obtain ⟨rfl, rfl⟩ := h
      exact .here _
  | some p =>
      obtain ⟨a, c, hfirst, hbranch, rfl, rfl⟩ := h
      exact (locate_of_find_places hfirst).2.1.leads hbranch

theorem insertChildAt (h : f.Owned parent path s) (index : Int) (c : Component ι) :
    f.insertChildAt? parent index c = some (editSequence (insertClamped index c) path f) := by
  cases parent with
  | none =>
      obtain ⟨rfl, rfl⟩ := h
      rfl
  | some p =>
      obtain ⟨a, d, hfirst, hbranch, rfl, rfl⟩ := h
      obtain ⟨ha, hd, -⟩ := locate_of_find_places hfirst
      rw [insertChildAt?, branch_of_holds ha hd, if_pos hbranch]
      rfl

/-- An edit of the sequence under a parent leaves the parent where it is, unless it brings in
something with the parent's identity. -/
theorem edit (h : f.Owned parent path s) {edit : Forest ι → Forest ι}
    (hedited : (editSequence edit path f).ids.Nodup) :
    (editSequence edit path f).Owned parent path (edit s) := by
  cases parent with
  | none =>
      obtain ⟨rfl, rfl⟩ := h
      exact ⟨rfl, rfl⟩
  | some p =>
      obtain ⟨a, c, hfirst, hbranch, rfl, rfl⟩ := h
      obtain ⟨-, hc, rfl⟩ := locate_of_find_places hfirst
      -- at the place of the parent stands the parent with other children
      rw [hc.editSequence_path edit] at hedited ⊢
      have hfound := (hc.holds_exchangeAt (c.withChildren (edit c.children))).find_places hedited
      rw [Component.id_withChildren] at hfound
      refine ⟨a, _, hfound, ?_, rfl, ?_⟩
      · rwa [Component.isBranch_withChildren]
      · rw [Component.children_withChildren hbranch]

end Owned

theorem insertChildAt_eq_some {f g : Forest ι} {parent : Option ι} {index : Int}
    {c : Component ι} (h : f.insertChildAt? parent index c = some g) :
    ∃ path s, f.Owned parent path s ∧ g = editSequence (insertClamped index c) path f := by
  cases parent with
  | none =>
      cases h
      exact ⟨[], f, ⟨rfl, rfl⟩, rfl⟩
  | some p =>
      obtain ⟨a, ha, rfl⟩ := Option.map_eq_some_iff.mp h
      obtain ⟨d, hlocate, hd, -, hbranch⟩ := branch_eq_some ha
      exact ⟨a.path, d.children, ⟨a, d, find_places_of_locate hlocate hd, hbranch, rfl, rfl⟩, rfl⟩

/-! ## Coming in and leaving -/

/-- A tree whose identity is new comes in and can be removed again. -/
theorem remove_of_insertChildAt {f g : Forest ι} {parent : Option ι} {index : Int}
    {c : Component ι} (h : f.insertChildAt? parent index c = some g) (hid : c.id ∉ f.ids) :
    g.remove? c.id = some (c, f) := by
  obtain ⟨path, s, howned, rfl⟩ := insertChildAt_eq_some h
  have hs := howned.leads
  let i := min index.toNat s.length
  have hlength : (s.take i).length = i := List.length_take_of_le (Nat.min_le_right _ _)
  have hpre : c.id ∉ ids (s.take i) := by
    intro hmem
    apply hid
    apply hs.mem_ids
    rw [← List.take_append_drop i s, ids_append]
    exact List.mem_append_left _ hmem
  have hhere : (insertClamped index c s).locate? c.id = some ⟨[], i⟩ := by
    rw [insertClamped, locate_here hpre rfl, hlength]
  have hlocate := hs.locate_edited hid hhere
  have hholds : (editSequence (insertClamped index c) path f).Holds ⟨path, i⟩ c :=
    ⟨_, hs.edited_leads _, getElem?_insertClamped index c s⟩
  have hback : (editSequence (insertClamped index c) path f).removeAt ⟨path, i⟩ = f := by
    rw [removeAt, hs.editSequence_editSequence]
    exact (hs.editSequence_congr (eraseIdx_insertClamped index c s)).trans (editSequence_self hs)
  simp [remove?, hlocate, hholds.at?, hback]

/-- Where no identity occurs twice, a tree that was removed can come in again where it was. -/
theorem insertChildAt_of_remove {f r s : Forest ι} {parent : Option ι} {path : List Nat} {i : Nat}
    {c : Component ι} (hf : f.ids.Nodup) (hs : f.Owned parent path s) (hi : s[i]? = some c)
    (hr : f.remove? c.id = some (c, r)) : r.insertChildAt? parent i c = some f := by
  obtain ⟨a, ha, -, -, rfl⟩ := remove_eq_some hr
  cases ha.symm.trans (hs.leads.locate hf hi)
  have hrest : (f.removeAt ⟨path, i⟩).ids.Nodup := ((comprises_remove hr).nodup_iff.mp hf).2.1
  have hback : insertClamped i c (s.eraseIdx i) = s := insertClamped_eraseIdx hi
  have hself : editSequence (insertClamped i c) path (f.removeAt ⟨path, i⟩) = f := by
    rw [removeAt, hs.leads.editSequence_editSequence]
    exact (hs.leads.editSequence_congr hback).trans (editSequence_self hs.leads)
  exact ((hs.edit hrest).insertChildAt i c).trans (congrArg some hself)

/-! ## The old parent -/

/-- Where no identity occurs twice, a child is found under the component that has it. -/
theorem Holds.locate_child {f : Forest ι} {b : Address} {c d : Component ι} (hd : f.Holds b d)
    (hf : f.ids.Nodup) (hc : c ∈ d.children) : ∃ i, f.locate? c.id = some ⟨b.path, i⟩ := by
  obtain ⟨i, hi, hget⟩ := List.getElem_of_mem hc
  have hbranch : d.isBranch = true := Component.isBranch_of_children (List.ne_nil_of_mem hc)
  refine ⟨i, (hd.leads hbranch).locate hf ?_⟩
  rw [List.getElem?_eq_getElem hi, hget]

/-- Where no identity occurs twice, a component with a child of an identity owns the sequence in
which that identity is found. -/
theorem holds_of_any_child {f : Forest ι} (hf : f.ids.Nodup) {id : ι} {a : Address}
    (ha : f.locate? id = some a) {d : Component ι} (hd : d ∈ f.nodes)
    (hany : d.children.any (·.id = id) = true) : ∃ b, f.Holds b d ∧ a.owner = b.path := by
  rw [← map_snd_places] at hd
  obtain ⟨⟨b, d⟩, hplace, rfl⟩ := List.mem_map.mp hd
  have hholds : f.Holds b d := holds_of_mem_places hplace
  obtain ⟨x, hx, hid⟩ := List.any_eq_true.mp hany
  obtain ⟨i, hchild⟩ := hholds.locate_child hf hx
  rw [of_decide_eq_true hid, ha] at hchild
  cases hchild
  exact ⟨b, hholds, rfl⟩

theorem parentOf_root {f : Forest ι} (hf : f.ids.Nodup) {id : ι} {i : Nat}
    (h : f.locate? id = some ⟨[], i⟩) : f.parentOf? id = none := by
  rw [parentOf?, Option.map_eq_none_iff, List.find?_eq_none]
  intro d hd hany
  obtain ⟨b, -, hpath⟩ := holds_of_any_child hf h hd hany
  simp [Address.path] at hpath

theorem parentOf_child {f : Forest ι} (hf : f.ids.Nodup) {b : Address} {c d : Component ι}
    (hd : f.Holds b d) (hc : c ∈ d.children) : f.parentOf? c.id = some d.id := by
  obtain ⟨i, hlocate⟩ := hd.locate_child hf hc
  have hnode : d ∈ f.nodes := by
    rw [← map_snd_places]
    exact List.mem_map.mpr ⟨_, List.mem_of_find?_eq_some (hd.find_places hf), rfl⟩
  cases hfind : f.nodes.find? fun e => e.children.any (·.id = c.id) with
  | none =>
      refine absurd ?_ (List.find?_eq_none.mp hfind d hnode)
      exact List.any_eq_true.mpr ⟨c, hc, decide_eq_true rfl⟩
  | some e =>
      -- both own the sequence in which the child is found, so they stand at one address
      have hany : e.children.any (·.id = c.id) = true := by simpa using List.find?_some hfind
      obtain ⟨b', he, hpath⟩ := holds_of_any_child hf hlocate (List.mem_of_find?_eq_some hfind) hany
      obtain ⟨howner, hindex⟩ := List.append_inj' hpath rfl
      obtain rfl : b = b' := by
        obtain ⟨owner, k⟩ := b
        obtain ⟨owner', k'⟩ := b'
        cases howner
        cases hindex
        rfl
      cases hd.at?.symm.trans he.at?
      rw [parentOf?, hfind]
      rfl

/-- Where no identity occurs twice, the parent that is looked up is the one under which the
component stands. -/
theorem owned_parentOf {f : Forest ι} (hf : f.ids.Nodup) {a : Address} {c : Component ι}
    (hc : f.Holds a c) :
    ∃ s, f.Owned (f.parentOf? c.id) a.owner s ∧ s[a.index]? = some c := by
  obtain ⟨owner, index⟩ := a
  obtain ⟨s, hs, hi⟩ := hc
  change Leads owner f s at hs
  change s[index]? = some c at hi
  refine ⟨s, ?_, hi⟩
  show f.Owned (f.parentOf? c.id) owner s
  rcases List.eq_nil_or_concat' owner with rfl | ⟨path, k, rfl⟩
  · have hparent : f.parentOf? c.id = none := parentOf_root hf (hs.locate hf hi)
    cases hs
    rw [hparent]
    exact ⟨rfl, rfl⟩
  · obtain ⟨d, hd, hbranch, rfl⟩ := hs.owner
    have hparent : f.parentOf? c.id = some d.id := parentOf_child hf hd (List.mem_of_getElem? hi)
    rw [hparent]
    exact ⟨_, d, hd.find_places hf, hbranch, rfl, rfl⟩

/-! ## Moves -/

/-- A branch is found exactly if the first component with the identity is one. -/
theorem isSome_branch_iff {f : Forest ι} {p : ι} :
    (f.branch? p).isSome = true ↔ ∃ b, f.get? p = some b ∧ b.isBranch = true := by
  constructor
  · intro h
    obtain ⟨a, ha⟩ := Option.isSome_iff_exists.mp h
    obtain ⟨b, hlocate, hb, -, hbranch⟩ := branch_eq_some ha
    exact ⟨b, by rw [get?, hlocate, Option.bind_some, hb.at?], hbranch⟩
  · rintro ⟨b, hget, hbranch⟩
    obtain ⟨a, ha, hb, -⟩ := get_eq_some hget
    rw [branch_of_holds ha hb, if_pos hbranch]
    rfl

theorem mayHold_iff {f : Forest ι} {moving : Component ι} {p : ι} :
    f.mayHold moving p = true ↔
      p ∉ ids [moving] ∧ ∃ b, f.get? p = some b ∧ b.isBranch = true := by
  rw [mayHold, Bool.and_eq_true, Bool.not_eq_true', ← Bool.not_eq_true, contains_iff,
    isSome_branch_iff]

/-- A move as it is made in place: whether it is made, and the forest that is left.  The tree is
out before its new place is looked for, and would be lost if there were none. -/
def moveInPlace (f : Forest ι) (id : ι) (parent : Option ι) (index : Int) : Bool × Forest ι :=
  match f.get? id with
  | none => (false, f)
  | some moving =>
    if (parent.map (f.mayHold moving)).getD true then
      match f.remove? id with
      | none => (false, f)
      | some (c, rest) =>
        match rest.insertChildAt? parent index c with
        | none => (false, rest)
        | some g => (true, g)
    else (false, f)

/-- A move in place changes the forest exactly if it is made. -/
theorem moveInPlace_eq (f : Forest ι) (id : ι) (parent : Option ι) (index : Int) :
    f.moveInPlace id parent index =
      match f.moveTo? id parent index with
      | some g => (true, g)
      | none => (false, f) := by
  cases hget : f.get? id with
  | none => simp [moveInPlace, moveTo?, hget]
  | some moving =>
      by_cases hguard : (parent.map (f.mayHold moving)).getD true = true
      case neg => simp [moveInPlace, moveTo?, hget, hguard]
      case pos =>
        obtain ⟨c, r, hr, hc⟩ := exists_remove (get_isSome_iff.mp (by rw [hget]; rfl))
        -- the checks have been passed, so the new place is found
        have hmade : (f.moveTo? id parent index).isSome = true := by
          refine (moveTo_isSome_iff index).mpr ⟨moving, hget, ?_⟩
          rintro p rfl
          exact hguard
        simp only [moveTo?, hget, hguard, hr, Option.bind_eq_bind, Option.bind_some,
          if_true] at hmade ⊢
        obtain ⟨g, hg⟩ := Option.isSome_iff_exists.mp hmade
        simp [moveInPlace, hget, hguard, hr, hg]

/-- A tree that is out and finds its place can move there. -/
theorem moveTo_of_remove {f g r : Forest ι} {id : ι} {parent : Option ι} {index : Int}
    {c : Component ι} (hr : f.remove? id = some (c, r))
    (hg : r.insertChildAt? parent index c = some g)
    (hparent : ∀ p, parent = some p → p ∉ ids [c]) : f.moveTo? id parent index = some g := by
  have hget := get_of_remove hr
  have hguard : (parent.map (f.mayHold c)).getD true = true := by
    cases parent with
    | none => rfl
    | some p =>
        have hout := hparent p rfl
        obtain ⟨a, ha, -⟩ := Option.map_eq_some_iff.mp hg
        have hbranch : (f.branch? p).isSome = true := by
          rw [← isSome_branch_remove hr hout, ha]
          rfl
        have hcontains : contains [c] p = false := by
          rw [← Bool.not_eq_true, contains_iff]
          exact hout
        show f.mayHold c p = true
        rw [mayHold, hcontains, hbranch]
        rfl
  simp [moveTo?, hget, hguard, hr, hg]

theorem moveTo_eq_some {f g : Forest ι} {id : ι} {parent : Option ι} {index : Int}
    (h : f.moveTo? id parent index = some g) :
    ∃ c r, f.remove? id = some (c, r) ∧ r.insertChildAt? parent index c = some g ∧
      ∀ p, parent = some p → p ∉ ids [c] := by
  obtain ⟨moving, hget, h⟩ := Option.bind_eq_some_iff.mp h
  split at h
  next hguard =>
    obtain ⟨⟨c, r⟩, hr, hg⟩ := Option.bind_eq_some_iff.mp h
    cases hget.symm.trans (get_of_remove hr)
    refine ⟨moving, r, hr, hg, ?_⟩
    rintro p rfl
    exact (mayHold_iff.mp hguard).1
  next => cases h

/-- The tree `c`, which stands at the address `a` and is the first one with the identity, leaves
the forest `f`, which is then `r`, and comes in under the parent, which makes it `g`. -/
structure Relocated (f : Forest ι) (id : ι) (parent : Option ι) (index : Int) (a : Address)
    (c : Component ι) (r g : Forest ι) : Prop where
  first : f.places.find? (·.2.id = id) = some (a, c)
  leaves : Exchanged c [] a f r
  /-- The components that do not leave keep their order, their fields and their depth. -/
  rest : ∃ before behind, Spliced before behind a.owner.length [c] [] f r
  /-- The parent is no part of what leaves, and it is found as before. -/
  outside : ∀ p, parent = some p → p ∉ ids [c] ∧
    (r.get? p).map Component.bare = (f.get? p).map Component.bare
  /-- The position is clamped to the ends of the sequence as it is without the tree. -/
  comes : ∃ path s pre post, r.Owned parent path s ∧ s = pre ++ post ∧
    (pre.length : Int) = max 0 (min index s.length) ∧ Edited s (pre ++ c :: post) path r g
  comprises : Comprises g [] f

theorem relocated_of_remove {f g r : Forest ι} {id : ι} {parent : Option ι} {index : Int}
    {c : Component ι} (hr : f.remove? id = some (c, r))
    (hg : r.insertChildAt? parent index c = some g)
    (hparent : ∀ p, parent = some p → p ∉ ids [c]) :
    ∃ a, f.Relocated id parent index a c r g := by
  obtain ⟨a, ha, hc, -, rfl⟩ := remove_eq_some hr
  refine ⟨a, ?_⟩
  constructor
  case first => exact find_places_of_locate ha hc
  case leaves => exact hc.exchanged_removeAt
  case rest =>
    obtain ⟨d, before, behind, hstretch⟩ := exists_stretch ha
    obtain ⟨r, hremove, hspliced⟩ := hstretch.remove
    cases hr.symm.trans hremove
    exact ⟨before, behind, hspliced⟩
  case outside => exact fun p hp => ⟨hparent p hp, get_remove_bare hr (hparent p hp)⟩
  case comes =>
    obtain ⟨path, s, howned, rfl⟩ := insertChildAt_eq_some hg
    let i := min index.toNat s.length
    refine ⟨path, s, s.take i, s.drop i, howned, (List.take_append_drop i s).symm, ?_,
      howned.leads.edited (insertClamped index c)⟩
    rw [List.length_take]
    omega
  case comprises => exact Comprises.swap (comprises_insertChildAt hg) (comprises_remove hr)

/-- A move is made exactly if there is something to move and the new parent, if it is not to be a
root, is a branch outside of it; a move that is not made leaves the forest as it is.  What is moved
comes to its new place with all below it, and nothing else changes.  Identities may occur more
than once.  Where none does, the move back to the old parent and the old position is made and
restores the forest. -/
theorem moveTo_relocates (f : Forest ι) (id : ι) (parent : Option ι) (index : Int) :
    ((f.moveTo? id parent index).isSome = true ↔ ∃ c, f.get? id = some c ∧
      ∀ p, parent = some p → p ∉ ids [c] ∧ ∃ b, f.get? p = some b ∧ b.isBranch = true) ∧
    f.moveInPlace id parent index = (match f.moveTo? id parent index with
      | some g => (true, g)
      | none => (false, f)) ∧
    ∀ g, f.moveTo? id parent index = some g → ∃ a c r, f.Relocated id parent index a c r g ∧
      (f.ids.Nodup →
        (∃ s, f.Owned (f.parentOf? id) a.owner s ∧ s[a.index]? = some c) ∧
        ∀ old path s (i : Nat), f.Owned old path s → s[i]? = some c →
          g.moveTo? id old i = some f) := by
  refine ⟨?_, moveInPlace_eq f id parent index, fun g hmove => ?_⟩
  · simp only [moveTo_isSome_iff, mayHold_iff]
  · obtain ⟨c, r, hr, hg, hparent⟩ := moveTo_eq_some hmove
    obtain ⟨a, hrelocated⟩ := relocated_of_remove hr hg hparent
    refine ⟨a, c, r, hrelocated, fun hf => ?_⟩
    obtain ⟨-, hc, rfl⟩ := locate_of_find_places hrelocated.first
    refine ⟨owned_parentOf hf hc, fun old path s i howned hi => ?_⟩
    have hout : ∀ j ∈ ids [c], j ∉ r.ids := ((comprises_remove hr).nodup_iff.mp hf).2.2
    have hback := insertChildAt_of_remove hf howned hi hr
    refine moveTo_of_remove (remove_of_insertChildAt hg (hout c.id (by simp [ids_cons]))) hback ?_
    -- the old parent is found in what is left, so it is not part of what moves
    rintro p rfl hp
    obtain ⟨b, hb, -⟩ := Option.map_eq_some_iff.mp hback
    obtain ⟨-, hlocate, -⟩ := branch_eq_some hb
    exact hout p hp (locate_isSome_iff.mp (by rw [hlocate]; rfl))

/-- A button moves out of a card into a container, and back to its place behind the text. -/
theorem moveTo_relocates_sample :
    let text : Component Id := .leaf "t" none (.text {})
    let button : Component Id := .leaf "b" none (.button {})
    let f : Forest Id :=
      [.branch "a" none (.card {}) [text, button], .branch "c" none (.container {}) []]
    let g : Forest Id :=
      [.branch "a" none (.card {}) [text], .branch "c" none (.container {}) [button]]
    f.ids.Nodup ∧ f.moveTo? "b" (some "c") 5 = some g ∧ f.parentOf? "b" = some "a" ∧
      g.moveTo? "b" (some "a") 1 = some f := by
  intro text button f g
  have hids : f.ids = ["a", "t", "b", "c"] := by decide +kernel
  have hnodup : f.ids.Nodup := by rw [hids]; decide
  have hmove : f.moveTo? "b" (some "c") 5 = some g := rfl
  obtain ⟨a, c, r, hrelocated, hback⟩ := (moveTo_relocates f "b" (some "c") 5).2.2 g hmove
  cases hrelocated.first
  obtain ⟨-, hreturn⟩ := hback hnodup
  refine ⟨hnodup, hmove, by decide +kernel, hreturn (some "a") [0] [text, button] 1 ?_ rfl⟩
  exact ⟨⟨[], 0⟩, .branch "a" none (.card {}) [text, button], rfl, rfl, rfl, rfl⟩

end Forest

end PageDesign
