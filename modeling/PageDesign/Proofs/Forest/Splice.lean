/-
# PageDesign.Proofs.Forest.Splice -- an edit is a splice of the listing

The listing of a forest in pre-order is flat, and an edit happens in one sequence somewhere
inside.  `locate_frame` brings the two together: around the address found for an identity the
listing falls into what comes before it, where the identity does not occur, the tree that stands
there, and what comes behind it; whatever trees are put in the place of that one, the two ends
stay as they are, with the fields and the depth of every component.

`Spliced` says this of two forests, and `Stretch` of all edits that name a component.
`edits_splice` has every edit, and what can still be found after a removal.
-/
import PageDesign.Proofs.Forest.Places

namespace PageDesign.Forest

variable {ι : Type}

/-! ## Exchanges at an address -/

/-- A forest with some trees in the place of the one at an address. -/
def exchangeAt (f : Forest ι) (a : Address) (cs : Forest ι) : Forest ι :=
  editSequence (fun s => s.take a.index ++ cs ++ s.drop (a.index + 1)) a.owner f

/-- An edit of a sequence is known from what it makes of that sequence. -/
theorem Leads.editSequence_congr {path : List Nat} {f s : Forest ι} (h : Leads path f s)
    {e₁ e₂ : Forest ι → Forest ι} (he : e₁ s = e₂ s) :
    editSequence e₁ path f = editSequence e₂ path f := by
  induction h with
  | here f => exact he
  | @down i path f s c hi _ _ ih =>
      rw [editSequence, editSequence, modify_eq_take_cons_drop hi, modify_eq_take_cons_drop hi,
        ih he]

theorem removeAt_eq (f : Forest ι) (a : Address) : f.removeAt a = f.exchangeAt a [] := by
  unfold removeAt exchangeAt
  congr 1
  funext s
  rw [List.eraseIdx_eq_take_drop_succ, List.append_nil]

theorem exchangeAt_root (pre cs post : Forest ι) (c : Component ι) :
    (pre ++ c :: post).exchangeAt ⟨[], pre.length⟩ cs = pre ++ cs ++ post := by
  have hbehind : (pre ++ c :: post).drop (pre.length + 1) = post := by
    rw [List.drop_append, List.drop_of_length_le (Nat.le_succ _)]
    simp
  rw [exchangeAt, editSequence, List.take_left, hbehind]

theorem exchangeAt_below (pre cs post : Forest ι) (c : Component ι) (b : Address) :
    (pre ++ c :: post).exchangeAt (b.below pre.length) cs =
      pre ++ c.withChildren (exchangeAt c.children b cs) :: post := by
  have hi : (pre ++ c :: post)[pre.length]? = some c := by simp
  rw [exchangeAt, Address.below, editSequence, modify_eq_take_cons_drop hi]
  simp [exchangeAt]

namespace Holds

variable {f : Forest ι} {a : Address} {c : Component ι}

theorem exchangeAt_self (h : f.Holds a c) : f.exchangeAt a [c] = f := by
  obtain ⟨s, hs, hi⟩ := h
  have hself : s.take a.index ++ [c] ++ s.drop (a.index + 1) = s := by
    rw [List.append_assoc, List.singleton_append]
    exact (eq_take_cons_drop hi).symm
  calc f.exchangeAt a [c]
      = editSequence (fun s => s) a.owner f := hs.editSequence_congr hself
    _ = f := editSequence_self hs

theorem replaceAt_eq (h : f.Holds a c) (new : Component ι) :
    f.replaceAt a new = f.exchangeAt a [new] := by
  obtain ⟨s, hs, hi⟩ := h
  obtain ⟨hlt, -⟩ := List.getElem?_eq_some_iff.mp hi
  refine hs.editSequence_congr ?_
  rw [List.set_eq_take_append_cons_drop, if_pos hlt, List.append_assoc, List.singleton_append]

/-- To edit the children of a branch is to put the branch with other children in its place. -/
theorem editSequence_path (h : f.Holds a c) (edit : Forest ι → Forest ι) :
    editSequence edit a.path f = f.exchangeAt a [c.withChildren (edit c.children)] := by
  obtain ⟨owner, index⟩ := a
  obtain ⟨s, hs, hi⟩ := h
  change Leads owner f s at hs
  change s[index]? = some c at hi
  show editSequence edit (owner ++ [index]) f = editSequence _ owner f
  induction hs with
  | here f =>
      rw [List.nil_append, editSequence, editSequence, modify_eq_take_cons_drop hi,
        List.append_assoc, List.singleton_append]
      rfl
  | @down i path f s d hd _ _ ih =>
      rw [List.cons_append, editSequence, editSequence, modify_eq_take_cons_drop hd,
        modify_eq_take_cons_drop hd, ih hi]

end Holds

/-! ## The listing around an address -/

theorem map_id_entries (d : Nat) (f : Forest ι) : (entries d f).map (·.1.id) = f.ids := by
  rw [ids_eq_map_parts, ← map_fst_entries d, List.map_map]
  rfl

theorem entries_singleton (d : Nat) (c : Component ι) :
    entries d [c] = (c.bare, d) :: entries (d + 1) c.children := by
  rw [entries_cons, entries_nil, List.append_nil]

section Locate

variable [DecidableEq ι]

/-- The identity does not occur before the address that is found for it, and trees that are put
there leave the listing before it and behind it as it is. -/
theorem locate_frame {f : Forest ι} {id : ι} {a : Address} (h : f.locate? id = some a)
    (d : Nat) : ∃ before behind : List (Component ι × Nat), (∀ e ∈ before, e.1.id ≠ id) ∧
      ∀ cs, entries d (f.exchangeAt a cs) =
        before ++ entries (d + a.owner.length) cs ++ behind := by
  induction f using Forest.induction_children generalizing a d with
  | step f ih =>
      obtain ⟨pre, c, post, rfl, hpre, hc⟩ := locateFrom_eq_some h
      have hbefore : ∀ e ∈ entries d pre, e.1.id ≠ id := by
        intro e he hid
        rw [← map_id_entries d] at hpre
        exact hpre (List.mem_map.mpr ⟨e, he, hid⟩)
      rw [Nat.zero_add, locateIn_eq] at hc
      split at hc
      next hid =>
        cases hc
        refine ⟨entries d pre, entries d post, hbefore, fun cs => ?_⟩
        rw [exchangeAt_root, entries_append, entries_append]
        rfl
      next hid =>
        -- the root is not meant, so it is passed on the way, with the roots before it
        obtain ⟨b, hb, rfl⟩ := Option.map_eq_some_iff.mp hc
        obtain ⟨before, behind, hbelow, hframe⟩ := ih c (by simp) hb (d + 1)
        refine ⟨entries d pre ++ (c.bare, d) :: before, behind ++ entries d post, ?_, fun cs => ?_⟩
        · intro e he
          rw [List.mem_append, List.mem_cons] at he
          rcases he with he | rfl | he
          · exact hbefore e he
          · rwa [Component.id_bare]
          · exact hbelow e he
        · have hbranch : c.isBranch = true := by
            apply Component.isBranch_of_children
            intro hnil
            rw [hnil] at hb
            cases hb
          have hdepth : d + (b.below pre.length).owner.length = d + 1 + b.owner.length := by
            simp only [Address.below, List.length_cons]
            omega
          rw [exchangeAt_below, entries_append, entries_cons, Component.bare_withChildren,
            Component.children_withChildren hbranch, hframe, hdepth]
          simp only [List.append_assoc, List.cons_append]

end Locate

/-! ## Splices -/

/-- The listings of two forests have two ends in common, `before` and `behind`.  What stands
between them are the trees `bs` in the first and the trees `cs` in the second, listed from depth
`d` on. -/
structure Spliced (before behind : List (Component ι × Nat)) (d : Nat) (bs cs f g : Forest ι) :
    Prop where
  entries_old : entries 0 f = before ++ entries d bs ++ behind
  entries_new : entries 0 g = before ++ entries d cs ++ behind
  ids_old : ids f = before.map (·.1.id) ++ ids bs ++ behind.map (·.1.id)
  ids_new : ids g = before.map (·.1.id) ++ ids cs ++ behind.map (·.1.id)

theorem Spliced.of_entries {before behind : List (Component ι × Nat)} {d : Nat}
    {bs cs f g : Forest ι} (hf : entries 0 f = before ++ entries d bs ++ behind)
    (hg : entries 0 g = before ++ entries d cs ++ behind) :
    Spliced before behind d bs cs f g := by
  have hids {h es : Forest ι} (heq : entries 0 h = before ++ entries d es ++ behind) :
      ids h = before.map (·.1.id) ++ ids es ++ behind.map (·.1.id) := by
    rw [← map_id_entries 0, heq, List.map_append, List.map_append, map_id_entries]
  exact ⟨hf, hg, hids hf, hids hg⟩

/-- Trees put between the roots. -/
theorem spliced_roots (pre new post : Forest ι) :
    Spliced (entries 0 pre) (entries 0 post) 0 [] new (pre ++ post) (pre ++ new ++ post) := by
  apply Spliced.of_entries
  · rw [entries_append, entries_nil, List.append_nil]
  · rw [entries_append, entries_append]

/-- The tree `c` stands at the address `a`, which is the one found for the identity, and in the
listing it stands between `before` and `behind`.  Every edit that names the identity is made
there: what comes in or leaves is one stretch of the listing. -/
structure Stretch [DecidableEq ι] (f : Forest ι) (id : ι) (a : Address) (c : Component ι)
    (before behind : List (Component ι × Nat)) : Prop where
  holds : f.Holds a c
  id_eq : c.id = id
  first : ∀ e ∈ before, e.1.id ≠ id
  remove : ∃ g, f.remove? id = some (c, g) ∧ Spliced before behind a.owner.length [c] [] f g
  replace : ∀ new, ∃ g, f.replace? id new = some g ∧
    Spliced before behind a.owner.length [c] [new] f g
  /-- A new last child comes behind the component and all that is below it. -/
  addChild : ∀ new, if c.isBranch then ∃ g, f.addChild? id new = some g ∧
      Edited c.children (c.children ++ [new]) a.path f g ∧
      Spliced (before ++ entries a.owner.length [c]) behind (a.owner.length + 1) [] [new] f g
    else f.addChild? id new = none
  /-- A new child comes behind the siblings before it with all that is below them, or right behind
  the component if there are none. -/
  insertChildAt : ∀ (index : Int) new, if c.isBranch then
      ∃ pre post g, c.children = pre ++ post ∧
        (pre.length : Int) = max 0 (min index c.children.length) ∧
        f.insertChildAt? (some id) index new = some g ∧
        Edited c.children (pre ++ new :: post) a.path f g ∧
        Spliced (before ++ (c.bare, a.owner.length) :: entries (a.owner.length + 1) pre)
          (entries (a.owner.length + 1) post ++ behind) (a.owner.length + 1) [] [new] f g
    else f.insertChildAt? (some id) index new = none

/-- An edit of the children of a branch splices the listing between those that stay before and
those that stay behind. -/
theorem spliced_children {f : Forest ι} {a : Address} {c : Component ι}
    {before behind : List (Component ι × Nat)} (hc : f.Holds a c) (hbranch : c.isBranch = true)
    (hframe : ∀ cs, entries 0 (f.exchangeAt a cs) =
      before ++ entries a.owner.length cs ++ behind)
    {pre post : Forest ι} (hchildren : c.children = pre ++ post) (new : Component ι)
    (edit : Forest ι → Forest ι) (hedit : edit c.children = pre ++ new :: post) :
    Spliced (before ++ (c.bare, a.owner.length) :: entries (a.owner.length + 1) pre)
      (entries (a.owner.length + 1) post ++ behind) (a.owner.length + 1) [] [new] f
      (editSequence edit a.path f) := by
  apply Spliced.of_entries
  · rw [← hc.exchangeAt_self, hframe, entries_singleton, hchildren, entries_append, entries_nil]
    simp only [List.append_assoc, List.cons_append, List.nil_append]
  · have hnew : entries (a.owner.length + 1) (new :: post) =
        entries (a.owner.length + 1) [new] ++ entries (a.owner.length + 1) post := by
      rw [← entries_append, List.singleton_append]
    rw [hc.editSequence_path, hframe, entries_singleton, Component.bare_withChildren,
      Component.children_withChildren hbranch, hedit, entries_append, hnew]
    simp only [List.append_assoc, List.cons_append]

variable [DecidableEq ι]

theorem exists_stretch {f : Forest ι} {id : ι} {a : Address} (h : f.locate? id = some a) :
    ∃ c before behind, f.Stretch id a c before behind := by
  obtain ⟨c, hc, hid⟩ := locate_holds h
  obtain ⟨before, behind, hfirst, hframe⟩ := locate_frame h 0
  rw [Nat.zero_add] at hframe
  have hself : entries 0 f = before ++ entries a.owner.length [c] ++ behind := by
    rw [← hframe, hc.exchangeAt_self]
  refine ⟨c, before, behind, ?_⟩
  constructor
  case holds => exact hc
  case id_eq => exact hid
  case first => exact hfirst
  case remove =>
    refine ⟨f.removeAt a, by simp [remove?, h, hc.at?], .of_entries hself ?_⟩
    rw [removeAt_eq, hframe]
  case replace =>
    intro new
    refine ⟨f.replaceAt a new, by rw [replace?, h]; rfl, .of_entries hself ?_⟩
    rw [hc.replaceAt_eq, hframe]
  case addChild =>
    intro new
    rw [addChild?, branch_of_holds h hc]
    split
    next hbranch =>
      have hspliced := spliced_children hc hbranch hframe (List.append_nil c.children).symm new
        (· ++ [new]) rfl
      rw [← entries_singleton, entries_nil, List.nil_append] at hspliced
      exact ⟨_, rfl, (hc.leads hbranch).edited (· ++ [new]), hspliced⟩
    next => rfl
  case insertChildAt =>
    intro index new
    rw [insertChildAt?, branch_of_holds h hc]
    split
    next hbranch =>
      let i := min index.toNat c.children.length
      have hsplit : c.children = c.children.take i ++ c.children.drop i :=
        (List.take_append_drop i _).symm
      refine ⟨c.children.take i, c.children.drop i, _, hsplit, ?_, rfl,
        (hc.leads hbranch).edited (insertClamped index new),
        spliced_children hc hbranch hframe hsplit new (insertClamped index new) rfl⟩
      rw [List.length_take]
      omega
    next => rfl

/-! ## What is found after a removal -/

/-- A removal leaves alone what is found first for an identity that does not leave. -/
theorem get_remove_bare {f g : Forest ι} {id i : ι} {c : Component ι}
    (h : f.remove? id = some (c, g)) (hi : i ∉ ids [c]) :
    (g.get? i).map Component.bare = (f.get? i).map Component.bare := by
  obtain ⟨pre, post, hf, hg⟩ := parts_remove h
  have hget (e : Forest ι) : (e.get? i).map Component.bare = e.parts.find? (·.id = i) := by
    rw [get_eq_find, parts, List.find?_map]
    simp only [Function.comp_def, Component.id_bare]
  -- the stretch that leaves has no such identity, so the first one is before or behind it
  have hnone : (parts [c]).find? (·.id = i) = none := by
    rw [ids_eq_map_parts] at hi
    rw [List.find?_eq_none]
    intro d hd hid
    exact hi (List.mem_map.mpr ⟨d, hd, by simpa using hid⟩)
  rw [hget, hget, hf, hg, List.find?_append, List.find?_append, List.find?_append, hnone,
    Option.or_none]

/-- Every edit of a forest is a splice of its listing in pre-order: edits that name an identity at
the first component that has it, and they do nothing if there is none; edits of the roots at a
clamped position or at the end.  Identities may occur more than once.  Where none does, no
identity of a tree that is removed is found afterwards, and every other one still is, with the
same fields. -/
theorem edits_splice (f : Forest ι) (id : ι) :
    (match f.locate? id with
      | some a => ∃ c before behind, f.Stretch id a c before behind
      | none => f.Misses id) ∧
    (∀ (index : Int) new, ∃ pre post, f = pre ++ post ∧
      (pre.length : Int) = max 0 (min index f.length) ∧
      f.insertChildAt? none index new = some (pre ++ new :: post) ∧
      Spliced (entries 0 pre) (entries 0 post) 0 [] [new] f (pre ++ new :: post)) ∧
    (∀ new, Spliced (entries 0 f) [] 0 [] [new] f (f.addRoot new)) ∧
    (f.ids.Nodup → ∀ c g, f.remove? id = some (c, g) →
      (∀ i ∈ ids [c], g.get? i = none) ∧
      ∀ i ∈ f.ids, i ∉ ids [c] →
        ∃ d e, f.get? i = some d ∧ g.get? i = some e ∧ e.bare = d.bare) := by
  refine ⟨?_, fun index new => ?_, fun new => ?_, fun hf c g hg => ?_⟩
  · have hsearches := searches_places f id
    cases h : f.locate? id with
    | some a => exact exists_stretch h
    | none =>
        cases hfind : f.places.find? (·.2.id = id) with
        | none => exact misses_of_find hfind
        | some p =>
            rw [hfind, h] at hsearches
            cases hsearches.1
  · let i := min index.toNat f.length
    have hsplit : f.take i ++ f.drop i = f := List.take_append_drop i f
    refine ⟨f.take i, f.drop i, hsplit.symm, ?_, rfl, ?_⟩
    · rw [List.length_take]
      omega
    · have hspliced := spliced_roots (f.take i) [new] (f.drop i)
      rwa [hsplit, List.append_assoc] at hspliced
  · have hspliced := spliced_roots f [new] []
    rwa [List.append_nil, List.append_nil] at hspliced
  · obtain ⟨-, -, happart⟩ := (comprises_remove hg).nodup_iff.mp hf
    constructor
    · intro i hi
      have hgone : ¬ (g.get? i).isSome = true := fun h => happart i hi (get_isSome_iff.mp h)
      simpa using hgone
    · intro i hi hout
      obtain ⟨d, hd⟩ := Option.isSome_iff_exists.mp (get_isSome_iff.mpr hi)
      have hbare := get_remove_bare hg hout
      rw [hd, Option.map_some, Option.map_eq_some_iff] at hbare
      obtain ⟨e, he, heq⟩ := hbare
      exact ⟨d, e, hd, he, heq⟩

/-- A container leaves a card, with the text in it; the button beside it stays. -/
theorem edits_splice_sample :
    let text : Component Id := .leaf "t" none (.text {})
    let button : Component Id := .leaf "b" none (.button {})
    let container : Component Id := .branch "c" none (.container {}) [text]
    let f : Forest Id := [.branch "a" none (.card {}) [container, button]]
    let g : Forest Id := [.branch "a" none (.card {}) [button]]
    f.ids.Nodup ∧ f.remove? "c" = some (container, g) ∧ g.get? "c" = none ∧ g.get? "t" = none ∧
      ∃ e, g.get? "b" = some e ∧ e.bare = button := by
  intro text button container f g
  have hids : f.ids = ["a", "c", "t", "b"] := by decide +kernel
  have hnodup : f.ids.Nodup := by rw [hids]; decide
  have hremove : f.remove? "c" = some (container, g) := rfl
  have hin : ids [container] = ["c", "t"] := by decide +kernel
  obtain ⟨hgone, hstays⟩ := (edits_splice f "c").2.2.2 hnodup container g hremove
  rw [hin] at hgone hstays
  rw [hids] at hstays
  refine ⟨hnodup, hremove, hgone "c" (by decide), hgone "t" (by decide), ?_⟩
  obtain ⟨d, e, hd, he, hbare⟩ := hstays "b" (by decide) (by decide)
  cases (show f.get? "b" = some button from rfl).symm.trans hd
  exact ⟨e, he, hbare⟩

end PageDesign.Forest
