/-
# PageDesign.Proofs.Forest.Locate -- what an address found for an identity says

An identity is looked for in pre-order.  It is found exactly if it occurs (`contains_iff`), and
the address that is found leads through branches to a component that has it (`locate_holds`),
the first one of the listing (`get_eq_find`).  `Leads` and `Holds` state this apart from the
search, and every edit is described by them.
-/
import PageDesign.Forest.Edit
import PageDesign.Proofs.Forest.Preorder

namespace PageDesign

variable {ι : Type}

namespace Component

theorem children_withChildren {c : Component ι} (hc : c.isBranch = true) (cs : Forest ι) :
    (c.withChildren cs).children = cs := by
  cases c with
  | leaf i a l => cases hc
  | branch i a f ds => rfl

/-- Only a branch has children. -/
theorem isBranch_of_children {c : Component ι} (hc : c.children ≠ []) : c.isBranch = true := by
  cases c with
  | leaf i a l => exact absurd rfl hc
  | branch i a f ds => rfl

end Component

namespace Forest

/-! ## Places -/

/-- Positions lead through branches from a forest down to a sequence of siblings. -/
inductive Leads : List Nat → Forest ι → Forest ι → Prop
  | here (f : Forest ι) : Leads [] f f
  | down {i : Nat} {path : List Nat} {f s : Forest ι} {c : Component ι} :
      f[i]? = some c → c.isBranch = true → Leads path c.children s → Leads (i :: path) f s

/-- A component stands at an address. -/
def Holds (f : Forest ι) (a : Address) (c : Component ι) : Prop :=
  ∃ s, Leads a.owner f s ∧ s[a.index]? = some c

theorem Leads.sequence? {path : List Nat} {f s : Forest ι} (h : Leads path f s) :
    sequence? path f = some s := by
  induction h with
  | here f => rfl
  | down hc _ _ ih => rw [Forest.sequence?, hc, Option.bind_some, ih]

theorem Leads.snoc {path : List Nat} {f s : Forest ι} {i : Nat} {c : Component ι}
    (h : Leads path f s) (hi : s[i]? = some c) (hc : c.isBranch = true) :
    Leads (path ++ [i]) f c.children := by
  induction h with
  | here f => exact .down hi hc (.here _)
  | down hd hbranch _ ih => exact .down hd hbranch (ih hi)

theorem Holds.at? {f : Forest ι} {a : Address} {c : Component ι} (h : f.Holds a c) :
    f.at? a = some c := by
  obtain ⟨s, hs, hi⟩ := h
  rw [Forest.at?, hs.sequence?, Option.bind_some, hi]

/-- The children of a branch at an address are the sequence that its address owns. -/
theorem Holds.leads {f : Forest ι} {a : Address} {c : Component ι} (h : f.Holds a c)
    (hc : c.isBranch = true) : Leads a.path f c.children := by
  obtain ⟨s, hs, hi⟩ := h
  exact hs.snoc hi hc

/-! ## The search -/

variable [DecidableEq ι]

theorem locateIn_eq (id : ι) (i : Nat) (c : Component ι) :
    locateIn id i c = if c.id = id then some ⟨[], i⟩
      else (locateFrom id 0 c.children).map (Address.below i) := by
  cases c with
  | leaf j a l => rw [locateIn]; rfl
  | branch j a f cs => rw [locateIn]; rfl

theorem locateFrom_cons (id : ι) (i : Nat) (c : Component ι) (cs : Forest ι) :
    locateFrom id i (c :: cs) = (locateIn id i c).or (locateFrom id (i + 1) cs) := by
  rw [locateFrom]
  cases locateIn id i c <;> rfl

/-- The search fails exactly if no component has the identity. -/
theorem locateFrom_eq_none_iff {id : ι} {i : Nat} {f : Forest ι} :
    locateFrom id i f = none ↔ id ∉ f.ids := by
  induction f using Forest.induction generalizing i with
  | nil => simp [locateFrom]
  | cons c cs ihc ihcs =>
      rw [locateFrom_cons, locateIn_eq, ids_cons, Option.or_eq_none_iff, ihcs]
      by_cases hid : c.id = id
      · simp [hid]
      · simp [hid, Ne.symm hid, ihc]

theorem locateIn_eq_none_iff {id : ι} {i : Nat} {c : Component ι} :
    locateIn id i c = none ↔ id ∉ ids [c] := by
  rw [← locateFrom_eq_none_iff (i := i), locateFrom_cons]
  cases locateIn id i c <;> simp [locateFrom]

theorem locateFrom_eq_some {id : ι} {i : Nat} {f : Forest ι} {a : Address}
    (h : locateFrom id i f = some a) :
    ∃ pre c post, f = pre ++ c :: post ∧ id ∉ ids pre ∧
      locateIn id (i + pre.length) c = some a := by
  induction f generalizing i with
  | nil => cases h
  | cons c cs ih =>
      rw [locateFrom_cons, Option.or_eq_some_iff] at h
      rcases h with h | ⟨hnone, h⟩
      · exact ⟨[], c, cs, rfl, by simp, h⟩
      · obtain ⟨pre, d, post, rfl, hpre, hd⟩ := ih h
        refine ⟨c :: pre, d, post, rfl, ?_, ?_⟩
        · rw [← List.singleton_append, ids_append, List.mem_append, not_or]
          exact ⟨locateIn_eq_none_iff.mp hnone, hpre⟩
        · rwa [List.length_cons, Nat.add_comm pre.length 1, ← Nat.add_assoc]

theorem find_nodes_eq_none_iff {id : ι} {f : Forest ι} :
    f.nodes.find? (·.id = id) = none ↔ id ∉ f.ids := by
  simp [ids]

/-- The address that is found is the one of the first component with the identity. -/
theorem locate_first {f : Forest ι} {id : ι} {a : Address} (h : f.locate? id = some a) :
    ∃ c, f.Holds a c ∧ f.nodes.find? (·.id = id) = some c := by
  induction f using Forest.induction_children generalizing a with
  | step f ih =>
      obtain ⟨pre, c, post, rfl, hpre, hc⟩ := locateFrom_eq_some h
      have hi : (pre ++ c :: post)[pre.length]? = some c := by simp
      rw [nodes_append, nodes_cons, List.find?_append, find_nodes_eq_none_iff.mpr hpre,
        Option.none_or]
      rw [Nat.zero_add, locateIn_eq] at hc
      split at hc
      next hid =>
        cases hc
        exact ⟨c, ⟨_, .here _, hi⟩, by simp [hid]⟩
      next hid =>
        -- the root is not meant, so the first one is below it
        obtain ⟨b, hb, rfl⟩ := Option.map_eq_some_iff.mp hc
        obtain ⟨d, ⟨s, hs, hd⟩, hfirst⟩ := ih c (by simp) hb
        have hbranch : c.isBranch = true := by
          apply Component.isBranch_of_children
          intro hnil
          rw [hnil] at hb
          cases hb
        exact ⟨d, ⟨s, .down hi hbranch hs, hd⟩, by simp [hid, hfirst]⟩

theorem locate_holds {f : Forest ι} {id : ι} {a : Address} (h : f.locate? id = some a) :
    ∃ c, f.Holds a c ∧ c.id = id := by
  obtain ⟨c, hc, hfirst⟩ := locate_first h
  exact ⟨c, hc, by simpa using List.find?_some hfirst⟩

theorem locate_isSome_iff {f : Forest ι} {id : ι} : (f.locate? id).isSome = true ↔ id ∈ f.ids := by
  rw [Option.isSome_iff_ne_none, ne_eq, locate?, locateFrom_eq_none_iff, not_not]

/-- An identity is contained exactly if some component has it. -/
theorem contains_iff {f : Forest ι} {id : ι} : f.contains id = true ↔ id ∈ f.ids :=
  locate_isSome_iff

theorem exists_locate {f : Forest ι} {id : ι} (h : id ∈ f.ids) :
    ∃ a c, f.locate? id = some a ∧ f.Holds a c ∧ c.id = id := by
  obtain ⟨a, ha⟩ := Option.isSome_iff_exists.mp (locate_isSome_iff.mpr h)
  obtain ⟨c, hc⟩ := locate_holds ha
  exact ⟨a, c, ha, hc⟩

/-! ## Look-ups -/

/-- What is got is the first component in pre-order that has the identity. -/
theorem get_eq_find (f : Forest ι) (id : ι) : f.get? id = f.nodes.find? (·.id = id) := by
  cases h : f.locate? id with
  | none =>
      rw [get?, h, find_nodes_eq_none_iff.mpr (locateFrom_eq_none_iff.mp h)]
      rfl
  | some a =>
      obtain ⟨c, hc, hfirst⟩ := locate_first h
      rw [get?, h, hfirst, Option.bind_some, hc.at?]

theorem mem_nodes_of_get {f : Forest ι} {id : ι} {c : Component ι} (h : f.get? id = some c) :
    c ∈ f.nodes := by
  rw [get_eq_find] at h
  exact List.mem_of_find?_eq_some h

theorem get_cons_self (c : Component ι) (cs : Forest ι) : get? (c :: cs) c.id = some c := by
  rw [get_eq_find, nodes_cons, List.find?_cons_of_pos]
  exact decide_eq_true rfl

/-- A component that is got stands at the address found for its identity. -/
theorem get_eq_some {f : Forest ι} {id : ι} {c : Component ι} (h : f.get? id = some c) :
    ∃ a, f.locate? id = some a ∧ f.Holds a c ∧ c.id = id := by
  obtain ⟨a, ha, hat⟩ := Option.bind_eq_some_iff.mp h
  obtain ⟨d, hd, hid⟩ := locate_holds ha
  cases hd.at?.symm.trans hat
  exact ⟨a, ha, hd, hid⟩

theorem get_isSome_iff {f : Forest ι} {id : ι} : (f.get? id).isSome = true ↔ id ∈ f.ids := by
  constructor
  · intro h
    obtain ⟨c, hc⟩ := Option.isSome_iff_exists.mp h
    obtain ⟨a, ha, -⟩ := get_eq_some hc
    exact locate_isSome_iff.mp (by rw [ha]; rfl)
  · intro h
    obtain ⟨a, c, ha, hc, -⟩ := exists_locate h
    rw [get?, ha, Option.bind_some, hc.at?]
    rfl

/-- The address of a branch is the one found for its identity. -/
theorem branch_eq_some {f : Forest ι} {id : ι} {a : Address} (h : f.branch? id = some a) :
    ∃ c, f.locate? id = some a ∧ f.Holds a c ∧ c.id = id ∧ c.isBranch = true := by
  obtain ⟨ha, hbranch⟩ := Option.filter_eq_some_iff.mp h
  obtain ⟨c, hc, hid⟩ := locate_holds ha
  rw [hc.at?] at hbranch
  exact ⟨c, ha, hc, hid, hbranch⟩

/-- Whether a branch is found can be told from the listing in pre-order. -/
theorem isSome_branch (f : Forest ι) (id : ι) :
    (f.branch? id).isSome = (f.parts.find? (·.id = id)).any Component.isBranch := by
  have hparts : f.parts.find? (·.id = id) = (f.get? id).map Component.bare := by
    rw [get_eq_find, parts, List.find?_map]
    simp only [Function.comp_def, Component.id_bare]
  rw [hparts, branch?, get?]
  cases h : f.locate? id with
  | none => rfl
  | some a =>
      obtain ⟨c, hc, -⟩ := locate_holds h
      rw [Option.bind_some, Option.filter_some, hc.at?]
      cases c <;> rfl

theorem remove_eq_some {f g : Forest ι} {id : ι} {c : Component ι}
    (h : f.remove? id = some (c, g)) :
    ∃ a, f.locate? id = some a ∧ f.Holds a c ∧ c.id = id ∧ g = f.removeAt a := by
  obtain ⟨a, ha, h⟩ := Option.bind_eq_some_iff.mp h
  obtain ⟨d, hd, hid⟩ := locate_holds ha
  rw [hd.at?] at h
  cases h
  exact ⟨a, ha, hd, hid, rfl⟩

/-- Whatever occurs can be removed, and it is what is got. -/
theorem exists_remove {f : Forest ι} {id : ι} (h : id ∈ f.ids) :
    ∃ c r, f.remove? id = some (c, r) ∧ f.get? id = some c := by
  obtain ⟨a, c, ha, hc, -⟩ := exists_locate h
  refine ⟨c, f.removeAt a, ?_, ?_⟩
  · simp [remove?, ha, hc.at?]
  · rw [get?, ha, Option.bind_some, hc.at?]

/-- What is removed is what would be got. -/
theorem get_of_remove {f g : Forest ι} {id : ι} {c : Component ι}
    (h : f.remove? id = some (c, g)) : f.get? id = some c := by
  obtain ⟨a, ha, hc, -⟩ := remove_eq_some h
  rw [get?, ha, Option.bind_some, hc.at?]

theorem exists_remove_of_replace {f g : Forest ι} {id : ι} {c : Component ι}
    (h : f.replace? id c = some g) : ∃ old r, f.remove? id = some (old, r) := by
  obtain ⟨a, ha, -⟩ := Option.map_eq_some_iff.mp h
  obtain ⟨old, r, hr, -⟩ := exists_remove (locate_isSome_iff.mp (by rw [ha]; rfl))
  exact ⟨old, r, hr⟩

theorem exists_replace_of_remove {f r : Forest ι} {id : ι} {old : Component ι}
    (h : f.remove? id = some (old, r)) (c : Component ι) : ∃ g, f.replace? id c = some g := by
  obtain ⟨a, ha, -⟩ := remove_eq_some h
  exact ⟨f.replaceAt a c, by rw [replace?, ha]; rfl⟩

end Forest

end PageDesign
