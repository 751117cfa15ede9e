/-
# PageDesign.Proofs.Component.Sound -- what it means that a check succeeds

A design is sound if every component obeys the rule for its kind and no identity occurs twice.
`Forest.validate_iff` says that the check of a whole design succeeds exactly for sound ones,
and `Component.validate_iff` and `Component.checkUnique_iff` what the checks of a single tree say.

Rules look at a component without its children, so soundness is a statement about the parts of
a forest, and `Comprises` carries it from one forest to another.
-/
import PageDesign.Component.Validate
import PageDesign.Proofs.Forest.Comprise

namespace PageDesign

variable {ι : Type}

/-- What follows a check is reached only if the check succeeds. -/
theorem check_bind_eq_ok {ε β : Type} {check : Except ε Unit} {k : Unit → Except ε β} {b : β} :
    (check >>= k) = .ok b ↔ check = .ok () ∧ k () = .ok b := by
  cases check with
  | error e => simp [bind, Except.bind]
  | ok u => simp [bind, Except.bind]

theorem map_eq_ok {ε α β : Type} {f : α → β} {x : Except ε α} {b : β} :
    x.map f = .ok b ↔ ∃ a, x = .ok a ∧ f a = b := by
  cases x with
  | error e => simp [Except.map]
  | ok a => simp [Except.map]

/-! ## Rules -/

theorem Rule.checkNode_bare (c : Component ι) : Rule.checkNode c.bare = Rule.checkNode c := by
  cases c <;> rfl

namespace Forest

/-- Every component of a forest obeys the rule for its kind. -/
def Obeys (f : Forest ι) : Prop := ∀ c ∈ f.nodes, Rule.checkNode c = .ok ()

theorem obeys_iff_parts {f : Forest ι} : f.Obeys ↔ ∀ c ∈ f.parts, Rule.checkNode c = .ok () := by
  simp only [Obeys, parts, List.forall_mem_map, Rule.checkNode_bare]

theorem Comprises.obeys_iff {g cs f : Forest ι} (h : Comprises g cs f) :
    g.Obeys ↔ cs.Obeys ∧ f.Obeys := by
  simp only [obeys_iff_parts, List.Perm.mem_iff h, List.mem_append, or_imp, forall_and]

theorem obeys_nil : Obeys ([] : Forest ι) := by simp [Obeys]

theorem obeys_cons_iff {c : Component ι} {cs : Forest ι} :
    Obeys (c :: cs) ↔ Rule.checkNode c = .ok () ∧ Obeys c.children ∧ Obeys cs := by
  simp only [Obeys, nodes_cons, List.forall_mem_cons, List.forall_mem_append]

/-! ## Sound designs -/

/-- A design in which every component obeys its rule and no identity occurs twice. -/
structure Sound (f : Forest Id) : Prop where
  obeys : f.Obeys
  distinct : f.ids.Nodup

theorem sound_nil : Sound [] := ⟨obeys_nil, by simp⟩

/-- A forest is sound if its two portions are and have no identity in common. -/
theorem Comprises.sound_iff {g cs f : Forest Id} (h : Comprises g cs f) :
    g.Sound ↔ cs.Sound ∧ f.Sound ∧ ∀ i ∈ cs.ids, i ∉ f.ids := by
  constructor
  · rintro ⟨hobeys, hdistinct⟩
    obtain ⟨hcs, hf⟩ := h.obeys_iff.mp hobeys
    obtain ⟨hcs', hf', hapart⟩ := h.nodup_iff.mp hdistinct
    exact ⟨⟨hcs, hcs'⟩, ⟨hf, hf'⟩, hapart⟩
  · rintro ⟨hcs, hf, hapart⟩
    exact ⟨h.obeys_iff.mpr ⟨hcs.obeys, hf.obeys⟩,
      h.nodup_iff.mpr ⟨hcs.distinct, hf.distinct, hapart⟩⟩

theorem sound_append_iff {f g : Forest Id} :
    Sound (f ++ g) ↔ Sound f ∧ Sound g ∧ ∀ i ∈ g.ids, i ∉ f.ids := by
  rw [(Comprises.append f g).sound_iff, and_left_comm]

end Forest

/-! ## Checks -/

namespace Rule

theorem checkIds_iff {taken ids : List Id} :
    checkIds taken ids = .ok () ↔ ids.Nodup ∧ ∀ i ∈ ids, i ∉ taken := by
  induction ids generalizing taken with
  | nil => simp [checkIds]
  | cons i rest ih =>
      rw [checkIds]
      by_cases hi : i ∈ taken
      · simp [hi]
      · simp only [List.contains_iff_mem, hi, if_false, ih, List.nodup_cons, List.mem_cons,
          not_or, forall_eq_or_imp, not_false_eq_true, true_and]
        constructor
        · rintro ⟨hrest, hfree⟩
          exact ⟨⟨fun h => (hfree i h).1 rfl, hrest⟩, fun j hj => (hfree j hj).2⟩
        · rintro ⟨⟨hmem, hrest⟩, hfree⟩
          exact ⟨hrest, fun j hj => ⟨fun h => hmem (h ▸ hj), hfree j hj⟩⟩

/-- The check of components one by one succeeds if each obeys its rule and the identities
would pass a check of their own. -/
theorem checkNodes_iff {taken : List Id} {nodes : List (Component Id)} :
    checkNodes taken nodes = .ok () ↔
      (∀ c ∈ nodes, checkNode c = .ok ()) ∧ checkIds taken (nodes.map (·.id)) = .ok () := by
  induction nodes generalizing taken with
  | nil => simp [checkNodes, checkIds]
  | cons c rest ih =>
      rw [checkNodes, List.map_cons, checkIds]
      by_cases hc : taken.contains c.id = true
      · rw [if_pos hc, if_pos hc]
        simp
      · rw [if_neg hc, if_neg hc, check_bind_eq_ok, List.forall_mem_cons, ih, and_assoc]

end Rule

theorem forM_eq_ok_iff {α ε : Type} {l : List α} {check : α → Except ε Unit} :
    l.forM check = .ok () ↔ ∀ x ∈ l, check x = .ok () := by
  induction l with
  | nil => simp [pure, Except.pure]
  | cons x xs ih =>
      change (check x >>= fun _ => xs.forM check) = .ok () ↔ _
      rw [check_bind_eq_ok, List.forall_mem_cons, ih]

theorem Component.validate_iff {c : Component ι} : c.validate = .ok () ↔ Forest.Obeys [c] :=
  forM_eq_ok_iff

theorem Component.checkUnique_iff {c : Component Id} {taken : List Id} :
    c.checkUnique taken = .ok () ↔
      (Forest.ids [c]).Nodup ∧ ∀ i ∈ Forest.ids [c], i ∉ taken :=
  Rule.checkIds_iff

/-- The check of a design succeeds exactly for sound ones. -/
theorem Forest.validate_iff {f : Forest Id} : f.validate = .ok () ↔ f.Sound := by
  rw [Forest.validate, Rule.checkNodes_iff, Rule.checkIds_iff]
  constructor
  · rintro ⟨hobeys, hdistinct, -⟩
    exact ⟨hobeys, hdistinct⟩
  · rintro ⟨hobeys, hdistinct⟩
    exact ⟨hobeys, hdistinct, by simp⟩

end PageDesign
