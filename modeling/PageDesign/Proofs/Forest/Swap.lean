/-
# PageDesign.Proofs.Forest.Swap -- a component changes places with a sibling, and can change back

A move by an offset finds the sequence of siblings in which a component stands, and exchanges two
trees of it.  A position before the first sibling or behind the last one is no sibling's position:
such a move is not made, and the forest stays as it is.

A move that is made changes one sequence at two positions (`Swapped`).  The move by the opposite
offset takes it back.  That move looks for the component in the changed forest, and finds it where
it has come to if no identity occurs twice (`move_swaps`).
-/
import PageDesign.Proofs.Forest.Relocate
import PageDesign.Proofs.Forest.Traversal

namespace PageDesign.Forest

open Loop (Ends Slot siblingTurn seek)

variable {ι : Type}

/-! ## Two siblings -/

section Siblings

variable {s : Forest ι} {i j : Nat} {c d : Component ι}

theorem length_swap (i j : Nat) (s : Forest ι) : (swap i j s).length = s.length := by
  unfold swap
  split
  · rw [List.length_set, List.length_set]
  · rfl

theorem getElem?_swap (hi : s[i]? = some c) (hj : s[j]? = some d) (k : Nat) :
    (swap i j s)[k]? = if k = j then some c else if k = i then some d else s[k]? := by
  obtain ⟨hilt, -⟩ := List.getElem?_eq_some_iff.mp hi
  obtain ⟨hjlt, -⟩ := List.getElem?_eq_some_iff.mp hj
  have hswap : swap i j s = (s.set i d).set j c := by
    unfold swap
    rw [hi, hj]
  rw [hswap]
  by_cases hkj : k = j
  · rw [if_pos hkj, hkj, List.getElem?_set_self (by rwa [List.length_set])]
  · rw [if_neg hkj, List.getElem?_set_ne (Ne.symm hkj)]
    by_cases hki : k = i
    · rw [if_pos hki, hki, List.getElem?_set_self hilt]
    · rw [if_neg hki, List.getElem?_set_ne (Ne.symm hki)]

theorem getElem?_swap_left (hi : s[i]? = some c) (hj : s[j]? = some d) (hne : i ≠ j) :
    (swap i j s)[i]? = some d := by
  rw [getElem?_swap hi hj, if_neg hne, if_pos rfl]

theorem getElem?_swap_right (hi : s[i]? = some c) (hj : s[j]? = some d) :
    (swap i j s)[j]? = some c := by
  rw [getElem?_swap hi hj, if_pos rfl]

/-- Siblings that have changed places change back. -/
theorem swap_swap (hi : s[i]? = some c) (hj : s[j]? = some d) (hne : i ≠ j) :
    swap j i (swap i j s) = s := by
  apply List.ext_getElem?
  intro k
  rw [getElem?_swap (getElem?_swap_right hi hj) (getElem?_swap_left hi hj hne),
    getElem?_swap hi hj]
  by_cases hki : k = i
  · rw [if_pos hki, hki, hi]
  · rw [if_neg hki, if_neg hki]
    by_cases hkj : k = j
    · rw [if_pos hkj, hkj, hj]
    · rw [if_neg hkj, if_neg hkj]

end Siblings

/-! ## Where a component stands -/

/-- A component with an identity stands at position `i` of the siblings `s`, to which the positions
`owner` lead. -/
structure Stands (f : Forest ι) (id : ι) (owner : List Nat) (s : Forest ι) (i : Nat)
    (c : Component ι) : Prop where
  leads : Leads owner f s
  here : s[i]? = some c
  id : c.id = id

variable [DecidableEq ι]

theorem exists_stands {f : Forest ι} {id : ι} {a : Address} (h : f.locate? id = some a) :
    ∃ s c, f.Stands id a.owner s a.index c := by
  obtain ⟨c, ⟨s, hs, hi⟩, hid⟩ := locate_holds h
  exact ⟨s, c, hs, hi, hid⟩

/-- What the search for a component answers: its siblings, and its position among them. -/
def seat (id : ι) (x : Slot ι Nat) : Option (Forest ι × Nat) :=
  if x.node.id = id then some (x.siblings, x.index) else none

theorem locate_eq_find (f : Forest ι) (id : ι) :
    f.locate? id = (f.places.find? (·.2.id = id)).map (·.1) := by
  have hsearches := searches_places f id
  cases hfind : f.places.find? (·.2.id = id) with
  | none =>
      rw [hfind] at hsearches
      exact hsearches.1
  | some p =>
      rw [hfind] at hsearches
      exact hsearches.1

/-- The search ends with the siblings at the address that is found. -/
theorem ends_seat_iff (f : Forest ι) (id : ι) (r : Option (Forest ι × Nat)) :
    Ends (siblingTurn deeper (seek (seat id)) fun _ => none) ((), [⟨f, 0, 0⟩]) r ↔
      r = (f.locate? id).map fun a => ((sequence? a.owner f).getD [], a.index) := by
  have hseat : f.slots.findSome? (seat id) =
      (f.locate? id).map fun a => ((sequence? a.owner f).getD [], a.index) := by
    rw [slots_eq, locate_eq_find, Option.map_map, List.findSome?_map, ← Loop.findSome_if]
    congr 1
    funext p
    simp only [decide_eq_true_eq]
    rfl
  rw [Loop.ends_seek_iff, ← hseat, slots]

/-! ## Moves -/

/-- A move as it is made in place: whether it is made, and the forest that is left.  The siblings
are those at the address that is found. -/
def swapInPlace (f : Forest ι) (id : ι) (offset : Int) : Bool × Forest ι :=
  match f.locate? id with
  | none => (false, f)
  | some a =>
    let target := (a.index : Int) + offset
    let siblings := (sequence? a.owner f).getD []
    if offset = 0 ∨ target < 0 ∨ (siblings.length : Int) ≤ target then (false, f)
    else (true, editSequence (swap a.index target.toNat) a.owner f)

/-- A move in place changes the forest exactly if it is made. -/
theorem swapInPlace_eq (f : Forest ι) (id : ι) (offset : Int) :
    f.swapInPlace id offset =
      match f.move? id offset with
      | some g => (true, g)
      | none => (false, f) := by
  unfold swapInPlace move?
  cases h : f.locate? id with
  | none => rfl
  | some a =>
      obtain ⟨s, c, hstands⟩ := exists_stands h
      simp only [Option.bind_eq_bind, Option.bind_some, hstands.leads.sequence?, Option.getD_some]
      split <;> rfl

/-- A forest `g` is a forest `f` with two siblings exchanged, the components `c` with the identity
and `d`, which stands some positions away: their sequence is `s` in `f` and `t` in `g`. -/
structure Swapped (f : Forest ι) (id : ι) (offset : Int) (owner : List Nat) (s t : Forest ι)
    (i j : Nat) (c d : Component ι) (g : Forest ι) : Prop where
  stands : f.Stands id owner s i c
  /-- The sequence is the one under the parent. -/
  owned : f.Owned (f.parentOf? id) owner s
  target : (j : Int) = i + offset
  other : s[j]? = some d
  length : t.length = s.length
  /-- Both trees are as they were, with all below them. -/
  exchanged : t[i]? = some d ∧ t[j]? = some c
  kept : ∀ k, k ≠ i → k ≠ j → t[k]? = s[k]?
  edited : Edited s t owner f g
  comprises : Comprises g [] f
  back : g.move? id (-offset) = some f

namespace Stands

variable {f g : Forest ι} {id : ι} {owner : List Nat} {s : Forest ι} {i j : Nat}
  {c d : Component ι} {offset : Int}

/-- Where no identity occurs twice, a component is found where it stands. -/
theorem locate (h : f.Stands id owner s i c) (hf : f.ids.Nodup) :
    f.locate? id = some ⟨owner, i⟩ := by
  have hlocate := h.leads.locate hf h.here
  rwa [h.id] at hlocate

theorem move_eq (h : f.Stands id owner s i c) (hf : f.ids.Nodup) (offset : Int) :
    f.move? id offset =
      if offset ≠ 0 ∧ 0 ≤ (i : Int) + offset ∧ (i : Int) + offset < s.length then
        some (editSequence (swap i ((i : Int) + offset).toNat) owner f)
      else none := by
  unfold move?
  simp only [h.locate hf, Option.bind_eq_bind, Option.bind_some, h.leads.sequence?]
  split
  · rw [if_neg (by omega)]
  · rw [if_pos (by omega)]
    rfl

/-- A move is made exactly if the offset leads to another sibling. -/
theorem isSome_move_iff (h : f.Stands id owner s i c) (hf : f.ids.Nodup) (offset : Int) :
    (f.move? id offset).isSome = true ↔
      offset ≠ 0 ∧ 0 ≤ (i : Int) + offset ∧ (i : Int) + offset < s.length := by
  rw [h.move_eq hf]
  split
  next hmade => exact iff_of_true rfl hmade
  next hnot => exact iff_of_false Bool.false_ne_true hnot

/-- The component is found where it has come to, and so the move back is made. -/
theorem move_back (h : f.Stands id owner s i c) (hf : f.ids.Nodup) (hoffset : offset ≠ 0)
    (htarget : (j : Int) = i + offset) (hj : s[j]? = some d) :
    (editSequence (swap i j) owner f).move? id (-offset) = some f := by
  have hne : i ≠ j := by omega
  obtain ⟨hlt, -⟩ := List.getElem?_eq_some_iff.mp h.here
  have hcomprises : Comprises (editSequence (swap i j) owner f) [] f :=
    Comprises.edit h.leads (comprises_swap i j s)
  have hids := hcomprises.ids
  rw [ids_nil, List.nil_append] at hids
  have hback : Stands (editSequence (swap i j) owner f) id owner (swap i j s) j c :=
    ⟨h.leads.edited_leads _, getElem?_swap_right h.here hj, h.id⟩
  have htoNat : ((j : Int) + -offset).toNat = i := by omega
  rw [hback.move_eq (hids.nodup_iff.mpr hf), length_swap, if_pos (by omega), htoNat,
    h.leads.editSequence_editSequence]
  congr 1
  exact (h.leads.editSequence_congr (swap_swap h.here hj hne)).trans (editSequence_self h.leads)

theorem swapped (h : f.Stands id owner s i c) (hf : f.ids.Nodup) (hoffset : offset ≠ 0)
    (htarget : (j : Int) = i + offset) (hj : s[j]? = some d) :
    f.Swapped id offset owner s (swap i j s) i j c d (editSequence (swap i j) owner f) := by
  have hne : i ≠ j := by omega
  constructor
  case stands => exact h
  case owned =>
    have hholds : f.Holds ⟨owner, i⟩ c := ⟨s, h.leads, h.here⟩
    obtain ⟨t, howned, -⟩ := owned_parentOf hf hholds
    cases h.leads.sequence?.symm.trans howned.leads.sequence?
    rwa [h.id] at howned
  case target => exact htarget
  case other => exact hj
  case length => exact length_swap i j s
  case exchanged =>
    exact ⟨getElem?_swap_left h.here hj hne, getElem?_swap_right h.here hj⟩
  case kept =>
    intro k hki hkj
    rw [getElem?_swap h.here hj, if_neg hkj, if_neg hki]
  case edited => exact h.leads.edited (swap i j)
  case comprises => exact Comprises.edit h.leads (comprises_swap i j s)
  case back => exact h.move_back hf hoffset htarget hj

theorem exists_swapped (h : f.Stands id owner s i c) (hf : f.ids.Nodup)
    (hmove : f.move? id offset = some g) : ∃ t j d, f.Swapped id offset owner s t i j c d g := by
  rw [h.move_eq hf] at hmove
  split at hmove
  next hmade =>
    cases hmove
    obtain ⟨hoffset, hleast, hlt⟩ := hmade
    have hj : ((i : Int) + offset).toNat < s.length := by omega
    have htarget : ((((i : Int) + offset).toNat : Nat) : Int) = i + offset := by omega
    exact ⟨_, _, _, h.swapped hf hoffset htarget (List.getElem?_eq_getElem hj)⟩
  next => cases hmove

end Stands

theorem mem_ids_iff_stands {f : Forest ι} (hf : f.ids.Nodup) {id : ι} :
    id ∈ f.ids ↔ ∃ owner s i c, f.Stands id owner s i c := by
  constructor
  · intro hid
    obtain ⟨a, -, ha, -⟩ := exists_locate hid
    obtain ⟨s, c, hstands⟩ := exists_stands ha
    exact ⟨a.owner, s, a.index, c, hstands⟩
  · rintro ⟨owner, s, i, c, hstands⟩
    rw [← locate_isSome_iff, hstands.locate hf]
    rfl

/-- Where no identity occurs twice, a move is made exactly if the identity occurs and the offset
leads to another sibling; the forest stays as it is otherwise.  A move that is made exchanges the
two siblings and nothing else, and the move by the opposite offset takes it back. -/
theorem move_swaps (f : Forest ι) (hf : f.ids.Nodup) (id : ι) (offset : Int) :
    (∀ r, Ends (siblingTurn deeper (seek (seat id)) fun _ => none) ((), [⟨f, 0, 0⟩]) r ↔
      r = (f.locate? id).map fun a => ((sequence? a.owner f).getD [], a.index)) ∧
    f.swapInPlace id offset = (match f.move? id offset with
      | some g => (true, g)
      | none => (false, f)) ∧
    (id ∈ f.ids ↔ ∃ owner s i c, f.Stands id owner s i c) ∧
    (id ∉ f.ids → f.move? id offset = none) ∧
    ∀ owner s i c, f.Stands id owner s i c →
      ((f.move? id offset).isSome = true ↔
        offset ≠ 0 ∧ 0 ≤ (i : Int) + offset ∧ (i : Int) + offset < s.length) ∧
      ∀ g, f.move? id offset = some g → ∃ t j d, f.Swapped id offset owner s t i j c d g := by
  refine ⟨ends_seat_iff f id, swapInPlace_eq f id offset, mem_ids_iff_stands hf, fun hid => ?_,
    fun owner s i c h => ⟨h.isSome_move_iff hf offset, fun g hmove => h.exists_swapped hf hmove⟩⟩
  have hnone : f.locate? id = none := locateFrom_eq_none_iff.mpr hid
  rw [move?, hnone]
  rfl

/-- In a card, a button changes places with an image two positions behind it. -/
theorem move_swaps_sample :
    let button : Component Id := .leaf "b" none (.button {})
    let text : Component Id := .leaf "t" none (.text {})
    let image : Component Id := .leaf "i" none (.image {})
    let f : Forest Id := [.branch "a" none (.card {}) [button, text, image]]
    let g : Forest Id := [.branch "a" none (.card {}) [image, text, button]]
    f.ids.Nodup ∧ f.swapInPlace "b" 2 = (true, g) ∧ g.move? "b" (-2) = some f ∧
      f.swapInPlace "b" (-1) = (false, f) ∧ f.swapInPlace "b" 3 = (false, f) := by
  intro button text image f g
  have hids : f.ids = ["a", "b", "t", "i"] := by decide +kernel
  have hnodup : f.ids.Nodup := by rw [hids]; decide
  have hstands : f.Stands "b" [0] [button, text, image] 0 button :=
    ⟨.down rfl rfl (.here _), rfl, rfl⟩
  have hmove : f.move? "b" 2 = some g := rfl
  obtain ⟨-, hrun, -, -, hplace⟩ := move_swaps f hnodup "b" 2
  obtain ⟨t, j, d, hswapped⟩ := (hplace _ _ _ _ hstands).2 g hmove
  rw [hmove] at hrun
  exact ⟨hnodup, hrun, hswapped.back, rfl, rfl⟩

end PageDesign.Forest
