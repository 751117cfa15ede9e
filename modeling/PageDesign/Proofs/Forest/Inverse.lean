/-
# PageDesign.Proofs.Forest.Inverse -- what comes in can leave, and what left can come back

A tree comes in at a position among the roots or among the children of a branch.  It is removed by
a search for its identity, in a forest that is another by then; the search finds it where it came
in, if its identity was not there before, even where other identities occur twice.  The other way
round, the parent under which a tree stood is still found after the removal if no identity occurs
twice, and the old position among the siblings that are left is the one that the tree had.

`insert_remove_inverse` states both, for the edits as they are made in place: with the answer
whether they were made, and with the forest as it was where they were not.  A new last child is
the same as one at any position behind the last.
-/
import Mathlib.Data.List.InsertIdx
import PageDesign.Proofs.Forest.Relocate

namespace PageDesign.Forest

variable {ι : Type}

/-! ## Positions among siblings -/

/-- The position at which a component comes in: the one asked for, clamped to the ends. -/
def seatFor (index : Int) (s : Forest ι) : Nat := (max 0 (min index s.length)).toNat

theorem insertIdx_seatFor (index : Int) (c : Component ι) (s : Forest ι) :
    s.insertIdx (seatFor index s) c = insertClamped index c s := by
  have hseat : seatFor index s = min index.toNat s.length := by
    unfold seatFor
    omega
  have hlength : (s.take (min index.toNat s.length)).length = min index.toNat s.length :=
    List.length_take_of_le (Nat.min_le_right _ _)
  have hinsert := List.modifyTailIdx_add (List.cons c) 0 (s.take (min index.toNat s.length))
    (s.drop (min index.toNat s.length))
  rw [List.take_append_drop, hlength, Nat.add_zero] at hinsert
  rw [hseat]
  exact hinsert

/-- Behind the last sibling every position is the same. -/
theorem insertClamped_of_length_le {index : Int} {s : Forest ι} (h : (s.length : Int) ≤ index)
    (c : Component ι) : insertClamped index c s = s ++ [c] := by
  have hmin : min index.toNat s.length = s.length := by omega
  rw [insertClamped, hmin, List.take_length, List.drop_length]

variable [DecidableEq ι]

/-! ## Edits in place -/

/-- An edit of the children of a component as it is made in place: whether it is made, and the
forest that is left. -/
def editChildrenInPlace (f : Forest ι) (p : ι) (edit : Forest ι → Forest ι) : Bool × Forest ι :=
  match f.locate? p with
  | none => (false, f)
  | some a =>
    match f.at? a with
    | some (.branch _ _ _ _) => (true, editSequence edit a.path f)
    | _ => (false, f)

/-- An insertion as it is made in place. -/
def insertInPlace (f : Forest ι) (parent : Option ι) (index : Int) (c : Component ι) :
    Bool × Forest ι :=
  match parent with
  | none => (true, f.insertIdx (seatFor index f) c)
  | some p => f.editChildrenInPlace p fun s => s.insertIdx (seatFor index s) c

/-- The addition of a last child as it is made in place. -/
def addInPlace (f : Forest ι) (p : ι) (c : Component ι) : Bool × Forest ι :=
  f.editChildrenInPlace p (· ++ [c])

theorem editChildrenInPlace_eq (f : Forest ι) (p : ι) (edit : Forest ι → Forest ι) :
    f.editChildrenInPlace p edit =
      (((f.branch? p).map fun a => editSequence edit a.path f).isSome,
        ((f.branch? p).map fun a => editSequence edit a.path f).getD f) := by
  unfold editChildrenInPlace
  cases h : f.locate? p with
  | none =>
      have hbranch : f.branch? p = none := by rw [branch?, h]; rfl
      rw [hbranch]
      rfl
  | some a =>
      obtain ⟨b, hb, -⟩ := locate_holds h
      rw [branch_of_holds h hb]
      simp only [hb.at?]
      cases b <;> rfl

theorem insertInPlace_eq (f : Forest ι) (parent : Option ι) (index : Int) (c : Component ι) :
    f.insertInPlace parent index c =
      ((f.insertChildAt? parent index c).isSome, (f.insertChildAt? parent index c).getD f) := by
  cases parent with
  | none =>
      show (true, f.insertIdx (seatFor index f) c) = (true, insertClamped index c f)
      rw [insertIdx_seatFor]
  | some p =>
      have hedit : (fun s : Forest ι => s.insertIdx (seatFor index s) c) = insertClamped index c :=
        funext fun s => insertIdx_seatFor index c s
      show f.editChildrenInPlace p (fun s => s.insertIdx (seatFor index s) c) = _
      rw [hedit]
      exact editChildrenInPlace_eq f p (insertClamped index c)

theorem addInPlace_eq (f : Forest ι) (p : ι) (c : Component ι) :
    f.addInPlace p c = ((f.addChild? p c).isSome, (f.addChild? p c).getD f) :=
  editChildrenInPlace_eq f p (· ++ [c])

/-- Where a position is behind the last child, the child that comes in there comes last. -/
theorem addChild_eq_insertChildAt {f : Forest ι} {p : ι} {index : Int}
    (h : ∀ b, f.get? p = some b → b.isBranch = true → (b.children.length : Int) ≤ index)
    (c : Component ι) : f.addChild? p c = f.insertChildAt? (some p) index c := by
  rw [addChild?, insertChildAt?]
  cases ha : f.branch? p with
  | none => rfl
  | some a =>
      obtain ⟨b, hlocate, hb, -, hbranch⟩ := branch_eq_some ha
      have hget : f.get? p = some b := by rw [get?, hlocate, Option.bind_some, hb.at?]
      have hlast : insertClamped index c b.children = b.children ++ [c] :=
        insertClamped_of_length_le (h b hget hbranch) c
      rw [Option.map_some, Option.map_some]
      congr 1
      exact (hb.leads hbranch).editSequence_congr hlast.symm

/-! ## Coming in -/

/-- Something can come in under a parent: among the roots, or below the first component that has
an identity, if it is a branch. -/
def Hosts (f : Forest ι) (parent : Option ι) : Prop :=
  ∀ p, parent = some p → ∃ b, f.get? p = some b ∧ b.isBranch = true

/-- An insertion is made exactly if something can come in under the parent. -/
theorem isSome_insertChildAt_iff {f : Forest ι} {parent : Option ι} {index : Int}
    {c : Component ι} : (f.insertChildAt? parent index c).isSome = true ↔ f.Hosts parent := by
  cases parent with
  | none =>
      refine iff_of_true rfl ?_
      rintro p hp
      cases hp
  | some p =>
      have hhosts : f.Hosts (some p) ↔ ∃ b, f.get? p = some b ∧ b.isBranch = true := by
        constructor
        · intro h
          exact h p rfl
        · intro h q hq
          cases hq
          exact h
      rw [insertChildAt?, Option.isSome_map, isSome_branch_iff, hhosts]

theorem Hosts.exists_owned {f : Forest ι} {parent : Option ι} (h : f.Hosts parent) :
    ∃ path s, f.Owned parent path s := by
  cases parent with
  | none => exact ⟨[], f, rfl, rfl⟩
  | some p =>
      obtain ⟨b, hget, hbranch⟩ := h p rfl
      obtain ⟨a, ha, hb, -⟩ := get_eq_some hget
      exact ⟨a.path, b.children, a, b, find_places_of_locate ha hb, hbranch, rfl, rfl⟩

/-- The tree `c` comes in under a parent, between the siblings `pre` and `post`, which makes the
forest `g`.  Taken out again it is the same tree, and the forest is what it was. -/
structure ComesIn (f : Forest ι) (parent : Option ι) (index : Int) (c : Component ι)
    (path : List Nat) (pre post : Forest ι) (g : Forest ι) : Prop where
  owned : f.Owned parent path (pre ++ post)
  /-- The position is clamped to the ends of the siblings. -/
  position : (pre.length : Int) = max 0 (min index (pre ++ post).length)
  made : f.insertChildAt? parent index c = some g
  edited : Edited (pre ++ post) (pre ++ c :: post) path f g
  back : g.remove? c.id = some (c, f)

theorem exists_comesIn {f : Forest ι} {parent : Option ι} (h : f.Hosts parent) (index : Int)
    {c : Component ι} (hid : c.id ∉ f.ids) :
    ∃ path pre post g, f.ComesIn parent index c path pre post g := by
  obtain ⟨path, s, howned⟩ := h.exists_owned
  let i := min index.toNat s.length
  have hsplit : s.take i ++ s.drop i = s := List.take_append_drop i s
  have hmade := howned.insertChildAt index c
  refine ⟨path, s.take i, s.drop i, editSequence (insertClamped index c) path f, ?_⟩
  constructor
  case owned => rwa [hsplit]
  case position =>
    rw [hsplit, List.length_take]
    omega
  case made => exact hmade
  case edited =>
    rw [hsplit]
    exact howned.leads.edited (insertClamped index c)
  case back => exact remove_of_insertChildAt hmade hid

/-! ## Coming back -/

/-- The tree `c` leaves its place, which leaves the forest `r`, and comes back to where it stood:
under the parent that was looked up for it, and under every parent by which its siblings are
known. -/
structure ComesBack (f : Forest ι) (id : ι) (a : Address) (c : Component ι) (r : Forest ι) :
    Prop where
  leaves : f.remove? id = some (c, r)
  stood : ∃ s, f.Owned (f.parentOf? id) a.owner s ∧ s[a.index]? = some c
  back : r.insertChildAt? (f.parentOf? id) a.index c = some f
  anywhere : ∀ parent path s (i : Nat), f.Owned parent path s → s[i]? = some c →
    r.insertChildAt? parent i c = some f

theorem exists_comesBack {f : Forest ι} (hf : f.ids.Nodup) {id : ι} (hid : id ∈ f.ids) :
    ∃ a c r, f.ComesBack id a c r := by
  obtain ⟨c, r, hr, -⟩ := exists_remove hid
  obtain ⟨a, -, hc, rfl, -⟩ := remove_eq_some hr
  obtain ⟨s, howned, hi⟩ := owned_parentOf hf hc
  exact ⟨a, c, r, hr, ⟨s, howned, hi⟩, insertChildAt_of_remove hf howned hi hr,
    fun parent path t i ht hit => insertChildAt_of_remove hf ht hit hr⟩

/-- A tree whose identity does not occur in a forest comes in under every parent that can have
children, at the position that is asked for or the nearest one, and its removal gives back the tree
and the forest.  Where no identity occurs twice, whatever was removed can come back to where it
stood.  A last child comes in as at any position behind the last one, or it does not come in as at
any position at all.  Identities may occur more than once where nothing else is said. -/
theorem insert_remove_inverse (f : Forest ι) :
    (∀ parent index c, f.insertInPlace parent index c =
      ((f.insertChildAt? parent index c).isSome, (f.insertChildAt? parent index c).getD f)) ∧
    (∀ parent index c, (f.insertChildAt? parent index c).isSome = true ↔ f.Hosts parent) ∧
    (∀ parent index c, f.Hosts parent → c.id ∉ f.ids →
      ∃ path pre post g, f.ComesIn parent index c path pre post g) ∧
    (f.ids.Nodup → ∀ id ∈ f.ids, ∃ a c r, f.ComesBack id a c r) ∧
    ∀ p index c, (∀ b, f.get? p = some b → b.isBranch = true → (b.children.length : Int) ≤ index) →
      f.addChild? p c = f.insertChildAt? (some p) index c ∧
        f.addInPlace p c = f.insertInPlace (some p) index c := by
  refine ⟨insertInPlace_eq f, fun parent index c => isSome_insertChildAt_iff,
    fun parent index c hhosts hid => exists_comesIn hhosts index hid,
    fun hf id hid => exists_comesBack hf hid, fun p index c hbehind => ?_⟩
  have hsame := addChild_eq_insertChildAt hbehind c
  refine ⟨hsame, ?_⟩
  rw [addInPlace_eq, insertInPlace_eq, hsame]

/-- A text comes into a card in front of its button, by a position below the first one, and leaves
again.  The button leaves and comes back. -/
theorem insert_remove_inverse_sample :
    let text : Component Id := .leaf "t" none (.text {})
    let button : Component Id := .leaf "b" none (.button {})
    let f : Forest Id := [.branch "a" none (.card {}) [button]]
    let g : Forest Id := [.branch "a" none (.card {}) [text, button]]
    f.ids.Nodup ∧ f.insertInPlace (some "a") (-3) text = (true, g) ∧
      g.remove? "t" = some (text, f) ∧ f.addInPlace "b" text = (false, f) ∧
      ∃ r, f.remove? "b" = some (button, r) ∧ r.insertChildAt? (some "a") 0 button = some f := by
  intro text button f g
  have hids : f.ids = ["a", "b"] := by decide +kernel
  have hnodup : f.ids.Nodup := by rw [hids]; decide
  obtain ⟨hrun, -, hin, hback, hlast⟩ := insert_remove_inverse f
  have hhosts : f.Hosts (some "a") := by
    rintro p hp
    cases hp
    exact ⟨.branch "a" none (.card {}) [button], rfl, rfl⟩
  have hmade : f.insertChildAt? (some "a") (-3) text = some g := rfl
  obtain ⟨path, pre, post, h, hcomes⟩ := hin (some "a") (-3) text hhosts (by rw [hids]; decide)
  cases hmade.symm.trans hcomes.made
  obtain ⟨a, c, r, hleaves⟩ := hback hnodup "b" (by rw [hids]; decide)
  have hbutton : f.get? "b" = some button := rfl
  cases hbutton.symm.trans (get_of_remove hleaves.leaves)
  have hbehind : ∀ b, f.get? "b" = some b → b.isBranch = true →
      (b.children.length : Int) ≤ 0 := by
    intro b hb hbranch
    cases hbutton.symm.trans hb
    cases hbranch
  have hleaf := (hlast "b" 0 text hbehind).2
  refine ⟨hnodup, ?_, hcomes.back, ?_, r, hleaves.leaves, ?_⟩
  · rw [hrun, hmade]
    rfl
  · rw [hleaf, hrun]
    rfl
  · exact hleaves.anywhere (some "a") [0] [button] 0
      ⟨⟨[], 0⟩, .branch "a" none (.card {}) [button], rfl, rfl, rfl, rfl⟩ rfl

end PageDesign.Forest
