/-
# PageDesign.Proofs.Component.Fresh -- copies under fresh identities

A copy draws one identity for each of its components, and its identities are what was drawn, in
some order (`ids_remintForest`).  Different numbers of the counter make different identities
(`Id.ofCount_injective`), so the identities of a copy are distinct among themselves.  Apart from
identities a copy is its source (`forget_remintForest`), so it obeys the same rules.
-/
import PageDesign.Proofs.Component.Sound
import PageDesign.Template.Basic

namespace PageDesign

variable {ι κ : Type}

/-! ## Identities drawn from the counter -/

theorem Notation.padded_injective (width : Nat) : Function.Injective (padded width) := by
  intro m n h
  have hvalue (k : Nat) : Nat.ofDigitChars 10 (padded width k) 0 = k := by
    rw [padded, zeros, Nat.ofDigitChars_append, Nat.ofDigitChars_replicate_zero, Nat.mul_zero,
      Nat.ofDigitChars_ten_toDigits]
  rw [← hvalue m, h, hvalue]

theorem Id.ofCount_injective : Function.Injective Id.ofCount := by
  intro m n h
  apply Notation.padded_injective 26
  have hlists := congrArg String.toList h
  simp only [ofCount, String.toList_append, String.toList_ofList] at hlists
  exact List.append_cancel_left hlists

/-- The identities that are drawn while the counter goes from one number to another. -/
def Id.drawn (m n : Nat) : List Id := (List.range' (m + 1) (n - m)).map Id.ofCount

namespace Id

theorem nodup_drawn (m n : Nat) : (drawn m n).Nodup :=
  (List.nodup_map_iff ofCount_injective).mpr List.nodup_range'

@[simp] theorem drawn_self (n : Nat) : drawn n n = [] := by simp [drawn]

theorem drawn_eq_cons {m n : Nat} (h : m < n) : drawn m n = ofCount (m + 1) :: drawn (m + 1) n := by
  have hlength : n - m = n - (m + 1) + 1 := by omega
  rw [drawn, drawn, hlength, List.range'_succ, List.map_cons]

theorem drawn_append {l m n : Nat} (hlm : l ≤ m) (hmn : m ≤ n) :
    drawn l m ++ drawn m n = drawn l n := by
  have hstart : m + 1 = l + 1 + (m - l) := by omega
  have hlength : n - l = m - l + (n - m) := by omega
  rw [drawn, drawn, drawn, ← List.map_append, hstart, List.range'_append_1, hlength]

end Id

/-! ## Forests apart from their identities -/

namespace Component

/-- A forest apart from its identities. -/
def forget (f : Forest ι) : Forest Unit := mapForest (fun _ => ()) f

theorem children_map (g : ι → κ) (c : Component ι) :
    (c.map g).children = mapForest g c.children := by
  cases c <;> rfl

theorem nodes_mapForest (g : ι → κ) (f : Forest ι) :
    Forest.nodes (mapForest g f) = (Forest.nodes f).map (map g) := by
  induction f using Forest.induction with
  | nil => simp [mapForest]
  | cons c cs ihc ihcs =>
      rw [mapForest, Forest.nodes_cons, Forest.nodes_cons, children_map, ihc, ihcs,
        List.map_cons, List.map_append]

theorem checkNode_map (g : ι → κ) (c : Component ι) :
    Rule.checkNode (c.map g) = Rule.checkNode c := by
  cases c <;> rfl

theorem obeys_mapForest_iff {g : ι → κ} {f : Forest ι} :
    Forest.Obeys (mapForest g f) ↔ Forest.Obeys f := by
  simp only [Forest.Obeys, nodes_mapForest, List.forall_mem_map, checkNode_map]

/-- Whether the rules are obeyed does not depend on identities. -/
theorem obeys_of_forget_eq {f : Forest ι} {g : Forest κ} (h : forget f = forget g)
    (hf : f.Obeys) : g.Obeys := by
  rw [← obeys_mapForest_iff (g := fun _ => ()), ← forget, ← h, forget, obeys_mapForest_iff]
  exact hf

/-- The check of a tree does not look at identities. -/
theorem validate_of_forget_eq {c : Component ι} {d : Component κ}
    (h : forget [c] = forget [d]) : c.validate = d.validate := by
  have hforget {μ : Type} (e : Component μ) :
      e.validate = (Forest.nodes (forget [e])).forM Rule.checkNode := by
    unfold validate forget
    rw [nodes_mapForest, List.forM_eq_forM, List.forM_eq_forM, List.forM_map]
    simp only [checkNode_map]
  rw [hforget c, hforget d, h]

/-! ## Copies of a forest -/

theorem id_remint (c : Component ι) (n : Nat) : (c.remint n).1.id = Id.ofCount (n + 1) := by
  cases c <;> rfl

theorem children_remint (c : Component ι) (n : Nat) :
    (c.remint n).1.children = (remintForest c.children (n + 1)).1 := by
  cases c <;> rfl

theorem minted_remint (c : Component ι) (n : Nat) :
    (c.remint n).2 = (remintForest c.children (n + 1)).2 := by
  cases c <;> rfl

theorem remintForest_cons (c : Component ι) (cs : Forest ι) (n : Nat) :
    remintForest (c :: cs) n =
      ((c.remint (remintForest cs n).2).1 :: (remintForest cs n).1,
        (c.remint (remintForest cs n).2).2) := rfl

/-- A copy draws one identity for each component. -/
theorem minted_remintForest (f : Forest ι) (n : Nat) :
    (remintForest f n).2 = n + sizeForest f := by
  induction f using Forest.induction generalizing n with
  | nil => rfl
  | cons c cs ihc ihcs =>
      rw [remintForest_cons, minted_remint, ihc, ihcs, sizeForest, size_eq]
      show n + sizeForest cs + 1 + sizeForest c.children =
        n + (sizeForest c.children + 1 + sizeForest cs)
      omega

theorem le_minted_remintForest (f : Forest ι) (n : Nat) : n ≤ (remintForest f n).2 := by
  rw [minted_remintForest]
  exact Nat.le_add_right n _

/-- The identities of a copy are those that it draws, in some order. -/
theorem ids_remintForest (f : Forest ι) (n : Nat) :
    (Forest.ids (remintForest f n).1).Perm (Id.drawn n (remintForest f n).2) := by
  induction f using Forest.induction generalizing n with
  | nil => simp [remintForest]
  | cons c cs ihc ihcs =>
      -- the trees behind draw first, then the root, then what is below it
      have hbehind := le_minted_remintForest cs n
      have hbelow := le_minted_remintForest c.children ((remintForest cs n).2 + 1)
      rw [remintForest_cons, Forest.ids_cons, id_remint, children_remint, minted_remint,
        ← Id.drawn_append hbehind (Nat.le_of_succ_le hbelow), Id.drawn_eq_cons hbelow]
      refine List.Perm.trans ?_ List.perm_append_comm
      exact List.Perm.cons _ (List.Perm.append (ihc _) (ihcs n))

theorem forget_remintForest (f : Forest ι) (n : Nat) :
    forget (remintForest f n).1 = forget f := by
  induction f using Forest.induction generalizing n with
  | nil => rfl
  | cons c cs ihc ihcs =>
      have hc : (c.remint (remintForest cs n).2).1.map (fun _ => ()) = c.map fun _ => () := by
        cases c with
        | leaf i a l => rfl
        | branch i a fr ds =>
            have hds := ihc ((remintForest cs n).2 + 1)
            exact congrArg (Component.branch () a fr) hds
      rw [remintForest_cons, forget, forget, mapForest, mapForest, hc]
      exact congrArg _ (ihcs n)

/-- A copy is sound if its source obeys the rules. -/
theorem sound_remintForest {f : Forest ι} (hf : f.Obeys) (n : Nat) :
    Forest.Sound (remintForest f n).1 :=
  ⟨obeys_of_forget_eq (forget_remintForest f n).symm hf,
    (ids_remintForest f n).nodup_iff.mpr (Id.nodup_drawn _ _)⟩

/-- A copy of a tree is the copy of the forest of that tree alone. -/
theorem remintForest_singleton (c : Component ι) (n : Nat) :
    remintForest [c] n = ([(c.remint n).1], (c.remint n).2) := rfl

end Component

/-! ## Copies of a template -/

namespace Template

open Component

theorem remintAll_cons (c : Component ι) (cs : Forest ι) (n : Nat) :
    remintAll (c :: cs) n =
      ((c.remint n).1 :: (remintAll cs (c.remint n).2).1, (remintAll cs (c.remint n).2).2) := rfl

theorem le_minted_remintAll (f : Forest ι) (n : Nat) : n ≤ (remintAll f n).2 := by
  induction f generalizing n with
  | nil => exact Nat.le_refl n
  | cons c cs ih => exact Nat.le_trans (le_minted_remintForest [c] n) (ih _)

theorem ids_remintAll (f : Forest ι) (n : Nat) :
    (Forest.ids (remintAll f n).1).Perm (Id.drawn n (remintAll f n).2) := by
  induction f generalizing n with
  | nil => simp [remintAll]
  | cons c cs ih =>
      have hfirst := ids_remintForest [c] n
      have hle := le_minted_remintForest [c] n
      rw [remintForest_singleton] at hfirst hle
      rw [remintAll_cons, ← List.singleton_append, Forest.ids_append,
        ← Id.drawn_append hle (le_minted_remintAll cs _)]
      exact List.Perm.append hfirst (ih _)

theorem forget_remintAll (f : Forest ι) (n : Nat) : forget (remintAll f n).1 = forget f := by
  induction f generalizing n with
  | nil => rfl
  | cons c cs ih =>
      have hfirst := forget_remintForest [c] n
      rw [remintForest_singleton] at hfirst
      rw [remintAll_cons, forget, forget, mapForest, mapForest]
      exact congrArg₂ List.cons (List.cons.inj hfirst).1 (ih _)

end Template

end PageDesign
