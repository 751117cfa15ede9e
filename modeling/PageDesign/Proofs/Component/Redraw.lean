/-
# PageDesign.Proofs.Component.Redraw -- the identities of a copy are drawn one by one

A copy of a tree gets its new identities in place: a loop takes the address of a component from a
stack, draws an identity for it and puts the addresses of its children on the stack.  The last
child is on top then, so the order is none of the usual ones: the root comes first, then the
children from the last to the first, each with all below it (`turnsOf`).

`Redrawing.runs_siblings` follows the loop through some siblings, wherever they stand in a forest:
it comes to what is below them on the stack with nothing changed but their identities.  So every
component is met once (`perm_turnsFrom`), and what the loop makes of a copy is what `remint` makes
of its source by recursion (`duplicate_redraws`).
-/
import PageDesign.Proofs.Component.Fresh
import PageDesign.Proofs.Forest.Relocate

namespace PageDesign

variable {ι κ σ : Type}

/-! ## Supplies of identities -/

/-- The identities that are drawn one after the other, and what is left of the supply. -/
def draws (mint : σ → κ × σ) : Nat → σ → List κ × σ
  | 0, s => ([], s)
  | n + 1, s =>
    let (i, s) := mint s
    let (is, s) := draws mint n s
    (i :: is, s)

theorem draws_succ (mint : σ → κ × σ) (n : Nat) (s : σ) :
    draws mint (n + 1) s =
      ((mint s).1 :: (draws mint n (mint s).2).1, (draws mint n (mint s).2).2) := rfl

theorem draws_add (mint : σ → κ × σ) (m n : Nat) (s : σ) :
    draws mint (m + n) s =
      ((draws mint m s).1 ++ (draws mint n (draws mint m s).2).1,
        (draws mint n (draws mint m s).2).2) := by
  induction m generalizing s with
  | zero => rw [Nat.zero_add]; rfl
  | succ m ih => rw [Nat.add_right_comm, draws_succ, ih, draws_succ]; rfl

/-! ## Copies under identities from a supply -/

namespace Component

mutual

/-- A copy of a tree under identities from a supply. -/
def remintWith (mint : σ → κ × σ) : Component ι → σ → Component κ × σ
  | leaf _ a l, s =>
    let (i, s) := mint s
    (leaf i a l, s)
  | branch _ a f cs, s =>
    let (i, s) := mint s
    let (cs, s) := remintForestWith mint cs s
    (branch i a f cs, s)

/-- A copy of a forest under identities from a supply, the last tree first. -/
def remintForestWith (mint : σ → κ × σ) : Forest ι → σ → Forest κ × σ
  | [], s => ([], s)
  | c :: cs, s =>
    let (cs, s) := remintForestWith mint cs s
    let (c, s) := remintWith mint c s
    (c :: cs, s)

end

section Copies

variable (mint : σ → κ × σ)

theorem id_remintWith (c : Component ι) (s : σ) : (c.remintWith mint s).1.id = (mint s).1 := by
  cases c <;> rfl

theorem children_remintWith (c : Component ι) (s : σ) :
    (c.remintWith mint s).1.children = (remintForestWith mint c.children (mint s).2).1 := by
  cases c <;> rfl

theorem supply_remintWith (c : Component ι) (s : σ) :
    (c.remintWith mint s).2 = (remintForestWith mint c.children (mint s).2).2 := by
  cases c <;> rfl

theorem remintForestWith_cons (c : Component ι) (cs : Forest ι) (s : σ) :
    remintForestWith mint (c :: cs) s =
      ((c.remintWith mint (remintForestWith mint cs s).2).1 :: (remintForestWith mint cs s).1,
        (c.remintWith mint (remintForestWith mint cs s).2).2) := rfl

/-- A copy is its source with other identities. -/
theorem remintWith_eq (mint : σ → ι × σ) (c : Component ι) (s : σ) :
    (c.remintWith mint s).1 = (c.withId (mint s).1).withChildren
      (remintForestWith mint c.children (mint s).2).1 := by
  cases c <;> rfl

theorem forget_remintForestWith (f : Forest ι) (s : σ) :
    forget (remintForestWith mint f s).1 = forget f := by
  induction f using Forest.induction generalizing s with
  | nil => rfl
  | cons c cs ihc ihcs =>
      have hc (t : σ) : (c.remintWith mint t).1.map (fun _ => ()) = c.map fun _ => () := by
        cases c with
        | leaf i a l => rfl
        | branch i a fr ds => exact congrArg (Component.branch () a fr) (ihc (mint t).2)
      rw [remintForestWith_cons, forget, forget, mapForest, mapForest, hc]
      exact congrArg _ (ihcs s)

end Copies

/-- Copies under fresh identities are copies under identities from the counter. -/
theorem remintForest_eq (f : Forest ι) (n : Nat) :
    remintForest f n = remintForestWith Id.mint f n := by
  induction f using Forest.induction generalizing n with
  | nil => rfl
  | cons c cs ihc ihcs =>
      have hc (m : Nat) : c.remint m = c.remintWith Id.mint m := by
        cases c with
        | leaf i a l => rfl
        | branch i a fr ds =>
            have hds : remintForest ds (m + 1) = remintForestWith Id.mint ds (m + 1) := ihc (m + 1)
            simp only [remint, remintWith, Id.mint, hds]
      rw [remintForest_cons, ihcs, hc, remintForestWith_cons]

theorem remint_eq (c : Component ι) (n : Nat) : c.remint n = c.remintWith Id.mint n := by
  have h := remintForest_eq [c] n
  rw [remintForest_singleton, remintForestWith_cons] at h
  exact Prod.ext (List.cons.inj (Prod.mk.inj h).1).1 (Prod.mk.inj h).2

end Component

/-! ## The order in which components have their turn -/

namespace Forest

open Component (remintWith remintForestWith sizeForest mapForest)

mutual

/-- The components of the tree that stands at position `i`, each with its address: the root, then
the trees below it from the last to the first. -/
def turnsOf (i : Nat) : Component ι → List (Address × Component ι)
  | .leaf j a l => [(⟨[], i⟩, .leaf j a l)]
  | .branch j a f cs =>
    (⟨[], i⟩, .branch j a f cs) :: (turnsFrom 0 cs).map fun p => (p.1.below i, p.2)

/-- The components of siblings, the first of which is at position `i`, each with its address: the
last tree first. -/
def turnsFrom (i : Nat) : Forest ι → List (Address × Component ι)
  | [] => []
  | c :: cs => turnsFrom (i + 1) cs ++ turnsOf i c

end

theorem turnsOf_eq (i : Nat) (c : Component ι) :
    turnsOf i c = (⟨[], i⟩, c) :: (turnsFrom 0 c.children).map fun p => (p.1.below i, p.2) := by
  cases c with
  | leaf j a l => rw [turnsOf, Component.children, turnsFrom, List.map_nil]
  | branch j a f cs => rw [turnsOf, Component.children]

/-- Every component has its turn once. -/
theorem perm_turnsFrom (i : Nat) (f : Forest ι) : (turnsFrom i f).Perm (placesFrom i f) := by
  induction f using Forest.induction generalizing i with
  | nil => rw [turnsFrom, placesFrom]
  | cons c cs ihc ihcs =>
      rw [turnsFrom, turnsOf_eq, placesFrom, placesOf_eq]
      refine List.Perm.trans List.perm_append_comm (List.Perm.append ?_ (ihcs (i + 1)))
      exact List.Perm.cons _ ((ihc 0).map _)

theorem turnsFrom_mapForest (g : ι → κ) (i : Nat) (f : Forest ι) :
    turnsFrom i (mapForest g f) = (turnsFrom i f).map fun p => (p.1, p.2.map g) := by
  induction f using Forest.induction generalizing i with
  | nil => rw [mapForest, turnsFrom, turnsFrom, List.map_nil]
  | cons c cs ihc ihcs =>
      rw [mapForest, turnsFrom, turnsFrom, ihcs, turnsOf_eq, turnsOf_eq, Component.children_map, ihc,
        List.map_append, List.map_cons, List.map_map, List.map_map]
      rfl

/-- The identities of a copy are those that are drawn, in the order of the turns. -/
theorem ids_turnsFrom_remint (mint : σ → κ × σ) (i : Nat) (f : Forest ι) (s : σ) :
    ((turnsFrom i (remintForestWith mint f s).1).map (·.2.id), (remintForestWith mint f s).2) =
      draws mint (sizeForest f) s := by
  induction f using Forest.induction generalizing i s with
  | nil => rfl
  | cons c cs ihc ihcs =>
      have hbehind := ihcs (i + 1) s
      have hbelow := ihc 0 (mint (remintForestWith mint cs s).2).2
      have hsize : sizeForest (c :: cs) = sizeForest cs + (sizeForest c.children + 1) := by
        rw [sizeForest, Component.size_eq, Nat.add_comm]
      rw [hsize, draws_add, ← hbehind, draws_succ, ← hbelow, Component.remintForestWith_cons,
        turnsFrom, turnsOf_eq, Component.children_remintWith, Component.supply_remintWith,
        List.map_append, List.map_cons, Component.id_remintWith, List.map_map]
      rfl

end Forest

/-! ## The loop -/

/-- An address seen from where some positions begin. -/
def Address.under (path : List Nat) (a : Address) : Address := ⟨path ++ a.owner, a.index⟩

/-- A forest in which identities are rewritten, the addresses on the stack, the top one first, and
the supply of identities. -/
structure Redrawing (ι σ : Type) where
  forest : Forest ι
  pending : List Address
  supply : σ

namespace Redrawing

open Forest (Leads Holds editSequence exchangeAt turnsOf turnsFrom)
open Component (remintWith remintForestWith)

/-- The addresses of `n` siblings from position `i` on, the last one first. -/
def stacked (path : List Nat) (i n : Nat) : List Address :=
  ((List.range' i n).map (Address.mk path)).reverse

theorem stacked_succ (path : List Nat) (i n : Nat) :
    stacked path i (n + 1) = stacked path (i + 1) n ++ [⟨path, i⟩] := by
  rw [stacked, List.range'_succ, List.map_cons, List.reverse_cons]
  rfl

/-- One turn of the loop: the component at the top gets an identity, and its children come on the
stack. -/
def step (mint : σ → ι × σ) (st : Redrawing ι σ) : Option (Address × Redrawing ι σ) :=
  match st.pending with
  | [] => none
  | a :: pending =>
    (st.forest.at? a).map fun c =>
      let (i, supply) := mint st.supply
      (a, ⟨st.forest.replaceAt a (c.withId i),
        stacked a.path 0 c.children.length ++ pending, supply⟩)

/-- The loop runs until the stack is empty and has met the components at some addresses. -/
inductive Runs (mint : σ → ι × σ) : Redrawing ι σ → List Address → Redrawing ι σ → Prop
  | done {st : Redrawing ι σ} : st.pending = [] → Runs mint st [] st
  | turn {st next last : Redrawing ι σ} {a : Address} {met : List Address} :
      st.step mint = some (a, next) → Runs mint next met last → Runs mint st (a :: met) last

variable {mint : σ → ι × σ}

theorem step_of_pending_nil {st : Redrawing ι σ} (h : st.pending = []) : st.step mint = none := by
  rw [step, h]

theorem step_of_holds {f : Forest ι} {a : Address} {c : Component ι} (h : f.Holds a c)
    (pending : List Address) (s : σ) :
    step mint ⟨f, a :: pending, s⟩ = some (a, ⟨f.replaceAt a (c.withId (mint s).1),
      stacked a.path 0 c.children.length ++ pending, (mint s).2⟩) := by
  show (f.at? a).map _ = _
  rw [h.at?]
  rfl

/-- There is one way for the loop to run. -/
theorem Runs.unique {st last last' : Redrawing ι σ} {met met' : List Address}
    (h : Runs mint st met last) (h' : Runs mint st met' last') : met' = met ∧ last' = last := by
  induction h generalizing met' last' with
  | done hnil =>
      cases h' with
      | done => exact ⟨rfl, rfl⟩
      | turn hstep _ => cases (step_of_pending_nil hnil).symm.trans hstep
  | turn hstep _ ih =>
      cases h' with
      | done hnil => cases (step_of_pending_nil hnil).symm.trans hstep
      | turn hstep' hruns =>
          cases hstep.symm.trans hstep'
          obtain ⟨rfl, rfl⟩ := ih hruns
          exact ⟨rfl, rfl⟩

theorem exchangeAt_editSequence {path : List Nat} {f s : Forest ι} (h : Leads path f s)
    (pre post : Forest ι) (c d : Component ι) :
    (editSequence (fun _ => pre ++ c :: post) path f).exchangeAt ⟨path, pre.length⟩ [d] =
      editSequence (fun _ => pre ++ d :: post) path f := by
  have hedit : (pre ++ c :: post).take pre.length ++ [d] ++
      (pre ++ c :: post).drop (pre.length + 1) = pre ++ d :: post := by
    simp
  rw [exchangeAt, h.editSequence_editSequence]
  exact h.editSequence_congr hedit

/-- The loop goes through siblings at the top of the stack, and all that is below them, before it
comes to the rest of the stack.  Their identities are drawn then, and nothing else has changed. -/
theorem runs_siblings {path : List Nat} {f pre cs : Forest ι} {s : σ}
    {rest met : List Address} {last : Redrawing ι σ} (h : Leads path f (pre ++ cs))
    (hrest : Runs mint ⟨editSequence (fun _ => pre ++ (remintForestWith mint cs s).1) path f, rest,
      (remintForestWith mint cs s).2⟩ met last) :
    Runs mint ⟨f, stacked path pre.length cs.length ++ rest, s⟩
      ((turnsFrom pre.length cs).map (fun p => p.1.under path) ++ met) last := by
  induction cs using Forest.induction generalizing path f pre s rest met with
  | nil =>
      have hself : editSequence (fun _ => pre ++ []) path f = editSequence (fun t => t) path f :=
        h.editSequence_congr rfl
      rw [remintForestWith, hself, Forest.editSequence_self h] at hrest
      exact hrest
  | cons c cs ihc ihcs =>
      -- the siblings behind the first one are above it on the stack
      rw [List.length_cons, stacked_succ, turnsFrom, List.map_append, List.append_assoc,
        List.append_assoc, List.singleton_append]
      have hlength : (pre ++ [c]).length = pre.length + 1 := by simp
      rw [← hlength]
      apply ihcs (by rwa [List.append_assoc])
      rw [List.append_assoc, List.singleton_append]
      -- then the first one has its turn
      let t := (remintForestWith mint cs s).2
      let i := (mint t).1
      have hc : (editSequence (fun _ => pre ++ c :: (remintForestWith mint cs s).1) path f).Holds
          ⟨path, pre.length⟩ c := ⟨_, h.edited_leads _, by simp⟩
      have hnew : (editSequence (fun _ => pre ++ c.withId i :: (remintForestWith mint cs s).1)
          path f).Holds ⟨path, pre.length⟩ (c.withId i) := ⟨_, h.edited_leads _, by simp⟩
      rw [Component.remintForestWith_cons, Component.remintWith_eq, Component.supply_remintWith,
        ← exchangeAt_editSequence h pre _ (c.withId i)] at hrest
      rw [Forest.turnsOf_eq, List.map_cons, List.map_map, List.cons_append, Address.under,
        List.append_nil]
      refine .turn (step_of_holds hc rest t) ?_
      rw [hc.replaceAt_eq, exchangeAt_editSequence h]
      have hunder (a : Address) :
          (a.below pre.length).under path = a.under (path ++ [pre.length]) := by
        rw [Address.under, Address.under, List.append_assoc]
        rfl
      simp only [Function.comp_def, hunder]
      -- and then what is below it has
      cases c with
      | leaf j a l =>
          have hself := hnew.exchangeAt_self
          exact hself ▸ hrest
      | branch j a fr ds =>
          have hbelow := hnew.editSequence_path fun _ => (remintForestWith mint ds (mint t).2).1
          exact @ihc _ _ [] _ _ _ (hnew.leads rfl) (hbelow ▸ hrest)

/-- On a copy that stands beside its source the loop rewrites the copy alone, and it ends. -/
theorem runs_iff (c : Component ι) (s : σ) (met : List Address) (last : Redrawing ι σ) :
    Runs mint ⟨[c, c], [⟨[], 1⟩], s⟩ met last ↔ met = (turnsFrom 1 [c]).map (·.1) ∧
      last = ⟨[c, (c.remintWith mint s).1], [], (c.remintWith mint s).2⟩ := by
  have hends : Runs mint ⟨[c, c], [⟨[], 1⟩], s⟩ ((turnsFrom 1 [c]).map (·.1))
      ⟨[c, (c.remintWith mint s).1], [], (c.remintWith mint s).2⟩ := by
    rw [← List.append_nil (List.map _ _)]
    exact @runs_siblings _ _ mint [] [c, c] [c] [c] s [] [] _ (.here _) (.done rfl)
  constructor
  · exact hends.unique
  · rintro ⟨rfl, rfl⟩
    exact hends

end Redrawing

/-! ## Copies -/

/-- The tree `copy` is the tree `c` with its identities drawn from a supply, as the loop does it in
place when the copy stands beside its source. -/
structure Redrawn (mint : σ → ι × σ) (s : σ) (c copy : Component ι) : Prop where
  /-- There is one way for the loop to run: it ends, and the source is what it was. -/
  runs : ∀ met last, Redrawing.Runs mint ⟨[c, c], [⟨[], 1⟩], s⟩ met last ↔
    met = (Forest.turnsFrom 1 [c]).map (·.1) ∧ last = ⟨[c, copy], [], (draws mint c.size s).2⟩
  /-- Every component of the source has its turn once. -/
  once : (Forest.turnsFrom 1 [c]).Perm (Forest.placesFrom 1 [c])
  /-- At every address the copy has, apart from identities, what its source has there. -/
  same : (Forest.turnsFrom 1 [copy]).map (fun p => (p.1, p.2.map fun _ => ())) =
    (Forest.turnsFrom 1 [c]).map fun p => (p.1, p.2.map fun _ => ())
  forget : Component.forget [copy] = Component.forget [c]
  /-- Each identity that is drawn goes to the component that has its turn then. -/
  ids : (Forest.turnsFrom 1 [copy]).map (·.2.id) = (draws mint c.size s).1
  /-- As many identities are drawn as there are components. -/
  count : (draws mint c.size s).1.length = (Forest.nodes [c]).length

theorem redrawn_remintWith (mint : σ → ι × σ) (c : Component ι) (s : σ) :
    Redrawn mint s c (c.remintWith mint s).1 := by
  have hforget : Component.forget [(c.remintWith mint s).1] = Component.forget [c] :=
    Component.forget_remintForestWith mint [c] s
  have hdraws := Forest.ids_turnsFrom_remint mint 1 [c] s
  rw [Component.sizeForest, Component.sizeForest, Nat.add_zero] at hdraws
  have hids : (Forest.turnsFrom 1 [(c.remintWith mint s).1]).map (·.2.id) =
      (draws mint c.size s).1 := congrArg Prod.fst hdraws
  have hsame : (Forest.turnsFrom 1 [(c.remintWith mint s).1]).map
      (fun p => (p.1, p.2.map fun _ => ())) =
        (Forest.turnsFrom 1 [c]).map fun p => (p.1, p.2.map fun _ => ()) := by
    rw [← Forest.turnsFrom_mapForest, ← Forest.turnsFrom_mapForest]
    exact congrArg (Forest.turnsFrom 1) hforget
  constructor
  case runs =>
    intro met last
    rw [← congrArg Prod.snd hdraws]
    exact Redrawing.runs_iff c s met last
  case once => exact Forest.perm_turnsFrom 1 [c]
  case same => exact hsame
  case forget => exact hforget
  case ids => exact hids
  case count =>
    calc (draws mint c.size s).1.length
        = (Forest.turnsFrom 1 [c]).length := by
          rw [← hids, List.length_map]
          simpa using congrArg List.length hsame
      _ = (Forest.nodes [c]).length := by
          rw [(Forest.perm_turnsFrom 1 [c]).length_eq, ← Forest.map_snd_placesFrom 1, List.length_map]

/-- A copy has the shape and the fields of its source, and one identity is drawn for each of its
components: for the root first, then for the trees below it from the last to the first.  The
source stays as it is.  If the identities that are drawn are distinct and new to the source, those
of the copy are.  This is so of every supply of identities, and of the counter in particular. -/
theorem copy_redraws (mint : σ → ι × σ) (c : Component ι) (s : σ) :
    Redrawn mint s c (c.remintWith mint s).1 ∧
    (Forest.ids [(c.remintWith mint s).1]).Perm (draws mint c.size s).1 ∧
    ((draws mint c.size s).1.Nodup → (∀ i ∈ (draws mint c.size s).1, i ∉ Forest.ids [c]) →
      (Forest.ids [(c.remintWith mint s).1]).Nodup ∧
        ∀ i ∈ Forest.ids [(c.remintWith mint s).1], i ∉ Forest.ids [c]) ∧
    ∀ n, c.remint n = c.remintWith Id.mint n := by
  have hredrawn := redrawn_remintWith mint c s
  have hids : (Forest.ids [(c.remintWith mint s).1]).Perm (draws mint c.size s).1 := by
    rw [← hredrawn.ids, Forest.ids, ← Forest.map_snd_placesFrom 1, List.map_map]
    exact (Forest.perm_turnsFrom 1 _).symm.map _
  refine ⟨hredrawn, hids, fun hdistinct hnew => ?_, c.remint_eq⟩
  exact ⟨hids.nodup_iff.mpr hdistinct, fun i hi => hnew i (hids.mem_iff.mp hi)⟩

/-- A card is copied with a text and a button in it, which gets its identity before the text. -/
theorem copy_redraws_sample :
    let mint (s : List Id) : Id × List Id := (s.headD "", s.tail)
    let card : Component Id :=
      .branch "a" none (.card {}) [.leaf "t" none (.text {}), .leaf "b" none (.button {})]
    let copy : Component Id :=
      .branch "x" none (.card {}) [.leaf "z" none (.text {}), .leaf "y" none (.button {})]
    card.remintWith mint ["x", "y", "z", "u"] = (copy, ["u"]) ∧
      (draws mint card.size ["x", "y", "z", "u"]).1.Nodup ∧
      (∀ i ∈ (draws mint card.size ["x", "y", "z", "u"]).1, i ∉ Forest.ids [card]) ∧
      (Forest.ids [copy]).Nodup ∧ ∀ i ∈ Forest.ids [copy], i ∉ Forest.ids [card] := by
  intro mint card copy
  have hcopy : card.remintWith mint ["x", "y", "z", "u"] = (copy, ["u"]) := rfl
  have hdraws : (draws mint card.size ["x", "y", "z", "u"]).1 = ["x", "y", "z"] := rfl
  have hids : Forest.ids [card] = ["a", "t", "b"] := by decide +kernel
  have hdistinct : (draws mint card.size ["x", "y", "z", "u"]).1.Nodup := by rw [hdraws]; decide
  have hnew : ∀ i ∈ (draws mint card.size ["x", "y", "z", "u"]).1, i ∉ Forest.ids [card] := by
    rw [hdraws, hids]
    decide
  exact ⟨hcopy, hdistinct, hnew,
    (copy_redraws mint card ["x", "y", "z", "u"]).2.2.1 hdistinct hnew⟩

end PageDesign
