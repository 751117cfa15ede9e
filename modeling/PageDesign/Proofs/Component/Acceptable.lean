/-
# PageDesign.Proofs.Component.Acceptable -- components as the readers make them

A component may have any values in its fields, but not every component could have been read.
The readers keep their bounds, and a dictionary that is read has no key twice.  `acceptable`
says this of a component; it is ensured of everything that is read (`acceptable_ensuredBy`), a
patch keeps it (`met_apply`), and a design that has it and whose numbers fit keeps the limits of
a text in its stored form (`takes_recordAll`).

Requirements look at components without their children, so like soundness they pass from one
forest to another by `Comprises`.
-/
import PageDesign.Component.Patch
import PageDesign.Proofs.Component.Record
import PageDesign.Proofs.Json.Extract

namespace PageDesign

open Forest (Comprises)
open Json (Dialect Everywhere KeysDistinct NumbersFit)
open Schema

variable {ι : Type}

/-! ## Requirements and edits -/

namespace Requirement

variable {r : Requirement}

theorem met_iff_parts {f : Forest ι} : r.Met f ↔ ∀ c ∈ f.parts, r.Node c := by
  have hbare (c : Component ι) : r.Node c.bare ↔ r.Node c := by cases c <;> rfl
  simp only [Met, Forest.parts, List.forall_mem_map, hbare]

theorem met_iff_of_comprises {f g cs : Forest ι} (h : Comprises g cs f) :
    r.Met g ↔ r.Met cs ∧ r.Met f := by
  simp only [met_iff_parts, List.Perm.mem_iff h, List.mem_append, or_imp, forall_and]

theorem met_withId_iff {c : Component Id} (id : Id) : r.Met [c.withId id] ↔ r.Met [c] := by
  rw [met_cons_iff, met_cons_iff]
  cases c <;> exact Iff.rfl

theorem met_of_get {f : Forest Id} {id : Id} {c : Component Id} (hf : r.Met f)
    (h : f.get? id = some c) : r.Met [c] := by
  obtain ⟨rest, hrest⟩ := Forest.exists_comprises_of_get h
  exact ((met_iff_of_comprises hrest).mp hf).1

end Requirement

/-! ## Acceptable components -/

theorem Json.separates_keysDistinct : Json.Separates KeysDistinct where
  null := trivial
  bool _ := trivial
  text _ := trivial
  list _ := trivial
  object _ h := h
  distinct _ h := h

theorem Json.plain_numbersFit : Json.Plain NumbersFit where
  null := trivial
  bool _ := trivial
  text _ := trivial
  list _ := trivial
  object _ _ := trivial

namespace Requirement

/-- The fields have values that their readers yield: numbers are within their bounds, and no key
of a dictionary comes twice. -/
def acceptable : Requirement where
  animation := Animation.InRange
  leaf l := Everywhere KeysDistinct l.dictionary
  frame := Frame.InRange

theorem ensures_keysDistinct_prop :
    Ensures KeysDistinct Draft.readProp fun p => Everywhere KeysDistinct p.record := by
  intro v _ p _
  -- no property is an object
  cases p <;> exact (Json.everywhere_scalar rfl).mpr trivial

theorem acceptable_ensuredBy : acceptable.EnsuredBy KeysDistinct where
  animation := ensures_readAnimation
  leaf _ _ hms hl := hl.dictionary Json.separates_keysDistinct ensures_keysDistinct_prop hms
  frame _ _ _ hf := hf.inRange

theorem inRange_of_acceptable {f : Forest ι} (h : acceptable.Met f) : inRange.Met f := by
  intro c hc
  have hnode := h c hc
  cases c with
  | leaf i a l => exact ⟨hnode.1, trivial⟩
  | branch i a fr cs => exact hnode

/-- An acceptable design is stored without a repeated key. -/
theorem stored_keysDistinct_of_acceptable {f : Forest ι} (h : acceptable.Met f) :
    (stored KeysDistinct).Met f := by
  intro c hc
  have hnode := h c hc
  cases c with
  | leaf i a l => exact ⟨fun _ _ => ⟨trivial, trivial⟩, hnode.2⟩
  | branch i a fr cs =>
      refine ⟨fun _ _ => ⟨trivial, trivial⟩, ?_⟩
      cases fr <;> simp [stored, Frame.Within, KeysDistinct]

/-- An acceptable design whose numbers fit keeps the limits of a text. -/
theorem takes_recordAll {f : Forest Id} (h : acceptable.Met f) (hfit : (stored NumbersFit).Met f) :
    Everywhere Dialect.strict.Takes (Component.recordAll f) := by
  have hkeys : Everywhere KeysDistinct (Component.recordAll f) :=
    (everywhere_recordAll_iff Json.separates_keysDistinct.toPlain).mpr
      (stored_keysDistinct_of_acceptable h)
  have hnumbers : Everywhere NumbersFit (Component.recordAll f) :=
    (everywhere_recordAll_iff Json.plain_numbersFit).mpr hfit
  exact Json.everywhere_takes_of_fit hnumbers hkeys

end Requirement

/-! ## Patches -/

namespace Patch

open Requirement (acceptable)

variable {named : List String}

/-- A field of a patched component satisfies what it satisfied before and in the patch. -/
theorem pick_of_both {α : Type} {P : α → Prop} {new old : α} (field : String) (hnew : P new)
    (hold : P old) : P (pick named field new old) := by
  rw [pick]
  split
  next => exact hnew
  next => exact hold

theorem acceptable_assignLeaf {new old : Leaf} (hnew : acceptable.leaf new)
    (hold : acceptable.leaf old) : acceptable.leaf (assignLeaf named new old) := by
  unfold assignLeaf
  dsimp only
  split
  case h_1 n o =>
    exact pick_of_both (P := fun bs => Everywhere KeysDistinct (Bindings.record bs)) "bindings"
      hnew hold
  case h_2 n o =>
    exact pick_of_both (P := fun bs => Everywhere KeysDistinct (Bindings.record bs)) "bindings"
      hnew hold
  case h_3 n o =>
    exact pick_of_both (P := fun bs => Everywhere KeysDistinct (Bindings.record bs)) "bindings"
      hnew hold
  case h_4 n o => exact hold
  case h_5 n o => exact hold
  case h_6 n o =>
    exact pick_of_both (P := fun ps => Everywhere KeysDistinct (Leaf.dictionary (.custom
      { o with props := ps }))) "props" hnew hold
  case h_7 => exact hold

theorem inRange_assignFrame {new old : Frame} (hnew : new.InRange) (hold : old.InRange) :
    (assignFrame named new old).InRange := by
  unfold assignFrame
  dsimp only
  split
  case h_1 n o =>
    exact ⟨pick_of_both (P := fun l => ∀ k ∈ Layout.lengths l, 1 ≤ k) "layout" hnew.1 hold.1,
      pick_of_both "gap" hnew.2.1 hold.2.1,
      pick_of_both (P := fun p => ∀ k ∈ Spacing.lengths p, 0 ≤ k) "padding" hnew.2.2 hold.2.2⟩
  case h_2 n o =>
    exact ⟨pick_of_both "padding" hnew.1 hold.1, pick_of_both "border_radius" hnew.2 hold.2⟩
  case h_3 => exact hold

theorem met_assign {new old : Component Id} (hnew : acceptable.Met [new])
    (hold : acceptable.Met [old]) : acceptable.Met [assign named new old] := by
  rw [Requirement.met_cons_iff] at hnew hold ⊢
  obtain ⟨hnode, hchildren, -⟩ := hnew
  obtain ⟨hnode', hchildren', -⟩ := hold
  refine ⟨?_, ?_, Requirement.met_nil⟩
  · unfold assign
    dsimp only
    split
    case h_1 i a l j b m =>
      exact ⟨pick_of_both (P := fun a => ∀ x ∈ a, Animation.InRange x) "animation" hnode.1 hnode'.1,
        acceptable_assignLeaf hnode.2 hnode'.2⟩
    case h_2 i a f cs j b g ds =>
      exact ⟨pick_of_both (P := fun a => ∀ x ∈ a, Animation.InRange x) "animation" hnode.1 hnode'.1,
        inRange_assignFrame hnode.2 hnode'.2⟩
    case h_3 => exact hnode'
  · unfold assign
    dsimp only
    split
    case h_1 i a l j b m => exact Requirement.met_nil
    -- the children are taken as a whole, from the patch or from the component
    case h_2 i a f cs j b g ds => exact pick_of_both "children" hchildren hchildren'
    case h_3 => exact hchildren'

/-- A patch of fields without a repeated key keeps a component acceptable. -/
theorem met_apply {fields : Json.Members} {c new : Component Id} {m n : Minted}
    (h : apply fields c m = .ok (new, n)) (hfields : Everywhere KeysDistinct (.obj fields))
    (hc : acceptable.Met [c]) : acceptable.Met [new] := by
  obtain ⟨d, hread, heq⟩ := Check.map_eq_ok_iff.mp h
  cases heq
  have hplaceholder : Everywhere KeysDistinct (.obj [("id", .str placeholderId)]) :=
    Json.everywhere_keysDistinct_put Json.everywhere_keysDistinct_empty
      (Json.separates_keysDistinct.everywhere_text _) "id"
  have hms := Json.everywhere_keysDistinct_putAll hfields hplaceholder
  have hd : acceptable.Met [d] := by
    refine Requirement.acceptable_ensuredBy.of_readFrom hms (fun cs hcs => ?_)
      (Draft.readKind_eq_ok_iff.mp hread).2
    rw [Draft.readChildren_eq] at hcs
    exact Requirement.acceptable_ensuredBy.forest.field Requirement.met_nil hms hcs
  -- filling in identities changes nothing else
  have hfilled : acceptable.Met [(d.fill m).1] :=
    Requirement.met_of_forget_eq (Component.forget_fillForest [d] m).symm hd
  exact met_assign hfilled hc

end Patch

end PageDesign
