/-
# PageDesign.Proofs.Document.Payload -- what is read from the text of a copy

The text of a component is read as that component if its numbers are finite.  Infinite times are
not read, so that there is no copy then; infinite properties of a custom component are read as
none.  So if something is read from the text of a component, it is the component with its
properties hushed, under fresh identities, whatever numbers the component has (`readCopy_eq`).
-/
import PageDesign.Proofs.Component.Acceptable
import PageDesign.Proofs.Document.Reopen
import PageDesign.Proofs.Json.Infinite

namespace PageDesign

open Json (Everywhere IntegersTaken KeysDistinct Writable heard hushMembers hushItems)
open Requirement (acceptable)

variable {ι : Type}

/-! ## Components without infinite properties -/

/-- A property, or none in place of a number that is not finite. -/
def PropValue.hush : PropValue → PropValue
  | number x => if x.isFinite then number x else empty
  | p => p

/-- A leaf with its properties hushed. -/
def Leaf.hush : Leaf → Leaf
  | custom c => custom { c with props := c.props.map fun p => (p.1, p.2.hush) }
  | l => l

namespace Component

mutual

/-- A component with all properties hushed. -/
def hush : Component ι → Component ι
  | leaf i a l => leaf i a l.hush
  | branch i a f cs => branch i a f (hushForest cs)

/-- A forest with all properties hushed. -/
def hushForest : Forest ι → Forest ι
  | [] => []
  | c :: cs => hush c :: hushForest cs

end

theorem children_hush (c : Component ι) : c.hush.children = hushForest c.children := by
  cases c <;> rfl

theorem inRange_hushForest {f : Forest ι} (h : Requirement.inRange.Met f) :
    Requirement.inRange.Met (hushForest f) := by
  induction f using Forest.induction with
  | nil => exact h
  | cons c cs ihc ihcs =>
      obtain ⟨hc, hchildren, hcs⟩ := Requirement.met_cons_iff.mp h
      refine Requirement.met_cons_iff.mpr ⟨?_, ?_, ihcs hcs⟩
      · cases c with
        | leaf i a l => exact ⟨hc.1, trivial⟩
        | branch i a fr ds => exact hc
      · rw [children_hush]
        exact ihc hchildren

end Component

/-! ## The stored form -/

namespace Json

theorem hushMembers_append (ms ns : Members) :
    hushMembers (ms ++ ns) = hushMembers ms ++ hushMembers ns := by
  rw [hushMembers_eq_map, hushMembers_eq_map, hushMembers_eq_map, List.map_append]

theorem hush_ofText? (o : Option String) : (ofText? o).hush = ofText? o := by
  cases o <;> rfl

theorem hush_bindings (bs : Bindings) : bs.record.hush = bs.record := by
  rw [Bindings.record, hush, hushMembers_eq_map, List.map_map]
  rfl

theorem hushMembers_props (ps : List (String × PropValue)) :
    hushMembers (ps.map fun p => (p.1, p.2.record)) =
      ps.map fun p => (p.1, p.2.hush.record) := by
  have hprop (p : PropValue) : p.record.hush = p.hush.record := by
    cases p with
    | number x =>
        rw [PropValue.record, hush, PropValue.hush]
        split <;> rfl
    | bool b | text s | empty => rfl
  rw [hushMembers_eq_map, List.map_map]
  simp only [Function.comp_def, hprop]

end Json

theorem Leaf.kind_hush (l : Leaf) : l.hush.kind = l.kind := by cases l <;> rfl

theorem Leaf.fields_hush (l : Leaf) : hushMembers l.fields = l.hush.fields := by
  cases l <;>
    simp [Leaf.fields, Leaf.hush, hushMembers, Choice.record, Json.hush, Json.hush_ofText?,
      Json.hush_bindings, Json.hushMembers_props, Function.comp_def]

theorem Frame.fields_hush (f : Frame) : hushMembers f.fields = f.fields := by
  cases f with
  | container c =>
      obtain ⟨layout, gap, padding, onClick⟩ := c
      cases layout <;>
        simp [Frame.fields, hushMembers, Layout.record, Spacing.record, Choice.record, Json.hush,
          Json.hush_ofText?]
  | card c => simp [Frame.fields, hushMembers, Json.hush, Json.hush_ofText?]

theorem Component.baseFields_hush {a : Option Animation}
    (ha : ∀ x ∈ a, Requirement.timely.animation x) (i : Id) (k : Kind) :
    hushMembers (baseFields i a k) = baseFields i a k := by
  cases a with
  | none => rfl
  | some x =>
      obtain ⟨hduration, hdelay⟩ := ha x rfl
      simp [baseFields, hushMembers, Animation.record, Choice.record, Json.hush, hduration, hdelay]

/-- With finite times, the stored form of a design is hushed as the design is. -/
theorem Component.recordForest_hush {f : Forest Id} (h : Requirement.timely.Met f) :
    hushItems (recordForest f) = recordForest (hushForest f) := by
  induction f using Forest.induction with
  | nil => rfl
  | cons c cs ihc ihcs =>
      obtain ⟨hc, hchildren, hcs⟩ := Requirement.met_cons_iff.mp h
      have hrecord : c.record.hush = c.hush.record := by
        cases c with
        | leaf i a l =>
            rw [hush, record, record, Json.hush, Json.hushMembers_append, baseFields_hush hc.1,
              Leaf.fields_hush, Leaf.kind_hush]
        | branch i a fr ds =>
            have hds : hushItems (recordForest ds) = recordForest (hushForest ds) := ihc hchildren
            rw [hush, record, record, Json.hush, Json.hushMembers_append, baseFields_hush hc.1,
              hushMembers, Frame.fields_hush, Json.hush, hds]
      rw [recordForest, hushItems, hrecord, ihcs hcs, hushForest, recordForest]

theorem Component.record_hush {c : Component Id} (h : Requirement.timely.Met [c]) :
    c.record.hush = c.hush.record := by
  have hitems := recordForest_hush h
  rw [recordForest, recordForest, hushItems, hushItems, hushForest, hushForest] at hitems
  exact (List.cons.inj hitems).1

/-! ## Reading a copy -/

namespace Document

theorem plain_integersTaken : Json.Plain IntegersTaken where
  null := trivial
  bool _ := trivial
  text _ := trivial
  list _ := trivial
  object _ _ := trivial

theorem writable_record {c : Component Id} (hc : acceptable.Met [c])
    (hints : (Requirement.stored IntegersTaken).Met [c]) : Everywhere Writable c.record := by
  have hkeys : Everywhere KeysDistinct (Component.recordAll [c]) :=
    (everywhere_recordAll_iff Json.separates_keysDistinct.toPlain).mpr
      (Requirement.stored_keysDistinct_of_acceptable hc)
  have hintegers : Everywhere IntegersTaken (Component.recordAll [c]) :=
    (everywhere_recordAll_iff plain_integersTaken).mpr hints
  exact (hintegers.and hkeys).item List.mem_cons_self

/-- What is read from the text of an acceptable component is that component, its properties
hushed, under fresh identities. -/
theorem readCopy_eq {c : Component Id} {r : Component Id × Minted} {n : Minted}
    (hc : acceptable.Met [c]) (hints : (Requirement.stored IntegersTaken).Met [c])
    (h : readCopy c.record.dump n = .ok r) : r = c.hush.remint n := by
  have hwritable := writable_record hc hints
  have hheard : heard (fun x => some (if x.isFinite then .float x else .null)) c.record =
      some c.record.hush := by
    rw [heard, Json.mapFloats?_hush, Option.bind_some,
      Json.accept_eq_self (Json.takes_hush hwritable)]
  obtain ⟨ms, hms⟩ : ∃ ms, c.record = .obj ms := by
    cases c with
    | leaf i a l => exact ⟨_, rfl⟩
    | branch i a f cs => exact ⟨_, rfl⟩
  rw [readCopy] at h
  split at h
  next => cases h
  next ns hns =>
    have hhush : Json.obj ns = c.record.hush := by
      rw [hms] at hns hwritable ⊢
      exact Json.hush_of_extractObject hwritable hns
    split at h
    next => cases h
    next d k hload =>
      obtain ⟨draft, hread, hfill⟩ := Schema.Check.map_eq_ok_iff.mp hload
      -- something was read, so the times are finite
      have htimely : Requirement.timely.Met [c] := by
        rw [hhush] at hread
        exact Draft.timely_of_items (fun x hx w hw => by simpa [hx, eq_comm] using hw)
          (.cons hheard .nil) (.cons hread .nil)
      have hinRange := Component.inRange_hushForest (Requirement.inRange_of_acceptable hc)
      rw [hhush, Component.record_hush htimely, Draft.read_record hinRange] at hread
      cases hread
      rw [Component.fill_some] at hfill
      cases hfill
      exact (Except.ok.inj h).symm

end Document

end PageDesign
