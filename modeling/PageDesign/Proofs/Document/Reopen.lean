/-
# PageDesign.Proofs.Document.Reopen -- stored documents are opened again

A document that was read from a text is written and read once more.  If the times of its
animations are finite, this succeeds at every indentation and gives the same components and the
same selection (`reopen_ok`): what was read keeps the limits of a text, so that the written form
is read back as it was written, and it was checked before.

An infinite time is read from a text that spells it, but is written as nothing or under a name
that a strict text does not know.  Neither is read as a time, so that a document with such a
time is never opened again (`reopen_error`).
-/
import PageDesign.Proofs.Document.Run
import PageDesign.Proofs.Json.Extract
import PageDesign.Proofs.Schema.Limits

namespace PageDesign

open Json (Dialect Everywhere heard)
open Schema

/-! ## Infinite times -/

/-- The times of all animations are finite. -/
def Requirement.timely : Requirement where
  animation a := a.duration.isFinite = true ∧ a.delay.isFinite = true
  leaf _ := True
  frame _ := True

theorem timely_iff_all {ι : Type} {f : Forest ι} :
    Requirement.timely.Met f ↔ (f.nodes.all fun c =>
      c.animation.all fun a => a.duration.isFinite && a.delay.isFinite) = true := by
  have hnode (c : Component ι) : Requirement.timely.Node c ↔
      (c.animation.all fun a => a.duration.isFinite && a.delay.isFinite) = true := by
    cases c <;>
      simp [Requirement.Node, Requirement.timely, Component.animation, Option.all_eq_true]
  simp only [Requirement.Met, List.all_eq_true, hnode]

instance {ι : Type} (f : Forest ι) : Decidable (Requirement.timely.Met f) :=
  decidable_of_iff _ timely_iff_all.symm

namespace Draft

variable {g : Binary64 → Option Json}

/-- A field of an object that is heard and read was there, and was heard and read. -/
theorem exists_of_field {α : Type} {ms ns : Json.Members} {name : String} {default a : α}
    {read : Json → Check α} {v : Json}
    (h : List.Forall₂ (fun m n => m.1 = n.1 ∧ heard g m.2 = some n.2) ms ns)
    (hv : ms.lookup name = some v) (hread : field ns name default read = .ok a) :
    ∃ w, heard g v = some w ∧ read w = .ok a := by
  obtain ⟨w, hw, hheard⟩ := Json.heard_lookup h hv
  obtain ⟨w', hw', hread⟩ | ⟨hnone, -⟩ := field_eq_ok_iff.mp hread
  · rw [hw] at hw'
    cases hw'
    exact ⟨w, hheard, hread⟩
  · rw [hw] at hnone
    cases hnone

theorem ReadFrom.head {ms : Json.Members} {children : Check (List Draft)} {d : Draft}
    (h : ReadFrom ms children d) : ∃ i a, ReadsHead ms i a d.kind := by
  cases d with
  | leaf i a l => exact ⟨i, a, h.1⟩
  | branch i a f cs => exact ⟨i, a, h.1⟩

variable (hg : ∀ x : Binary64, x.isFinite = false → ∀ w, g x = some w → w = .null)

include hg

/-- What is heard for a time and read as one was finite. -/
theorem isFinite_of_heard {x t : Binary64} {w : Json} (hw : heard g (.float x) = some w)
    (ht : numberFromZero w = .ok t) : x.isFinite = true := by
  by_contra hx
  obtain ⟨u, hu, haccept⟩ := Option.bind_eq_some_iff.mp hw
  rw [hg x (by simpa using hx) u hu] at haccept
  cases haccept
  cases ht

/-- An animation that is heard and read had finite times. -/
theorem timely_of_heard {a a' : Animation} {w : Json} (hw : heard g a.record = some w)
    (hread : readAnimation w = .ok a') : Requirement.timely.animation a := by
  obtain ⟨ns, rfl, hns⟩ := Json.heard_obj (by simp [Keyed.names]) hw
  simp only [readAnimation, part, Check.seq_eq_ok_iff, Check.fmap_eq_ok_iff] at hread
  obtain ⟨_, ⟨_, ⟨_, ⟨movement, -, rfl⟩, duration, hduration, rfl⟩, delay, hdelay, rfl⟩,
    infinite, -, rfl⟩ := hread
  obtain ⟨u, hu, hduration⟩ := exists_of_field hns (v := .float a.duration) rfl hduration
  obtain ⟨u', hu', hdelay⟩ := exists_of_field hns (v := .float a.delay) rfl hdelay
  exact ⟨isFinite_of_heard hg hu hduration, isFinite_of_heard hg hu' hdelay⟩

theorem timely_of_head {i : Id} {a : Option Animation} {k : Kind} {ms ns : Json.Members}
    {i' : Option Id} {a' : Option Animation} {k' : Kind}
    (hns : List.Forall₂ (fun m n => m.1 = n.1 ∧ heard g m.2 = some n.2)
      (Component.baseFields i a k ++ ms) ns)
    (hhead : ReadsHead ns i' a' k') : ∀ x ∈ a, Requirement.timely.animation x := by
  rintro x rfl
  obtain ⟨w, hw, hread⟩ := exists_of_field hns (v := x.record) rfl hhead.animation
  -- what is heard for an animation is an object, so that it is not read as none
  obtain ⟨us, rfl, -⟩ := Json.heard_obj (by simp [Keyed.names]) hw
  obtain ⟨x', hx', -⟩ := Check.map_eq_ok_iff.mp hread
  exact timely_of_heard hg hw hx'

/-- Components that are heard and read had finite times throughout. -/
theorem timely_of_items {f : Forest Id} {ws : List Json} {ds : List Draft}
    (hws : List.Forall₂ (fun v w => heard g v = some w) (Component.recordForest f) ws)
    (hds : List.Forall₂ (fun w d => read w = .ok d) ws ds) : Requirement.timely.Met f := by
  induction f using Forest.induction generalizing ws ds with
  | nil => exact Requirement.met_nil
  | cons c cs ihc ihcs =>
      obtain _ | ⟨hw, hws⟩ := hws
      obtain _ | @⟨w, d, _, _, hd, hds⟩ := hds
      obtain ⟨ns, rfl, hkind, hfrom⟩ := read_eq_ok_iff.mp hd
      refine Requirement.met_cons_iff.mpr ?_
      cases c with
      | leaf i a l =>
          rw [Component.record] at hw
          obtain ⟨_, heq, hns⟩ := Json.heard_obj (nodup_names_leaf i a l) hw
          cases heq
          obtain ⟨i', a', hhead⟩ := hfrom.head
          exact ⟨⟨timely_of_head hg hns hhead, trivial⟩, Requirement.met_nil, ihcs hws hds⟩
      | branch i a f bs =>
          rw [Component.record] at hw
          obtain ⟨_, heq, hns⟩ := Json.heard_obj (nodup_names_branch i a f _) hw
          cases heq
          obtain ⟨i', a', hhead⟩ := hfrom.head
          refine ⟨⟨timely_of_head hg hns hhead, trivial⟩, ?_, ihcs hws hds⟩
          -- the kind is heard as it is, so that a branch was read
          obtain ⟨w, hkind', hheard⟩ := Json.heard_lookup hns (k := "kind")
            (v := Choice.record f.kind) rfl
          rw [hkind] at hkind'
          cases hheard
          cases d with
          | leaf i' a' l =>
              have hname : Choice.record l.kind = Choice.record f.kind := Option.some.inj hkind'
              exact absurd (Choice.record_injective hname) (l.kind_ne f)
          | branch i' a' f' cs' =>
              obtain ⟨u, hu, hread⟩ :=
                exists_of_field hns (lookup_children i a f.kind _ f.fields) hfrom.2.1
              obtain ⟨us, rfl, hus⟩ := Json.heard_arr hu
              obtain ⟨_, heq, hcs'⟩ := readForest_eq_ok_iff.mp hread
              cases heq
              exact ihc hus hcs'

/-- A design that is heard and read had finite times throughout. -/
theorem timely_of_readForest {f : Forest Id} {w : Json} {ds : List Draft}
    (hw : heard g (Component.recordAll f) = some w) (hread : readForest w = .ok ds) :
    Requirement.timely.Met f := by
  obtain ⟨ws, rfl, hws⟩ := Json.heard_arr hw
  obtain ⟨_, heq, hds⟩ := readForest_eq_ok_iff.mp hread
  cases heq
  exact timely_of_items hg hws hds

end Draft

namespace Document

/-! ## Documents that were read -/

theorem ofText_eq_ok_iff {s : String} {capacity : Option Int} {m : Minted} {r : Document × Minted} :
    ofText s capacity m = .ok r ↔
      ∃ ms, Json.extractObject s false = .ok ms ∧ ofJson (.obj ms) capacity m = .ok r := by
  rw [ofText]
  cases Json.extractObject s false <;> simp

theorem readStored_eq_ok_iff {ms : Json.Members} {r : List Draft × Option Id} :
    readStored (.obj ms) = .ok r ↔
      field ms "components" [] Draft.readForest = .ok r.1 ∧
        field ms "selected" none (optional text) = .ok r.2 := by
  simp only [readStored, Check.seq_eq_ok_iff, Check.fmap_eq_ok_iff]
  constructor
  · rintro ⟨_, ⟨ds, hds, rfl⟩, i, hi, rfl⟩
    exact ⟨hds, hi⟩
  · rintro ⟨hds, hi⟩
    exact ⟨_, ⟨_, hds, rfl⟩, _, hi, rfl⟩

/-- The components of a document that was read are those of its object, under identities. -/
theorem exists_components_of_ofJson {v : Json} {capacity : Option Int} {m n : Minted}
    {d : Document} (h : ofJson v capacity m = .ok (d, n)) :
    ∃ ds i, readStored v = .ok (ds, i) ∧ d.components = (Component.fillForest ds m).1 := by
  rw [ofJson] at h
  split at h
  next => cases h
  next ds i hstored =>
    refine ⟨ds, i, hstored, ?_⟩
    dsimp only at h
    split at h
    next => cases h
    next =>
      split at h
      next d' hd =>
        cases h
        obtain ⟨capacity, -, rfl⟩ := ofForest_eq_ok hd
        rfl
      next => cases h

/-- What is ensured of components that are read from some values holds in every document that
was read from one. -/
theorem met_of_ofJson {r : Requirement} {q : Json → Prop} (hr : r.EnsuredBy q) {v : Json}
    (hv : Everywhere q v) {capacity : Option Int} {m n : Minted} {d : Document}
    (h : ofJson v capacity m = .ok (d, n)) : r.Met d.components := by
  obtain ⟨ds, i, hstored, hcomponents⟩ := exists_components_of_ofJson h
  have hds : r.Met ds := by
    cases v with
    | obj ms =>
        obtain ⟨hfield, -⟩ := readStored_eq_ok_iff.mp hstored
        exact hr.forest.field Requirement.met_nil hv hfield
    | _ => cases hstored
  rw [hcomponents]
  exact Requirement.met_of_forget_eq (Component.forget_fillForest ds m).symm hds

theorem met_of_ofText {r : Requirement} (hr : r.EnsuredBy Dialect.strict.Takes) {s : String}
    {capacity : Option Int} {m n : Minted} {d : Document}
    (h : ofText s capacity m = .ok (d, n)) : r.Met d.components := by
  obtain ⟨ms, hms, hjson⟩ := ofText_eq_ok_iff.mp h
  obtain ⟨span, -, hparse⟩ := Json.extractObject_strict_iff.mp hms
  exact met_of_ofJson hr (Json.takes_of_parseList hparse) hjson

/-! ## Opening again -/

/-- The text of a document is one object, from its first character to its last. -/
theorem candidate_toText (d : Document) (indent : Int) :
    Json.candidate? (d.toText indent) = some (d.toText indent).toList := by
  have hblank : Text.isBlankText "" = true := rfl
  have hcandidate := Json.candidate_dump
    [("components", Component.recordAll d.components), ("selected", Json.ofText? d.selected)]
    indent hblank hblank
  rwa [String.empty_append, String.append_empty] at hcandidate

/-- What a document is stored as keeps the limits of a text if its times are finite. -/
theorem takes_toJson {d : Document} (hstorable : Requirement.storable.Met d.components)
    (htimely : Requirement.timely.Met d.components) : Everywhere Dialect.strict.Takes d.toJson := by
  have hplain := (Dialect.separates_takes .strict).toPlain
  have hcomponents : Everywhere Dialect.strict.Takes (Component.recordAll d.components) := by
    refine (everywhere_recordAll_iff hplain).mpr fun c hc => ?_
    have hnode := hstorable c hc
    have htimes := htimely c hc
    cases c with
    | leaf i a l => exact ⟨htimes.1, hnode.2⟩
    | branch i a f cs => exact ⟨htimes.1, hnode.2⟩
  refine Json.everywhere_obj.mpr ⟨by simp [Dialect.Takes, Keyed.names], ?_⟩
  simp only [List.forall_mem_cons]
  exact ⟨hcomponents, hplain.everywhere_ofText? d.selected, by simp⟩

/-- A sound design within the bounds is read back from the object it is stored as. -/
theorem ofJson_toJson {d : Document} (hrange : Requirement.inRange.Met d.components)
    (hsound : d.components.Sound) (k : Minted) :
    ofJson d.toJson none k = .ok (⟨d.components, d.selected.filter d.components.contains,
      .empty History.defaultCapacity⟩, k) := by
  have hstored : readStored d.toJson =
      .ok (Component.mapForest some d.components, d.selected) :=
    readStored_eq_ok_iff.mpr
      ⟨field_of_lookup rfl (Draft.readForest_record hrange),
        field_of_lookup rfl (optional_text_record d.selected)⟩
  -- no identity is missing, so none is drawn
  have hfill := Component.fillForest_some d.components k
  have hvalid : d.components.validate = .ok () := Forest.validate_iff.mpr hsound
  rw [ofJson, hstored]
  simp only [hfill, hvalid]
  rfl

/-- A document that was read and whose times are finite is opened again as it was. -/
theorem reopen_ok {s : String} {capacity : Option Int} {m n : Minted} {d : Document}
    (h : ofText s capacity m = .ok (d, n)) (htimely : Requirement.timely.Met d.components)
    (indent : Int) (k : Minted) :
    ∃ again, ofText (d.toText indent) none k = .ok (again, k) ∧
      again.components = d.components ∧ again.selected = d.selected := by
  -- the bounds are for the readers of the fields, the limits for the reader of the text
  have hrange : Requirement.inRange.Met d.components :=
    met_of_ofText Requirement.inRange_ensuredBy h
  have htakes : Everywhere Dialect.strict.Takes d.toJson :=
    takes_toJson (met_of_ofText Requirement.storable_ensuredBy h) htimely
  have hblank : Text.isBlankText "" = true := rfl
  have hextract := Json.extractObject_of_takes htakes indent hblank hblank false
  rw [String.empty_append, String.append_empty] at hextract
  obtain ⟨f, selected, capacity, -, hsound, hselected, rfl⟩ := unedited_ofText h
  have hkept : selected.filter (Forest.contains f) = selected := by
    cases selected with
    | none => rfl
    | some i => simp [Option.filter, Forest.contains_iff.mpr (hselected i rfl)]
  have hjson := ofJson_toJson hrange hsound k
  rw [hkept] at hjson
  exact ⟨_, ofText_eq_ok_iff.mpr ⟨_, hextract, hjson⟩, rfl, rfl⟩

/-- A document with an infinite time is never opened again. -/
theorem reopen_error {d : Document} (h : ¬ Requirement.timely.Met d.components) (indent : Int)
    (capacity : Option Int) (k : Minted) :
    ∃ e, ofText (d.toText indent) capacity k = .error e := by
  cases htext : ofText (d.toText indent) capacity k with
  | error e => exact ⟨e, rfl⟩
  | ok r =>
      obtain ⟨ms, hms, hjson⟩ := ofText_eq_ok_iff.mp htext
      obtain ⟨span, hspan, hparse⟩ := Json.extractObject_strict_iff.mp hms
      rw [candidate_toText] at hspan
      cases hspan
      obtain ⟨g, hreads, -, hg⟩ := Json.exists_reads_styleFor d.toJson indent
      have hheard : heard g d.toJson = some (.obj ms) :=
        (Json.parse_render hreads d.toJson).symm.trans hparse
      obtain ⟨ns, heq, hns⟩ := Json.heard_obj (by simp [Keyed.names]) hheard
      cases heq
      obtain ⟨ds, i, hstored, -⟩ := exists_components_of_ofJson hjson
      obtain ⟨hfield, -⟩ := readStored_eq_ok_iff.mp hstored
      obtain ⟨w, hw, hread⟩ := Draft.exists_of_field hns rfl hfield
      exact absurd (Draft.timely_of_readForest hg hw hread) h

/-- A document that was read from a text is opened again from its own text with the same
components and the same selection if its times are finite; if not, it is refused. -/
theorem reopen {s : String} {capacity : Option Int} {m n : Minted} {d : Document}
    (h : ofText s capacity m = .ok (d, n)) (indent : Int) (k : Minted) :
    (Requirement.timely.Met d.components →
        ∃ again, ofText (d.toText indent) none k = .ok (again, k) ∧
          again.components = d.components ∧ again.selected = d.selected) ∧
      (¬ Requirement.timely.Met d.components → ∃ e, ofText (d.toText indent) none k = .error e) :=
  ⟨fun htimely => reopen_ok h htimely indent k,
    fun hinfinite => reopen_error hinfinite indent none k⟩

theorem exists_of_any_toOption {ε α : Type} {r : Except ε α} {p : α → Bool}
    (h : r.toOption.any p = true) : ∃ a, r = .ok a ∧ p a = true := by
  cases r with
  | error e => cases h
  | ok a => exact ⟨a, rfl, h⟩

/-- The text of a document with one component, which is animated for some time. -/
def animatedText (duration : String) : String :=
  "\x7b\"components\":[\x7b\"id\":\"a\",\"kind\":\"text\",\"animation\":\x7b\"duration\":" ++
    duration ++ "\x7d\x7d]\x7d"

/-- An animation of two seconds. -/
theorem reopen_sample :
    ∃ d, ofText (animatedText "2") none 0 = .ok (d, 0) ∧
      ∃ again, ofText (d.toText 4) none 7 = .ok (again, 7) ∧
        again.components = d.components ∧ again.selected = d.selected := by
  have hread : (ofText (animatedText "2") none 0).toOption.any
      (fun r => decide (Requirement.timely.Met r.1.components) && r.2 == 0) = true := by
    decide +kernel
  obtain ⟨⟨d, n⟩, h, htest⟩ := exists_of_any_toOption hread
  simp only [Bool.and_eq_true, decide_eq_true_eq, beq_iff_eq] at htest
  obtain ⟨htimely, rfl⟩ := htest
  exact ⟨d, h, (reopen h 4 7).1 htimely⟩

/-- An animation that never ends is read from a text, but not from the document's own. -/
theorem reopen_infinite :
    ∃ d, ofText (animatedText "\"inf\"") none 0 = .ok (d, 0) ∧
      ∀ indent, ∃ e, ofText (d.toText indent) none 0 = .error e := by
  have hread : (ofText (animatedText "\"inf\"") none 0).toOption.any
      (fun r => !decide (Requirement.timely.Met r.1.components) && r.2 == 0) = true := by
    decide +kernel
  obtain ⟨⟨d, n⟩, h, htest⟩ := exists_of_any_toOption hread
  simp only [Bool.and_eq_true, Bool.not_eq_true', decide_eq_false_iff_not, beq_iff_eq] at htest
  obtain ⟨hinfinite, rfl⟩ := htest
  exact ⟨d, h, fun indent => reopen_error hinfinite indent none 0⟩

end Document

end PageDesign
