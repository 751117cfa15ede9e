/-
# PageDesign.Proofs.Component.Record -- the stored form of a design

Two things are said about what a design is stored as.  A statement that is about numbers and
repeated keys holds everywhere in it if it holds for the numbers and the dictionaries in the
parts of every component (`everywhere_recordAll_iff`).  And the stored form tells which design
it is (`recordAll_injective`), without a condition on the design.
-/
import PageDesign.Proofs.Component.Stored
import PageDesign.Proofs.Json.Limits

namespace PageDesign

open Json (Everywhere everywhere_arr everywhere_obj everywhere_scalar)

/-! ## Statements about the stored form -/

/-- A statement about values that can fail only for numbers and for repeated keys. -/
structure Json.Plain (q : Json → Prop) : Prop where
  null : q .null
  bool : ∀ b, q (.bool b)
  text : ∀ s, q (.str s)
  list : ∀ vs, q (.arr vs)
  object : ∀ ms, (Keyed.names ms).Nodup → q (.obj ms)

/-- A plain statement that fails for every repeated key. -/
structure Json.Separates (q : Json → Prop) : Prop extends Json.Plain q where
  distinct : ∀ ms, q (.obj ms) → (Keyed.names ms).Nodup

/-- The bindings of a leaf or the properties of a custom component, as they are stored. -/
def Leaf.dictionary : Leaf → Json
  | button b => b.bindings.record
  | text t => t.bindings.record
  | input i => i.bindings.record
  | custom c => .obj (c.props.map fun (k, v) => (k, v.record))
  | _ => .null

/-- Numbers and dictionaries in the parts of a component satisfy a statement. -/
def Requirement.stored (q : Json → Prop) : Requirement where
  animation a := q (.float a.duration) ∧ q (.float a.delay)
  leaf l := Everywhere q l.dictionary
  frame := Frame.Within (fun n => q (.int n)) fun n => q (.int n)

section Stored

variable {q : Json → Prop}

namespace Json.Plain

variable (hq : Json.Plain q)

include hq

theorem everywhere_text (s : String) : Everywhere q (.str s) :=
  (everywhere_scalar rfl).mpr (hq.text s)

theorem everywhere_bool (b : Bool) : Everywhere q (.bool b) :=
  (everywhere_scalar rfl).mpr (hq.bool b)

theorem everywhere_null : Everywhere q .null := (everywhere_scalar rfl).mpr hq.null

theorem everywhere_ofText? (o : Option String) : Everywhere q (Json.ofText? o) := by
  cases o with
  | none => exact hq.everywhere_null
  | some s => exact hq.everywhere_text s

theorem everywhere_animation_iff {a : Animation} :
    Everywhere q a.record ↔ (Requirement.stored q).animation a := by
  have hobject : q a.record := hq.object _ (by simp [Keyed.names])
  have hfloat {x : Binary64} : Everywhere q (.float x) ↔ q (.float x) := everywhere_scalar rfl
  rw [Animation.record] at hobject ⊢
  rw [everywhere_obj, and_iff_right hobject]
  simp [Choice.record, hq.everywhere_text, hq.everywhere_bool, hfloat, Requirement.stored]

theorem everywhere_leaf_iff {l : Leaf} :
    (∀ m ∈ l.fields, Everywhere q m.2) ↔ (Requirement.stored q).leaf l := by
  cases l <;>
    simp [Leaf.fields, Leaf.dictionary, Choice.record, Requirement.stored, hq.everywhere_text,
      hq.everywhere_bool, hq.everywhere_null, hq.everywhere_ofText?]

theorem everywhere_spacing_iff {s : Spacing} :
    Everywhere q s.record ↔ ∀ n ∈ s.lengths, q (.int n) := by
  have hobject : q s.record := hq.object _ (by simp [Keyed.names])
  have hint {n : Int} : Everywhere q (.int n) ↔ q (.int n) := everywhere_scalar rfl
  rw [Spacing.record] at hobject ⊢
  rw [everywhere_obj, and_iff_right hobject]
  simp [Spacing.lengths, hint]

theorem everywhere_layout_iff {l : Layout} :
    Everywhere q l.record ↔ ∀ n ∈ l.lengths, q (.int n) := by
  have hobject : q l.record := by cases l <;> exact hq.object _ (by simp [Keyed.names])
  have hint {n : Int} : Everywhere q (.int n) ↔ q (.int n) := everywhere_scalar rfl
  cases l <;>
    rw [Layout.record] at hobject ⊢ <;>
    rw [everywhere_obj, and_iff_right hobject] <;>
    simp [Layout.lengths, Choice.record, hint, hq.everywhere_text, hq.everywhere_bool]

theorem everywhere_frame_iff {f : Frame} :
    (∀ m ∈ f.fields, Everywhere q m.2) ↔ (Requirement.stored q).frame f := by
  have hint {n : Int} : Everywhere q (.int n) ↔ q (.int n) := everywhere_scalar rfl
  cases f with
  | container c =>
      simp [Frame.fields, Frame.Within, Requirement.stored, hq.everywhere_layout_iff,
        hq.everywhere_spacing_iff, hint, hq.everywhere_ofText?]
  | card c =>
      simp [Frame.fields, Frame.Within, Requirement.stored, hint, hq.everywhere_bool,
        hq.everywhere_ofText?]

/-- The fields that every component has satisfy the statement if its animation does. -/
theorem everywhere_baseFields_iff {i : Id} {a : Option Animation} {k : Kind} :
    (∀ m ∈ Component.baseFields i a k, Everywhere q m.2) ↔
      ∀ x ∈ a, (Requirement.stored q).animation x := by
  cases a <;>
    simp [Component.baseFields, Choice.record, hq.everywhere_text, hq.everywhere_null,
      hq.everywhere_animation_iff]

end Json.Plain

theorem nodup_names_leaf (i : Id) (a : Option Animation) (l : Leaf) :
    (Keyed.names (Component.baseFields i a l.kind ++ l.fields)).Nodup := by
  cases l <;> simp [Keyed.names, Component.baseFields, Leaf.fields]

theorem nodup_names_branch (i : Id) (a : Option Animation) (f : Frame) (children : Json) :
    (Keyed.names (Component.baseFields i a f.kind ++ ("children", children) :: f.fields)).Nodup := by
  cases f <;> simp [Keyed.names, Component.baseFields, Frame.fields]

/-- A statement holds everywhere in a stored design exactly if it holds for the numbers and the
dictionaries in the parts of every component. -/
theorem everywhere_recordAll_iff (hq : Json.Plain q) {f : Forest Id} :
    Everywhere q (Component.recordAll f) ↔ (Requirement.stored q).Met f := by
  rw [Component.recordAll, everywhere_arr, and_iff_right (hq.list _)]
  induction f using Forest.induction with
  | nil => simp [Component.recordForest, Requirement.met_nil]
  | cons c cs ihc ihcs =>
      rw [Component.recordForest, List.forall_mem_cons, ihcs, Requirement.met_cons_iff, ← and_assoc]
      refine and_congr_left' ?_
      cases c with
      | leaf i a l =>
          have hobject := hq.object _ (nodup_names_leaf i a l)
          rw [Component.record, everywhere_obj, and_iff_right hobject, List.forall_mem_append,
            hq.everywhere_baseFields_iff, hq.everywhere_leaf_iff]
          exact (and_iff_left Requirement.met_nil).symm
      | branch i a f ds =>
          have hobject := hq.object _ (nodup_names_branch i a f (.arr (Component.recordForest ds)))
          rw [Component.record, everywhere_obj, and_iff_right hobject, List.forall_mem_append,
            hq.everywhere_baseFields_iff, List.forall_mem_cons, hq.everywhere_frame_iff, everywhere_arr,
            and_iff_right (hq.list _)]
          simp only [Component.children] at ihc
          rw [ihc, and_comm (b := (Requirement.stored q).frame f), ← and_assoc]
          rfl

end Stored

/-! ## Dictionaries that are read -/

section Dictionaries

open Schema

variable {q : Json → Prop}

/-- What a dictionary is stored as satisfies a statement if the object that it is read from does
and the statement holds for the entries. -/
theorem ensures_dict (hq : Json.Separates q) {α : Type} {read : Json → Check α}
    {record : α → Json} (h : Ensures q read fun a => Everywhere q (record a)) :
    Ensures q (dict read) fun es => Everywhere q (.obj (es.map fun (k, a) => (k, record a))) := by
  intro v hv es hes
  cases v with
  | obj ms =>
      have hentries := entries_eq_ok_iff.mp hes
      refine everywhere_obj.mpr ⟨hq.object _ ?_, List.forall_mem_map.mpr fun e he => ?_⟩
      · have hnames : Keyed.names (es.map fun (k, a) => (k, record a)) = Keyed.names es := by
          simp [Keyed.names]
        rw [hnames, ← Keyed.names_eq_of_forall₂ (hentries.imp fun _ _ hentry => hentry.1)]
        exact hq.distinct _ hv.here
      · obtain ⟨m, hm, -, hread⟩ := exists_of_mem_forall₂ hentries he
        exact h (hv.member hm) hread
  | _ => exact absurd hes Check.fault_ne_ok

theorem ensures_bindings (hq : Json.Separates q) :
    Ensures q Draft.readBindings fun bs => Everywhere q bs.record :=
  ensures_dict hq fun _ _ s _ => hq.everywhere_text s

/-- The dictionary of a leaf satisfies a statement if the object that the leaf is read from does. -/
theorem Leaf.ReadFrom.dictionary (hq : Json.Separates q)
    (hprop : Ensures q Draft.readProp fun p => Everywhere q p.record) {ms : Json.Members}
    {l : Leaf} (h : l.ReadFrom ms) (hms : Everywhere q (.obj ms)) : Everywhere q l.dictionary := by
  have hempty : Everywhere q (Bindings.record []) :=
    everywhere_obj.mpr ⟨hq.object _ List.nodup_nil, by simp⟩
  have hbindings := ensures_bindings hq
  cases l with
  | button b =>
      simp only [ReadFrom, Draft.readButton, Check.seq_eq_ok_iff, Check.fmap_eq_ok_iff] at h
      obtain ⟨_, ⟨_, ⟨_, ⟨_, ⟨_, ⟨label, -, rfl⟩, variant, -, rfl⟩, size, -, rfl⟩, disabled, -,
        rfl⟩, onClick, -, rfl⟩, bindings, hread, rfl⟩ := h
      exact hbindings.field hempty hms hread
  | text t =>
      simp only [ReadFrom, Draft.readTextBlock, Check.seq_eq_ok_iff, Check.fmap_eq_ok_iff] at h
      obtain ⟨_, ⟨_, ⟨_, ⟨content, -, rfl⟩, style, -, rfl⟩, tag, -, rfl⟩, bindings, hread,
        rfl⟩ := h
      exact hbindings.field hempty hms hread
  | input i =>
      simp only [ReadFrom, Draft.readInputField, Check.seq_eq_ok_iff, Check.fmap_eq_ok_iff] at h
      obtain ⟨_, ⟨_, ⟨_, ⟨_, ⟨_, ⟨_, ⟨placeholder, -, rfl⟩, inputType, -, rfl⟩, required, -, rfl⟩,
        disabled, -, rfl⟩, onChange, -, rfl⟩, onInput, -, rfl⟩, bindings, hread, rfl⟩ := h
      exact hbindings.field hempty hms hread
  | custom c =>
      simp only [ReadFrom, Draft.readCustom, Check.seq_eq_ok_iff, Check.fmap_eq_ok_iff] at h
      obtain ⟨_, ⟨_, ⟨name, -, rfl⟩, template, -, rfl⟩, props, hprops, rfl⟩ := h
      exact (ensures_dict hq hprop).field (d := []) hempty hms hprops
  | select s | image i => exact hq.everywhere_null

end Dictionaries

/-! ## Designs with the same stored form -/

theorem Choice.record_injective {α : Type} [Choice α] [LawfulChoice α] :
    Function.Injective (Choice.record : α → Json) := by
  intro a b h
  exact Choice.name_injective (Json.str.inj h)

theorem Json.ofText?_injective : Function.Injective Json.ofText? := by
  intro o o' h
  cases o <;> cases o' <;> simp_all [Json.ofText?]

theorem Bindings.record_injective : Function.Injective Bindings.record := by
  intro bs bs' h
  have hpair : Function.Injective fun e : String × String => (e.1, Json.str e.2) := by
    rintro ⟨k, v⟩ ⟨k', v'⟩ h
    simpa using h
  exact List.map_injective_iff.mpr hpair (Json.obj.inj h)

theorem PropValue.record_injective : Function.Injective PropValue.record := by
  intro p p' h
  cases p <;> cases p' <;> simp_all [PropValue.record]

theorem Animation.record_injective : Function.Injective Animation.record := by
  rintro ⟨⟩ ⟨⟩ h
  simpa [Animation.record, Choice.record_injective.eq_iff] using h

theorem Spacing.record_injective : Function.Injective Spacing.record := by
  rintro ⟨⟩ ⟨⟩ h
  simpa [Spacing.record] using h

theorem Layout.record_injective : Function.Injective Layout.record := by
  intro l l' h
  cases l <;> cases l' <;> simp_all [Layout.record, Choice.record_injective.eq_iff]

theorem Leaf.kind_ne (l : Leaf) (f : Frame) : l.kind ≠ f.kind := by
  cases l <;> cases f <;> simp [Leaf.kind, Frame.kind]

/-- Leaves of one kind are told apart by their fields. -/
theorem Leaf.eq_of_fields {l l' : Leaf} (hkind : l.kind = l'.kind) (h : l.fields = l'.fields) :
    l = l' := by
  cases l with
  | button b =>
      cases l' with
      | button b' =>
          cases b
          cases b'
          simpa [Leaf.fields, Choice.record_injective.eq_iff, Json.ofText?_injective.eq_iff,
            Bindings.record_injective.eq_iff] using h
      | _ => cases hkind
  | text t =>
      cases l' with
      | text t' =>
          cases t
          cases t'
          simpa [Leaf.fields, Choice.record_injective.eq_iff,
            Bindings.record_injective.eq_iff] using h
      | _ => cases hkind
  | input i =>
      cases l' with
      | input i' =>
          cases i
          cases i'
          simpa [Leaf.fields, Choice.record_injective.eq_iff, Json.ofText?_injective.eq_iff,
            Bindings.record_injective.eq_iff] using h
      | _ => cases hkind
  | select s =>
      cases l' with
      | select s' =>
          cases s
          cases s'
          simpa [Leaf.fields, Json.ofText?_injective.eq_iff] using h
      | _ => cases hkind
  | image i =>
      cases l' with
      | image i' =>
          cases i
          cases i'
          simpa [Leaf.fields, Json.ofText?_injective.eq_iff] using h
      | _ => cases hkind
  | custom c =>
      cases l' with
      | custom c' =>
          have hpair : Function.Injective fun e : String × PropValue => (e.1, e.2.record) := by
            rintro ⟨k, p⟩ ⟨k', p'⟩ h
            simpa [PropValue.record_injective.eq_iff] using h
          cases c
          cases c'
          simpa [Leaf.fields, Json.ofText?_injective.eq_iff,
            (List.map_injective_iff.mpr hpair).eq_iff] using h
      | _ => cases hkind

/-- Branches of one kind are told apart by their fields. -/
theorem Frame.eq_of_fields {f f' : Frame} (hkind : f.kind = f'.kind) (h : f.fields = f'.fields) :
    f = f' := by
  cases f with
  | container c =>
      cases f' with
      | container c' =>
          cases c
          cases c'
          simpa [Frame.fields, Layout.record_injective.eq_iff, Spacing.record_injective.eq_iff,
            Json.ofText?_injective.eq_iff] using h
      | card c' => cases hkind
  | card c =>
      cases f' with
      | container c' => cases hkind
      | card c' =>
          cases c
          cases c'
          simpa [Frame.fields, Json.ofText?_injective.eq_iff] using h

theorem Component.baseFields_append_inj {i i' : Id} {a a' : Option Animation} {k k' : Kind}
    {ms ms' : Json.Members} (h : baseFields i a k ++ ms = baseFields i' a' k' ++ ms') :
    i = i' ∧ a = a' ∧ k = k' ∧ ms = ms' := by
  simp only [baseFields, List.cons_append, List.nil_append, List.cons.injEq, Prod.mk.injEq,
    true_and, Json.str.injEq, Choice.record_injective.eq_iff] at h
  obtain ⟨hi, ha, hk, hms⟩ := h
  refine ⟨hi, ?_, hk, hms⟩
  cases a with
  | none =>
      cases a' with
      | none => rfl
      | some x' => cases ha
  | some x =>
      cases a' with
      | none => cases ha
      | some x' => exact congrArg some (Animation.record_injective ha)

/-- A design is told apart from all others by what it is stored as. -/
theorem Component.recordAll_injective : Function.Injective Component.recordAll := by
  intro f g h
  have h : recordForest f = recordForest g := Json.arr.inj h
  clear * - h
  induction f using Forest.induction generalizing g with
  | nil =>
      cases g with
      | nil => rfl
      | cons d ds => cases h
  | cons c cs ihc ihcs =>
      cases g with
      | nil => cases h
      | cons d ds =>
          obtain ⟨hc, hcs⟩ := List.cons.inj h
          obtain rfl : cs = ds := ihcs hcs
          refine congrArg (· :: cs) ?_
          cases c with
          | leaf i a l =>
              cases d with
              | leaf i' a' l' =>
                  rw [record, record, Json.obj.injEq] at hc
                  obtain ⟨rfl, rfl, hkind, hfields⟩ := baseFields_append_inj hc
                  rw [Leaf.eq_of_fields hkind hfields]
              | branch i' a' f' ds' =>
                  -- the kind is stored too, and tells a leaf from a branch
                  rw [record, record, Json.obj.injEq] at hc
                  obtain ⟨-, -, hkind, -⟩ := baseFields_append_inj hc
                  exact absurd hkind (Leaf.kind_ne l f')
          | branch i a f ds =>
              cases d with
              | leaf i' a' l' =>
                  rw [record, record, Json.obj.injEq] at hc
                  obtain ⟨-, -, hkind, -⟩ := baseFields_append_inj hc
                  exact absurd hkind.symm (Leaf.kind_ne l' f)
              | branch i' a' f' ds' =>
                  rw [record, record, Json.obj.injEq] at hc
                  obtain ⟨rfl, rfl, hkind, hrest⟩ := baseFields_append_inj hc
                  obtain ⟨hds, hfields⟩ := List.cons.inj hrest
                  simp only [Prod.mk.injEq, true_and, Json.arr.injEq] at hds
                  obtain rfl : ds = ds' := ihc hds
                  rw [Frame.eq_of_fields hkind hfields]

end PageDesign
