/-
# PageDesign.Proofs.Component.Fields -- the fields of components are read back

The readers of components take every field in several forms and some within bounds.  What is
read keeps the bounds (`InRange`), and what keeps them is stored in a form that is read without
a change: the parts of a component first, then the content of a leaf and the frame of a branch.
`ReadFrom` says of these that they are what their reader makes of the fields of an object.
-/
import PageDesign.Component.Load
import PageDesign.Proofs.Schema.Scalar

namespace PageDesign

open Schema

/-! ## Bounds -/

/-- Times do not lie in the past. -/
structure Animation.InRange (a : Animation) : Prop where
  duration : a.duration.isNonneg = true
  delay : a.delay.isNonneg = true

/-- The lengths of a spacing. -/
def Spacing.lengths (s : Spacing) : List Int := [s.top, s.right, s.bottom, s.left]

/-- The columns and rows of a layout. -/
def Layout.lengths : Layout → List Int
  | grid columns rows => [columns, rows]
  | _ => []

/-- Columns and rows satisfy the first statement, and all lengths the second. -/
def Frame.Within (P Q : Int → Prop) : Frame → Prop
  | container c => (∀ n ∈ c.layout.lengths, P n) ∧ Q c.gap ∧ ∀ n ∈ c.padding.lengths, Q n
  | card c => Q c.padding ∧ Q c.borderRadius

/-- A grid has a column and a row, and lengths are not negative. -/
def Frame.InRange : Frame → Prop := Frame.Within (fun n => 1 ≤ n) fun n => 0 ≤ n

namespace Draft

/-! ## Parts -/

theorem readAnimation_record {a : Animation} (h : a.InRange) : readAnimation a.record = .ok a := by
  simp [readAnimation, part, Animation.record, field, choice_record, numberFromZero_record,
    h.duration, h.delay, Schema.bool, List.lookup_cons]

theorem readSpacing_record {s : Spacing} (h : ∀ n ∈ s.lengths, 0 ≤ n) :
    readSpacing s.record = .ok s := by
  simp only [Spacing.lengths, List.forall_mem_cons] at h
  obtain ⟨htop, hright, hbottom, hleft, -⟩ := h
  simp [readSpacing, part, Spacing.record, field, intFrom_record, htop, hright, hbottom, hleft,
    List.lookup_cons]

theorem readLayout_record {l : Layout} (h : ∀ n ∈ l.lengths, 1 ≤ n) :
    readLayout l.record = .ok l := by
  cases l with
  | flex direction wrap align justify =>
      simp [readLayout, Layout.record, tagged, readLayoutOf?, field, choice_record, Schema.bool,
        List.lookup_cons]
  | grid columns rows =>
      simp only [Layout.lengths, List.forall_mem_cons] at h
      obtain ⟨hcolumns, hrows, -⟩ := h
      simp [readLayout, Layout.record, tagged, readLayoutOf?, field, intFrom_record, hcolumns,
        hrows, List.lookup_cons]
  | stack => rfl

theorem readProp_record (p : PropValue) : readProp p.record = .ok p := by
  cases p <;> rfl

theorem readBindings_record (bs : Bindings) : readBindings bs.record = .ok bs :=
  dict_record fun _ _ => rfl

end Draft

/-! ## Leaves and branches -/

/-- A leaf is what its reader makes of the fields of an object. -/
def Leaf.ReadFrom (ms : Json.Members) : Leaf → Prop
  | button b => Draft.readButton ms = .ok b
  | text t => Draft.readTextBlock ms = .ok t
  | input i => Draft.readInputField ms = .ok i
  | select s => Draft.readSelectField ms = .ok s
  | image i => Draft.readImage ms = .ok i
  | custom c => Draft.readCustom ms = .ok c

/-- A branch is, apart from its children, what its reader makes of the fields of an object. -/
def Frame.ReadFrom (ms : Json.Members) : Frame → Prop
  | container c => Draft.readContainer ms = .ok c
  | card c => Draft.readCard ms = .ok c

open Draft

/-- The fields that every component has are not those of its kind. -/
theorem lookup_baseFields (i : Id) (a : Option Animation) (k : Kind) (ms : Json.Members)
    {name : String} (hname : name ∉ ["id", "animation", "kind"]) :
    (Component.baseFields i a k ++ ms).lookup name = ms.lookup name := by
  simp only [List.mem_cons, List.not_mem_nil, or_false, not_or] at hname
  obtain ⟨hid, hanimation, hkind⟩ := hname
  simp [Component.baseFields, List.lookup_cons, beq_false_of_ne hid, beq_false_of_ne hanimation,
    beq_false_of_ne hkind]

theorem lookup_children (i : Id) (a : Option Animation) (k : Kind) (children : Json)
    (ms : Json.Members) :
    (Component.baseFields i a k ++ ("children", children) :: ms).lookup "children" =
      some children := by
  rw [lookup_baseFields i a k _ (by decide), List.lookup_cons_self]

theorem Leaf.readFrom_record (i : Id) (a : Option Animation) (l : Leaf) :
    l.ReadFrom (Component.baseFields i a l.kind ++ l.fields) := by
  cases l with
  | button b =>
      simp [ReadFrom, readButton, fields, field, lookup_baseFields, List.lookup_cons, Schema.text,
        Schema.bool, choice_record, optional_text_record, readBindings_record]
  | text t =>
      simp [ReadFrom, readTextBlock, fields, field, lookup_baseFields, List.lookup_cons,
        Schema.text, choice_record, readBindings_record]
  | input i =>
      simp [ReadFrom, readInputField, fields, field, lookup_baseFields, List.lookup_cons,
        Schema.text, Schema.bool, choice_record, optional_text_record, readBindings_record]
  | select s =>
      simp [ReadFrom, readSelectField, fields, field, lookup_baseFields, List.lookup_cons,
        Schema.text, Schema.bool, optional_text_record]
  | image i =>
      simp [ReadFrom, readImage, fields, field, lookup_baseFields, List.lookup_cons, Schema.text,
        optional_text_record]
  | custom c =>
      have hprops := dict_record fun e (_ : e ∈ c.props) => readProp_record e.2
      simp [ReadFrom, readCustom, fields, field, lookup_baseFields, List.lookup_cons, Schema.text,
        optional_text_record, hprops]

theorem Frame.readFrom_record (i : Id) (a : Option Animation) (children : Json) {f : Frame}
    (h : f.InRange) :
    f.ReadFrom (Component.baseFields i a f.kind ++ ("children", children) :: f.fields) := by
  cases f with
  | container c =>
      obtain ⟨hlayout, hgap, hpadding⟩ := h
      simp [ReadFrom, readContainer, fields, field, lookup_baseFields, List.lookup_cons,
        readLayout_record hlayout, intFrom_record, hgap, readSpacing_record hpadding,
        optional_text_record]
  | card c =>
      obtain ⟨hpadding, hradius⟩ := h
      simp [ReadFrom, readCard, fields, field, lookup_baseFields, List.lookup_cons, Schema.bool,
        intFrom_record, hpadding, hradius, optional_text_record]

/-! ## Reading keeps the bounds -/

theorem Binary64.isNonneg_ofRatio (num den : Nat) : (ofRatio false num den).isNonneg = true := by
  rw [ofRatio, ofCode]
  split <;> rfl

theorem Binary64.isNonneg_ofDecimal (mantissa : Nat) (exponent : Int) :
    (ofDecimal false mantissa exponent).isNonneg = true := by
  simp only [ofDecimal]
  split
  next => rfl
  next =>
    split
    next => rfl
    next => split <;> exact isNonneg_ofRatio _ _

variable {q : Json → Prop}

theorem ensures_readAnimation : Ensures q readAnimation Animation.InRange := by
  intro v hv a ha
  cases v with
  | obj ms =>
      simp only [readAnimation, part, Check.seq_eq_ok_iff, Check.fmap_eq_ok_iff] at ha
      obtain ⟨_, ⟨_, ⟨_, ⟨movement, -, rfl⟩, duration, hduration, rfl⟩, delay, hdelay, rfl⟩,
        infinite, -, rfl⟩ := ha
      exact ⟨ensures_numberFromZero.field (Binary64.isNonneg_ofDecimal 3 (-1)) hv hduration,
        ensures_numberFromZero.field rfl hv hdelay⟩
  | _ => exact absurd ha Check.fault_ne_ok

theorem ensures_readSpacing {Q : Int → Prop} (hint : Ensures q (intFrom 0) Q) (hzero : Q 0) :
    Ensures q readSpacing fun s => ∀ n ∈ s.lengths, Q n := by
  intro v hv s hs
  cases v with
  | obj ms =>
      simp only [readSpacing, part, Check.seq_eq_ok_iff, Check.fmap_eq_ok_iff] at hs
      obtain ⟨_, ⟨_, ⟨_, ⟨top, htop, rfl⟩, right, hright, rfl⟩, bottom, hbottom, rfl⟩, left, hleft,
        rfl⟩ := hs
      simp only [Spacing.lengths, List.forall_mem_cons]
      exact ⟨hint.field hzero hv htop, hint.field hzero hv hright, hint.field hzero hv hbottom,
        hint.field hzero hv hleft, by simp⟩
  | _ => exact absurd hs Check.fault_ne_ok

theorem tagged_eq_ok_iff {α : Type} {key : String} {tags : List String} {ms : Json.Members}
    {read? : String → Option (Check α)} {a : α} :
    tagged key tags ms read? = .ok a ↔
      ∃ tag, ms.lookup key = some (.str tag) ∧ read? tag = some (.ok a) := by
  rw [tagged]
  split
  next hnone => simp [hnone]
  next tag hsome => cases hread : read? tag <;> simp [hsome, hread, Check.within_eq_ok_iff]
  next v hne hsome =>
    refine iff_of_false Check.fault_ne_ok ?_
    rintro ⟨tag, htag, -⟩
    exact hne tag (Option.some.inj (hsome.symm.trans htag))

theorem ensures_readLayout {P : Int → Prop} (hint : Ensures q (intFrom 1) P) (htwo : P 2) :
    Ensures q readLayout fun l => ∀ n ∈ l.lengths, P n := by
  intro v hv l hl
  cases v with
  | obj ms =>
      obtain ⟨tag, -, hread⟩ := tagged_eq_ok_iff.mp hl
      unfold readLayoutOf? at hread
      split at hread
      next =>
        simp only [Option.some.injEq, Check.seq_eq_ok_iff, Check.fmap_eq_ok_iff] at hread
        obtain ⟨_, ⟨_, ⟨_, ⟨direction, -, rfl⟩, wrap, -, rfl⟩, align, -, rfl⟩, justify, -, rfl⟩ :=
          hread
        simp [Layout.lengths]
      next =>
        simp only [Option.some.injEq, Check.seq_eq_ok_iff, Check.fmap_eq_ok_iff] at hread
        obtain ⟨_, ⟨columns, hcolumns, rfl⟩, rows, hrows, rfl⟩ := hread
        simp only [Layout.lengths, List.forall_mem_cons]
        exact ⟨hint.field htwo hv hcolumns, hint.field htwo hv hrows, by simp⟩
      next =>
        cases hread
        simp [Layout.lengths]
      next => cases hread
  | _ => exact absurd hl Check.fault_ne_ok

/-- What the reader of integers ensures holds of all lengths in a branch, if it holds of those
that stand in for absent ones. -/
theorem Frame.ReadFrom.within {P Q : Int → Prop} (hone : Ensures q (intFrom 1) P)
    (hzero : Ensures q (intFrom 0) Q) (htwo : P 2) (hdefault : ∀ n ∈ [0, 8, 16], Q n)
    {ms : Json.Members} {f : Frame} (h : f.ReadFrom ms) (hms : Json.Everywhere q (.obj ms)) :
    f.Within P Q := by
  simp only [List.forall_mem_cons] at hdefault
  obtain ⟨hnone, hgap, hpadding, -⟩ := hdefault
  cases f with
  | container c =>
      simp only [ReadFrom, readContainer, Check.seq_eq_ok_iff, Check.fmap_eq_ok_iff] at h
      obtain ⟨_, ⟨_, ⟨_, ⟨layout, hlayout, rfl⟩, gap, hgap', rfl⟩, padding, hpadding', rfl⟩,
        onClick, -, rfl⟩ := h
      have hspacing : ∀ n ∈ ({} : Spacing).lengths, Q n := by
        simp only [Spacing.lengths, List.forall_mem_cons]
        exact ⟨hnone, hnone, hnone, hnone, by simp⟩
      have hflex : ∀ n ∈ Layout.default.lengths, P n := by simp [Layout.default, Layout.lengths]
      exact ⟨(ensures_readLayout hone htwo).field hflex hms hlayout, hzero.field hgap hms hgap',
        (ensures_readSpacing hzero hnone).field hspacing hms hpadding'⟩
  | card c =>
      simp only [ReadFrom, readCard, Check.seq_eq_ok_iff, Check.fmap_eq_ok_iff] at h
      obtain ⟨_, ⟨_, ⟨_, ⟨_, ⟨padding, hpadding', rfl⟩, shadow, -, rfl⟩, border, -, rfl⟩, radius,
        hradius, rfl⟩, onClick, -, rfl⟩ := h
      exact ⟨hzero.field hpadding hms hpadding', hzero.field hgap hms hradius⟩

theorem Frame.ReadFrom.inRange {ms : Json.Members} {f : Frame} (h : f.ReadFrom ms) : f.InRange :=
  h.within (ensures_intFrom 1) (ensures_intFrom 0) (by decide) (by decide)
    (.of_forall (fun _ => trivial) _)

end PageDesign
