/-
# PageDesign.Proofs.Export.Conform -- stored designs conform to the exported schema

The schema that is exported for designs declares every field: its type, the least value of a
number, the names of a choice.  `Accepts` says what the keywords of such a schema mean, so that the
declarations can be held against what a design is stored as.

A definition declares fields in the order in which they are stored, and a stored object is accepted
if each of its fields is accepted by the declaration in the same place (`accepts_object`).  The rest
goes down the tree: a design within the bounds is accepted at every depth, whatever design the
schema has as its example (`accepts_schema`).
-/
import PageDesign.Export.JsonSchema
import PageDesign.Proofs.Component.Stored

namespace PageDesign

/-- A number is at least zero if it is one and does not lie below zero. -/
theorem Binary64.isNonneg_iff {x : Binary64} :
    x.isNonneg = true ↔ x ≠ .nan ∧ x.isBelow .zero = false := by
  cases x with
  | nan => simp [isNonneg]
  | infinite negative => cases negative <;> simp [isNonneg, isBelow, rank?, zero]
  | finite negative c => cases negative <;> simp [isNonneg, isBelow, rank?, zero]

namespace JsonSchema

/-! ## What a schema accepts -/

/-- The values of a basic type. -/
def HasType : String → Json → Prop
  | "null", .null => True
  | "boolean", .bool _ => True
  | "integer", .int _ => True
  | "number", .int _ => True
  | "number", .float _ => True
  | "string", .str _ => True
  | "array", .arr _ => True
  | "object", .obj _ => True
  | _, _ => False

/-- A number does not lie below another one of its type.  What is not a number is not above
anything. -/
def AtLeast : Json → Json → Prop
  | .int least, .int n => least ≤ n
  | .float least, .float x => x ≠ .nan ∧ x.isBelow least = false
  | _, _ => False

/-- The keywords that say nothing about values. -/
def remarks : List String :=
  ["$schema", "title", "description", "default", "examples", "discriminator", "$defs"]

/-- The names that a schema declares. -/
def declared (ms : Json.Members) : List String :=
  match ms.lookup "properties" with
  | some (.obj ps) => Keyed.names ps
  | _ => []

mutual

/-- A schema accepts a value if all of its keywords do.  The schema that is true accepts every
value, and the one that is false none. -/
inductive Accepts : Json → Json → Prop
  | always (v : Json) : Accepts (.bool true) v
  | keywords {ms : Json.Members} {v : Json} (h : ∀ m ∈ ms, Keyword ms m.1 m.2 v) :
    Accepts (.obj ms) v

/-- A keyword of a schema, with what it is set to, accepts a value.  The discriminator of a schema
names the alternative that a value has to be accepted by. -/
inductive Keyword : Json.Members → String → Json → Json → Prop
  | remark {ms : Json.Members} {k : String} {s v : Json} (h : k ∈ remarks) :
    Keyword ms k s v
  | ref {ms : Json.Members} {name : String} {s v : Json} (hs : definitions.get? name = some s)
    (h : Accepts s v) : Keyword ms "$ref" (place name) v
  | type {ms : Json.Members} {t : String} {v : Json} (h : HasType t v) :
    Keyword ms "type" (.str t) v
  | const {ms : Json.Members} (v : Json) : Keyword ms "const" v v
  | enum {ms : Json.Members} {vs : List Json} {v : Json} (h : v ∈ vs) :
    Keyword ms "enum" (.arr vs) v
  | minimum {ms : Json.Members} {least v : Json} (h : AtLeast least v) :
    Keyword ms "minimum" least v
  | anyOf {ms : Json.Members} {ss : List Json} {s v : Json} (hs : s ∈ ss) (h : Accepts s v) :
    Keyword ms "anyOf" (.arr ss) v
  | oneOf {ms : Json.Members} {ss : List Json} {tag name type : String} {mapping v : Json}
    (hdiscriminator : ms.lookup "discriminator" =
      some (.obj [("mapping", mapping), ("propertyName", .str tag)]))
    (htag : v.get? tag = some (.str name)) (hplace : mapping.get? name = some (place type))
    (hs : reference type ∈ ss) (h : Accepts (reference type) v) : Keyword ms "oneOf" (.arr ss) v
  | items {ms : Json.Members} {s : Json} {vs : List Json} (h : ∀ v ∈ vs, Accepts s v) :
    Keyword ms "items" s (.arr vs)
  | properties {ms ps fields : Json.Members}
    (h : ∀ m ∈ fields, ∀ s, ps.lookup m.1 = some s → Accepts s m.2) :
    Keyword ms "properties" (.obj ps) (.obj fields)
  | additional {ms fields : Json.Members} {s : Json}
    (h : ∀ m ∈ fields, m.1 ∉ declared ms → Accepts s m.2) :
    Keyword ms "additionalProperties" s (.obj fields)

end

/-! ## Keywords in order -/

/-- The keywords of a schema as they stand in it. -/
def sorted (ms : Json.Members) : Json.Members := ms.mergeSort fun a b => decide (a.1 ≤ b.1)

/-- A key that is there once is found wherever it stands. -/
theorem lookup_eq_some_of_mem {ms : Json.Members} (hms : (Keyed.names ms).Nodup) {k : String}
    {v : Json} (h : (k, v) ∈ ms) : ms.lookup k = some v := by
  obtain ⟨l, r, rfl⟩ := List.append_of_mem h
  refine List.lookup_eq_some_iff.mpr ⟨l, r, rfl, fun m hm => ?_⟩
  simp only [Keyed.names, List.map_append, List.map_cons] at hms
  have hne := (List.nodup_append.mp hms).2.2 m.1 (List.mem_map_of_mem hm) k List.mem_cons_self
  simpa using hne.symm

theorem lookup_sorted {ms : Json.Members} (hms : (Keyed.names ms).Nodup) {k : String} {v : Json}
    (h : ms.lookup k = some v) : (sorted ms).lookup k = some v := by
  have hperm : (sorted ms).Perm ms := List.mergeSort_perm ms _
  obtain ⟨l, r, rfl, -⟩ := List.lookup_eq_some_iff.mp h
  refine lookup_eq_some_of_mem ((hperm.map Prod.fst).nodup_iff.mpr hms) ?_
  exact hperm.mem_iff.mpr (by simp)

theorem accepts_ordered {ms : Json.Members} {v : Json}
    (h : ∀ m ∈ ms, Keyword (sorted ms) m.1 m.2 v) : Accepts (ordered ms) v :=
  .keywords fun m hm => h m ((List.mergeSort_perm ms _).mem_iff.mp hm)

theorem definitions_get? {name : String} {s : Json}
    (h : ([animation, spacing] ++ layoutTypes ++ choiceTypes ++
      (Choice.all : List Kind).map kindType).lookup name = some s) :
    definitions.get? name = some s :=
  lookup_sorted (by decide +kernel) h

/-! ## Declarations of fields -/

section Declarations

variable {ms : Json.Members} {field : String} {v : Json}

/-- Keywords that only explain what is declared. -/
def Explains (ms : Json.Members) : Prop := ∀ m ∈ ms, m.1 ∈ remarks

theorem Explains.keyword (h : Explains ms) (ms' : Json.Members) :
    ∀ m ∈ ms, Keyword ms' m.1 m.2 v :=
  fun m hm => .remark (h m hm)

theorem explains_nil : Explains [] := by simp [Explains]

theorem explains_description (s : String) : Explains (description s) := by
  simp [Explains, description, remarks]

theorem accepts_basic {type : String} (h : HasType type v) : Accepts (basic type) v := by
  refine .keywords fun m hm => ?_
  rw [List.mem_singleton.mp hm]
  exact .type h

theorem accepts_reference {name : String} {s : Json} (hs : definitions.get? name = some s)
    (h : Accepts s v) : Accepts (reference name) v := by
  refine .keywords fun m hm => ?_
  rw [List.mem_singleton.mp hm]
  exact .ref hs h

theorem accepts_titled
    (h : ∀ m ∈ ms, Keyword (sorted (("title", .str (title field)) :: ms)) m.1 m.2 v) :
    Accepts (titled field ms).2 v :=
  accepts_ordered (List.forall_mem_cons.mpr ⟨.remark (by simp [remarks]), h⟩)

theorem accepts_plain {type : String} {default : Json} (h : HasType type v)
    (hms : ∀ ms', ∀ m ∈ ms, Keyword ms' m.1 m.2 v) : Accepts (plain field type default ms).2 v := by
  refine accepts_titled (List.forall_mem_append.mpr ⟨?_, hms _⟩)
  simp only [List.forall_mem_cons]
  exact ⟨.remark (by simp [remarks]), .type h, by simp⟩

theorem accepts_text (default s : String) (h : Explains ms) :
    Accepts (text field default ms).2 (.str s) :=
  accepts_plain trivial h.keyword

theorem accepts_flag (default b : Bool) : Accepts (flag field default).2 (.bool b) :=
  accepts_plain trivial (by simp)

theorem accepts_integer {least n : Int} (default : Int) (h : least ≤ n) :
    Accepts (integer field least default).2 (.int n) := by
  refine accepts_plain trivial fun ms' => ?_
  simp only [List.forall_mem_cons]
  exact ⟨.minimum h, by simp⟩

theorem accepts_seconds {x : Binary64} (default : Binary64) (h : x.isNonneg = true) :
    Accepts (seconds field default).2 (.float x) := by
  refine accepts_plain trivial fun ms' => ?_
  simp only [List.forall_mem_cons]
  exact ⟨.remark (by simp [remarks]), .minimum (Binary64.isNonneg_iff.mp h), by simp⟩

theorem accepts_constant (value : String) : Accepts (constant field value).2 (.str value) := by
  refine accepts_plain trivial fun ms' => ?_
  simp only [List.forall_mem_cons]
  exact ⟨.const _, by simp⟩

theorem accepts_choice {α : Type} [Choice α] [LawfulChoice α] {type : String} (default a : α)
    (htype : definitions.get? type = some (choiceType type α).2) :
    Accepts (choice field type default).2 (Choice.record a) := by
  have ha : a ∈ (Choice.all : List α) := List.mem_of_find?_eq_some (ofName_name a)
  refine accepts_ordered ?_
  simp only [List.forall_mem_cons]
  refine ⟨.ref htype (.keywords ?_), .remark (by simp [remarks]), by simp⟩
  simp only [List.forall_mem_cons]
  exact ⟨.enum (List.mem_map_of_mem ha), .remark (by simp [remarks]), .type trivial,
    by simp⟩

theorem keyword_nullable {s : Json} {ms' : Json.Members} (h : v ≠ .null → Accepts s v) :
    ∀ m ∈ nullable s, Keyword ms' m.1 m.2 v := by
  simp only [nullable, List.forall_mem_cons]
  refine ⟨?_, .remark (by simp [remarks]), by simp⟩
  by_cases hv : v = .null
  · subst hv
    exact .anyOf (s := basic "null") (by simp) (accepts_basic trivial)
  · exact .anyOf (s := s) (by simp) (h hv)

theorem accepts_optionalText (o : Option String) (h : Explains ms) :
    Accepts (optionalText field ms).2 (Json.ofText? o) := by
  refine accepts_titled (List.forall_mem_append.mpr ⟨keyword_nullable fun hne => ?_, h.keyword _⟩)
  cases o with
  | none => exact absurd rfl hne
  | some s => exact accepts_basic trivial

theorem accepts_table {α : Type} {values : Json} (record : α → Json) {es : List (String × α)}
    (hes : ∀ e ∈ es, Accepts values (record e.2)) (h : Explains ms) :
    Accepts (table field values ms).2 (.obj (es.map fun (k, a) => (k, record a))) := by
  refine accepts_titled (List.forall_mem_append.mpr ⟨?_, h.keyword _⟩)
  simp only [List.forall_mem_cons]
  refine ⟨.additional ?_, .type trivial, by simp⟩
  simp only [List.forall_mem_map]
  exact fun e he _ => hes e he

theorem accepts_bindings (bs : Bindings) (h : Explains ms) :
    Accepts (bindings ms).2 bs.record :=
  accepts_table Json.str (fun _ _ => accepts_basic trivial) h

end Declarations

/-! ## Objects -/

/-- Fields are stored under the names, and with values of the types, that are declared in the same
places. -/
def Declares (ps fields : Json.Members) : Prop :=
  List.Forall₂ (fun p m => p.1 = m.1 ∧ Accepts p.2 m.2) ps fields

theorem Declares.names {ps fields : Json.Members} (h : Declares ps fields) :
    Keyed.names ps = Keyed.names fields := by
  induction h with
  | nil => rfl
  | cons hm _ ih => exact congrArg₂ List.cons hm.1 ih

theorem Declares.lookup {ps fields : Json.Members} (h : Declares ps fields)
    (hps : (Keyed.names ps).Nodup) {m : String × Json} (hm : m ∈ fields) {s : Json}
    (hs : ps.lookup m.1 = some s) : Accepts s m.2 := by
  obtain ⟨p, hp, hname, haccepts⟩ := exists_of_mem_forall₂ h hm
  obtain ⟨name, s'⟩ := p
  obtain rfl : name = m.1 := hname
  rw [lookup_eq_some_of_mem hps hp] at hs
  exact Option.some.inj hs ▸ haccepts

/-- A definition of objects accepts an object whose fields are those that it declares. -/
theorem accepts_object {name : String} {ps fields ms : Json.Members}
    (hfields : Declares ps fields) (hps : (Keyed.names ps).Nodup)
    (hms : Explains ms ∨ ms = [("additionalProperties", .bool false)]) :
    Accepts (object name ps ms).2 (.obj fields) := by
  refine accepts_ordered (List.forall_mem_append.mpr ⟨?_, ?_⟩)
  · simp only [List.forall_mem_cons]
    exact ⟨.properties fun m hm s hs => hfields.lookup hps hm hs,
      .remark (by simp [remarks]), .type trivial, by simp⟩
  · obtain hms | rfl := hms
    · exact hms.keyword _
    · simp only [List.forall_mem_cons]
      refine ⟨.additional fun m hm hnot => absurd ?_ hnot, by simp⟩
      have hlookup : (sorted ([("properties", .obj ps), ("title", .str name),
          ("type", .str "object")] ++ [("additionalProperties", .bool false)])).lookup
          "properties" = some (.obj ps) :=
        lookup_sorted (by simp [Keyed.names]) rfl
      rw [declared, hlookup]
      show m.1 ∈ Keyed.names ps
      rw [hfields.names]
      exact List.mem_map_of_mem hm

/-! ## Parts of components -/

theorem accepts_animation {a : Animation} (h : a.InRange) : Accepts animation.2 a.record := by
  refine accepts_object ?_ (by decide) (.inl (explains_description _))
  exact .cons ⟨rfl, accepts_choice _ _ (definitions_get? rfl)⟩ <|
    .cons ⟨rfl, accepts_seconds _ h.duration⟩ <| .cons ⟨rfl, accepts_seconds _ h.delay⟩ <|
    .cons ⟨rfl, accepts_flag _ _⟩ .nil

theorem accepts_spacing {s : Spacing} (h : ∀ n ∈ s.lengths, 0 ≤ n) :
    Accepts spacing.2 s.record := by
  simp only [Spacing.lengths, List.forall_mem_cons] at h
  obtain ⟨htop, hright, hbottom, hleft, -⟩ := h
  refine accepts_object ?_ (by decide) (.inl (explains_description _))
  exact .cons ⟨rfl, accepts_integer _ htop⟩ <| .cons ⟨rfl, accepts_integer _ hright⟩ <|
    .cons ⟨rfl, accepts_integer _ hbottom⟩ <| .cons ⟨rfl, accepts_integer _ hleft⟩ .nil

/-- A value is accepted by alternatives if it is accepted by the one that its tag names. -/
theorem keyword_tagged {ms' : Json.Members} {tag name type : String}
    {types : List (String × String)} {v : Json}
    (hms' : ms'.lookup "discriminator" = (tagged tag types).lookup "discriminator")
    (htypes : (types.map Prod.fst).Nodup) (htype : (name, type) ∈ types)
    (htag : v.get? tag = some (.str name)) (h : Accepts (reference type) v) :
    ∀ m ∈ tagged tag types, Keyword ms' m.1 m.2 v := by
  have hmapping : (ordered (types.map fun t => (t.1, place t.2))).get? name =
      some (place type) := by
    refine lookup_sorted ?_ (lookup_eq_some_of_mem ?_ (List.mem_map_of_mem htype)) <;>
      simpa [Keyed.names, Function.comp_def] using htypes
  simp only [tagged, List.forall_mem_cons]
  refine ⟨.remark (by simp [remarks]), ?_, by simp⟩
  exact .oneOf (hms'.trans rfl) htag hmapping (List.mem_map_of_mem htype) h

theorem accepts_layout {l : Layout} (h : ∀ n ∈ l.lengths, 1 ≤ n) :
    Accepts (titled "layout" (tagged "type" layouts)).2 l.record := by
  have hsiblings : (sorted (("title", .str (title "layout")) :: tagged "type" layouts)).lookup
      "discriminator" = (tagged "type" layouts).lookup "discriminator" :=
    lookup_sorted (by simp [Keyed.names, tagged]) rfl
  have hnames : (layouts.map Prod.fst).Nodup := by decide
  refine accepts_titled ?_
  cases l with
  | flex direction wrap align justify =>
      have hflex : ("flex", "FlexLayout") ∈ layouts := by simp [layouts]
      refine keyword_tagged hsiblings hnames hflex rfl
        (accepts_reference (definitions_get? rfl) ?_)
      exact accepts_object (.cons ⟨rfl, accepts_constant _⟩ <|
        .cons ⟨rfl, accepts_choice _ _ (definitions_get? rfl)⟩ <|
        .cons ⟨rfl, accepts_flag _ _⟩ <|
        .cons ⟨rfl, accepts_choice _ _ (definitions_get? rfl)⟩ <|
        .cons ⟨rfl, accepts_choice _ _ (definitions_get? rfl)⟩ .nil) (by decide)
        (.inl explains_nil)
  | grid columns rows =>
      simp only [Layout.lengths, List.forall_mem_cons] at h
      obtain ⟨hcolumns, hrows, -⟩ := h
      have hgrid : ("grid", "GridLayout") ∈ layouts := by simp [layouts]
      refine keyword_tagged hsiblings hnames hgrid rfl
        (accepts_reference (definitions_get? rfl) ?_)
      exact accepts_object (.cons ⟨rfl, accepts_constant _⟩ <|
        .cons ⟨rfl, accepts_integer _ hcolumns⟩ <| .cons ⟨rfl, accepts_integer _ hrows⟩ .nil)
        (by decide) (.inl explains_nil)
  | stack =>
      have hstack : ("stack", "StackLayout") ∈ layouts := by simp [layouts]
      refine keyword_tagged hsiblings hnames hstack rfl
        (accepts_reference (definitions_get? rfl) ?_)
      exact accepts_object (.cons ⟨rfl, accepts_constant _⟩ .nil) (by decide) (.inl explains_nil)

theorem accepts_prop (p : PropValue) :
    Accepts (.obj [("anyOf", .arr (["boolean", "number", "string", "null"].map basic))])
      p.record := by
  have hbasic (type : String) (htype : type ∈ ["boolean", "number", "string", "null"])
      (h : HasType type p.record) :
      Accepts (.obj [("anyOf", .arr (["boolean", "number", "string", "null"].map basic))])
        p.record := by
    refine .keywords fun m hm => ?_
    rw [List.mem_singleton.mp hm]
    exact .anyOf (List.mem_map_of_mem htype) (accepts_basic h)
  cases p with
  | bool b => exact hbasic "boolean" (by simp) trivial
  | number x => exact hbasic "number" (by simp) trivial
  | text s => exact hbasic "string" (by simp) trivial
  | empty => exact hbasic "null" (by simp) trivial

/-! ## Components -/

theorem declares_leaf (l : Leaf) : Declares (kindProperties l.kind) l.fields := by
  have hdescription := explains_description
  cases l with
  | button b =>
      exact .cons ⟨rfl, accepts_text _ _ explains_nil⟩ <|
        .cons ⟨rfl, accepts_choice _ _ (definitions_get? rfl)⟩ <|
        .cons ⟨rfl, accepts_choice _ _ (definitions_get? rfl)⟩ <|
        .cons ⟨rfl, accepts_flag _ _⟩ <|
        .cons ⟨rfl, accepts_optionalText _ (hdescription _)⟩ <|
        .cons ⟨rfl, accepts_bindings _ (hdescription _)⟩ .nil
  | text t =>
      exact .cons ⟨rfl, accepts_text _ _ explains_nil⟩ <|
        .cons ⟨rfl, accepts_choice _ _ (definitions_get? rfl)⟩ <|
        .cons ⟨rfl, accepts_choice _ _ (definitions_get? rfl)⟩ <|
        .cons ⟨rfl, accepts_bindings _ explains_nil⟩ .nil
  | input i =>
      exact .cons ⟨rfl, accepts_text _ _ explains_nil⟩ <|
        .cons ⟨rfl, accepts_choice _ _ (definitions_get? rfl)⟩ <|
        .cons ⟨rfl, accepts_flag _ _⟩ <| .cons ⟨rfl, accepts_flag _ _⟩ <|
        .cons ⟨rfl, accepts_optionalText _ explains_nil⟩ <|
        .cons ⟨rfl, accepts_optionalText _ explains_nil⟩ <|
        .cons ⟨rfl, accepts_bindings _ explains_nil⟩ .nil
  | select s =>
      exact .cons ⟨rfl, accepts_text _ _ (hdescription _)⟩ <|
        .cons ⟨rfl, accepts_text _ _ explains_nil⟩ <| .cons ⟨rfl, accepts_flag _ _⟩ <|
        .cons ⟨rfl, accepts_optionalText _ explains_nil⟩ .nil
  | image i =>
      exact .cons ⟨rfl, accepts_text _ _ explains_nil⟩ <|
        .cons ⟨rfl, accepts_text _ _ explains_nil⟩ <|
        .cons ⟨rfl, accepts_optionalText _ explains_nil⟩ <|
        .cons ⟨rfl, accepts_optionalText _ explains_nil⟩ <|
        .cons ⟨rfl, accepts_optionalText _ explains_nil⟩ .nil
  | custom c =>
      exact .cons ⟨rfl, accepts_text _ _ explains_nil⟩ <|
        .cons ⟨rfl, accepts_optionalText _ (hdescription _)⟩ <|
        .cons ⟨rfl, accepts_table PropValue.record (fun e _ => accepts_prop e.2) explains_nil⟩ .nil

theorem declares_frame {f : Frame} (h : f.InRange) : Declares (kindProperties f.kind) f.fields := by
  cases f with
  | container c =>
      obtain ⟨hlayout, hgap, hpadding⟩ := h
      exact .cons ⟨rfl, accepts_layout hlayout⟩ <| .cons ⟨rfl, accepts_integer _ hgap⟩ <|
        .cons ⟨rfl, accepts_reference (definitions_get? rfl) (accepts_spacing hpadding)⟩ <|
        .cons ⟨rfl, accepts_optionalText _ explains_nil⟩ .nil
  | card c =>
      obtain ⟨hpadding, hradius⟩ := h
      exact .cons ⟨rfl, accepts_integer _ hpadding⟩ <| .cons ⟨rfl, accepts_flag _ _⟩ <|
        .cons ⟨rfl, accepts_flag _ _⟩ <| .cons ⟨rfl, accepts_integer _ hradius⟩ <|
        .cons ⟨rfl, accepts_optionalText _ explains_nil⟩ .nil

/-- The fields that every component has are declared in front of all others. -/
theorem declares_base {i : Id} {a : Option Animation} {k : Kind} {ps fields : Json.Members}
    (ha : ∀ x ∈ a, x.InRange) (h : Declares ps fields) :
    Declares
      ([titled "id" (("type", .str "string") :: description "Unique identifier"),
        ("animation", .obj (nullable (reference "Animation"))),
        constant "kind" (Choice.name k)] ++ ps)
      (Component.baseFields i a k ++ fields) := by
  refine .cons ⟨rfl, accepts_titled ?_⟩ <| .cons ⟨rfl, .keywords (keyword_nullable fun hne => ?_)⟩ <|
    .cons ⟨rfl, accepts_constant _⟩ h
  · exact List.forall_mem_cons.mpr ⟨.type trivial, (explains_description _).keyword _⟩
  · cases a with
    | none => exact absurd rfl hne
    | some x => exact accepts_reference (definitions_get? rfl) (accepts_animation (ha x rfl))

/-- A component is accepted if it is accepted by the definition of its kind. -/
theorem accepts_anyComponent {k : Kind} {v : Json}
    (hkind : v.get? "kind" = some (Choice.record k)) (h : Accepts (kindType k).2 v) :
    Accepts anyComponent v := by
  have hmem : (Choice.name k, typeOf k) ∈
      (Choice.all : List Kind).map fun k => (Choice.name k, typeOf k) :=
    List.mem_map_of_mem (List.mem_of_find?_eq_some (ofName_name k))
  have hdefined : definitions.get? (typeOf k) = some (kindType k).2 := by
    cases k <;> exact definitions_get? rfl
  exact .keywords (keyword_tagged rfl (by decide) hmem hkind (accepts_reference hdefined h))

theorem nodup_kindProperties (k : Kind) :
    (Keyed.names ([titled "id" (("type", .str "string") :: description "Unique identifier"),
        ("animation", .obj (nullable (reference "Animation"))),
        constant "kind" (Choice.name k)] ++
      childProperties k ++ kindProperties k)).Nodup := by
  cases k <;> decide

theorem accepts_leaf {a : Option Animation} (ha : ∀ x ∈ a, x.InRange) (i : Id) (l : Leaf) :
    Accepts anyComponent (Component.leaf i a l).record := by
  have hnone : childProperties l.kind = [] := by cases l <;> rfl
  rw [Component.record]
  refine accepts_anyComponent rfl
    (accepts_object ?_ (nodup_kindProperties l.kind) (.inr rfl))
  rw [hnone, List.append_nil]
  exact declares_base ha (declares_leaf l)

theorem accepts_branch {a : Option Animation} (ha : ∀ x ∈ a, x.InRange) {f : Frame}
    (hf : f.InRange) (i : Id) {cs : Forest Id}
    (hcs : ∀ v ∈ Component.recordForest cs, Accepts anyComponent v) :
    Accepts anyComponent (Component.branch i a f cs).record := by
  have hchildren : childProperties f.kind =
      [titled "children" [("items", anyComponent), ("type", .str "array")]] := by
    cases f <;> rfl
  rw [Component.record]
  refine accepts_anyComponent rfl
    (accepts_object ?_ (nodup_kindProperties f.kind) (.inr rfl))
  rw [hchildren, List.append_assoc]
  refine declares_base ha (.cons ⟨rfl, accepts_titled ?_⟩ (declares_frame hf))
  simp only [List.forall_mem_cons]
  exact ⟨.items hcs, .type trivial, by simp⟩

theorem accepts_recordForest {f : Forest Id} (h : Requirement.inRange.Met f) :
    ∀ v ∈ Component.recordForest f, Accepts anyComponent v := by
  induction f using Forest.induction with
  | nil => simp [Component.recordForest]
  | cons c cs ihc ihcs =>
      obtain ⟨hc, hchildren, hcs⟩ := Requirement.met_cons_iff.mp h
      rw [Component.recordForest, List.forall_mem_cons]
      refine ⟨?_, ihcs hcs⟩
      cases c with
      | leaf i a l => exact accepts_leaf hc.1 i l
      | branch i a f ds => exact accepts_branch hc.1 hc.2 i (ihc hchildren)

/-- A design within the bounds is stored as a value that the exported schema accepts, whatever
design the schema gives as an example. -/
theorem accepts_schema {f : Forest Id} (h : Requirement.inRange.Met f) (g : Forest Id) :
    Accepts (schema g) (Component.recordAll f) := by
  refine .keywords ?_
  have hnote (ms : Json.Members) {k : String} {s : Json} (hk : k ∈ remarks) :
      Keyword ms k s (Component.recordAll f) := .remark hk
  simp only [List.forall_mem_cons]
  refine ⟨hnote _ ?_, hnote _ ?_, hnote _ ?_, hnote _ ?_, .items (accepts_recordForest h),
    .type trivial, hnote _ ?_, by simp⟩ <;> simp [remarks]

end JsonSchema

end PageDesign
