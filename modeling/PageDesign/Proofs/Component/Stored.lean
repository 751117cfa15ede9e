/-
# PageDesign.Proofs.Component.Stored -- designs are read back from their stored form

A component is read by its kind, and the children of a branch are read like a forest: what is
read from an object is a component whose parts are what their readers make of the fields
(`read_eq_ok_iff`).  Two theorems follow by going down the tree.  What is ensured for the parts
of a component holds of every node that is read (`EnsuredBy.of_read`), and a design
within the bounds is read back from what it is stored as (`readForest_record`).

Together they say that loading a stored design gives the design back and draws no identities,
whatever it was loaded from in the first place (`loadForest_record`).
-/
import PageDesign.Proofs.Component.Fields
import PageDesign.Proofs.Component.Fresh

namespace PageDesign

open Schema

variable {ι κ : Type}

namespace Draft

/-! ## Taking the readers apart -/

theorem readItems_eq (n : Nat) (vs : List Json) : readItems n vs = items read n vs := by
  induction vs generalizing n with
  | nil => rw [readItems, items]
  | cons v vs ih => rw [readItems, items, ih]

theorem readForest_eq_ok_iff {v : Json} {ds : List Draft} :
    readForest v = .ok ds ↔
      ∃ vs, v = .arr vs ∧ List.Forall₂ (fun v d => read v = .ok d) vs ds := by
  cases v with
  | arr vs => simp [readForest, readItems_eq, items_eq_ok_iff]
  | _ => simp [readForest]

theorem readChildren_eq (ms : Json.Members) :
    readChildren ms = field ms "children" [] readForest := by
  induction ms with
  | nil => rw [readChildren, field, List.lookup_nil]
  | cons m ms ih =>
      obtain ⟨k, v⟩ := m
      by_cases hk : k = "children"
      · subst hk
        rw [readChildren, if_pos rfl, field, List.lookup_cons_self]
      · rw [readChildren, if_neg hk, ih, field, field, List.lookup_cons,
          beq_false_of_ne (Ne.symm hk)]

/-- The fields that every component has are read, and there are no others than those of the
kind. -/
structure ReadsHead (ms : Json.Members) (i : Option Id) (a : Option Animation) (k : Kind) :
    Prop where
  id : field ms "id" none (fun v => (text v).map some) = .ok i
  animation : field ms "animation" none (optional readAnimation) = .ok a
  kind : field ms "kind" () (exactly (Choice.name k)) = .ok ()
  known : noExtras (knownFields k) ms = .ok ()

/-- A component is what the readers of its parts make of the fields of an object, where the
children have been read before. -/
def ReadFrom (ms : Json.Members) (children : Check (List Draft)) : Draft → Prop
  | .leaf i a l => ReadsHead ms i a l.kind ∧ l.ReadFrom ms
  | .branch i a f cs => ReadsHead ms i a f.kind ∧ children = .ok cs ∧ f.ReadFrom ms

theorem readLeaf_eq_ok_iff {k : Kind} {ms : Json.Members} {content : Check Leaf}
    {children : Check (List Draft)} {d : Draft} (hk : ∀ f : Frame, f.kind ≠ k)
    (hcontent : ∀ l, content = .ok l ↔ l.kind = k ∧ l.ReadFrom ms) :
    readLeaf k ms content = .ok d ↔ d.kind = k ∧ ReadFrom ms children d := by
  simp only [readLeaf, Check.seq_eq_ok_iff, Check.fmap_eq_ok_iff]
  constructor
  · rintro ⟨_, ⟨_, ⟨_, ⟨_, ⟨i, hi, rfl⟩, a, ha, rfl⟩, ⟨⟩, hkind, rfl⟩, l, hl, rfl⟩, ⟨⟩, hknown, rfl⟩
    obtain ⟨rfl, hl⟩ := (hcontent l).mp hl
    exact ⟨rfl, ⟨hi, ha, hkind, hknown⟩, hl⟩
  · rintro ⟨hd, hfrom⟩
    cases d with
    | leaf i a l =>
        obtain ⟨⟨hi, ha, hkind, hknown⟩, hl⟩ := hfrom
        obtain rfl : l.kind = k := hd
        exact ⟨_, ⟨_, ⟨_, ⟨_, ⟨i, hi, rfl⟩, a, ha, rfl⟩, (), hkind, rfl⟩, l,
          (hcontent l).mpr ⟨rfl, hl⟩, rfl⟩, (), hknown, rfl⟩
    | branch i a f cs => exact absurd hd (hk f)

theorem readBranch_eq_ok_iff {k : Kind} {ms : Json.Members} {children : Check (List Draft)}
    {frame : Check Frame} {d : Draft} (hk : ∀ l : Leaf, l.kind ≠ k)
    (hframe : ∀ f, frame = .ok f ↔ f.kind = k ∧ f.ReadFrom ms) :
    readBranch k ms children frame = .ok d ↔ d.kind = k ∧ ReadFrom ms children d := by
  simp only [readBranch, Check.seq_eq_ok_iff, Check.fmap_eq_ok_iff]
  constructor
  · rintro ⟨_, ⟨_, ⟨_, ⟨_, ⟨_, ⟨i, hi, rfl⟩, a, ha, rfl⟩, ⟨⟩, hkind, rfl⟩, cs, hcs, rfl⟩, f, hf,
      rfl⟩, ⟨⟩, hknown, rfl⟩
    obtain ⟨rfl, hf⟩ := (hframe f).mp hf
    exact ⟨rfl, ⟨hi, ha, hkind, hknown⟩, hcs, hf⟩
  · rintro ⟨hd, hfrom⟩
    cases d with
    | leaf i a l => exact absurd hd (hk l)
    | branch i a f cs =>
        obtain ⟨⟨hi, ha, hkind, hknown⟩, hcs, hf⟩ := hfrom
        obtain rfl : f.kind = k := hd
        exact ⟨_, ⟨_, ⟨_, ⟨_, ⟨_, ⟨i, hi, rfl⟩, a, ha, rfl⟩, (), hkind, rfl⟩, cs, hcs, rfl⟩, f,
          (hframe f).mpr ⟨rfl, hf⟩, rfl⟩, (), hknown, rfl⟩

/-- The reader for a kind yields the components of that kind that the readers of their parts
make of the fields. -/
theorem readKind_eq_ok_iff {k : Kind} {ms : Json.Members} {children : Check (List Draft)}
    {d : Draft} :
    readKind k ms children = .ok d ↔ d.kind = k ∧ ReadFrom ms children d := by
  cases k with
  | container | card =>
      refine readBranch_eq_ok_iff (fun l => by cases l <;> simp [Leaf.kind]) fun f => ?_
      cases f <;> simp [Check.fmap_eq_ok_iff, Frame.kind, Frame.ReadFrom]
  | _ =>
      refine readLeaf_eq_ok_iff (fun f => by cases f <;> simp [Frame.kind]) fun l => ?_
      cases l <;> simp [Check.fmap_eq_ok_iff, Leaf.kind, Leaf.ReadFrom]

/-- A component is read from the fields of an object under the kind that the object names. -/
theorem read_eq_ok_iff {v : Json} {d : Draft} :
    read v = .ok d ↔
      ∃ ms, v = .obj ms ∧ ms.lookup "kind" = some (Choice.record d.kind) ∧
        ReadFrom ms (field ms "children" [] readForest) d := by
  cases v with
  | obj ms =>
      rw [read, tagged_eq_ok_iff, readChildren_eq]
      constructor
      · rintro ⟨tag, htag, hread⟩
        obtain ⟨k, hk, hread⟩ := Option.map_eq_some_iff.mp hread
        obtain ⟨rfl, hfrom⟩ := readKind_eq_ok_iff.mp hread
        exact ⟨ms, rfl, by rw [htag, Choice.record, Choice.name_of_ofName? hk], hfrom⟩
      · rintro ⟨ms, heq, hkind, hfrom⟩
        cases heq
        exact ⟨_, hkind, by rw [ofName_name, Option.map_some, readKind_eq_ok_iff.mpr ⟨rfl, hfrom⟩]⟩
  | _ => simp [read]

end Draft

/-! ## Requirements for all components -/

/-- What is required of the parts of a component. -/
structure Requirement where
  animation : Animation → Prop
  leaf : Leaf → Prop
  frame : Frame → Prop

namespace Requirement

variable (r : Requirement)

/-- A component, apart from its children, is as required. -/
def Node : Component ι → Prop
  | .leaf _ a l => (∀ x ∈ a, r.animation x) ∧ r.leaf l
  | .branch _ a f _ => (∀ x ∈ a, r.animation x) ∧ r.frame f

/-- Every component of a forest is as required. -/
def Met (f : Forest ι) : Prop := ∀ c ∈ f.nodes, r.Node c

variable {r}

theorem met_nil : r.Met ([] : Forest ι) := by simp [Met]

theorem met_cons_iff {c : Component ι} {cs : Forest ι} :
    r.Met (c :: cs) ↔ r.Node c ∧ r.Met c.children ∧ r.Met cs := by
  simp only [Met, Forest.nodes_cons, List.forall_mem_cons, List.forall_mem_append]

theorem met_iff_forall {f : Forest ι} : r.Met f ↔ ∀ c ∈ f, r.Met [c] := by
  induction f with
  | nil => simp [met_nil]
  | cons c cs ih =>
      rw [met_cons_iff, List.forall_mem_cons, ← ih, met_cons_iff]
      simp only [met_nil, and_true, and_assoc]

theorem met_mapForest_iff {g : ι → κ} {f : Forest ι} :
    r.Met (Component.mapForest g f) ↔ r.Met f := by
  have hnode (c : Component ι) : r.Node (c.map g) ↔ r.Node c := by cases c <;> rfl
  simp only [Met, Component.nodes_mapForest, List.forall_mem_map, hnode]

theorem met_of_forget_eq {f : Forest ι} {g : Forest κ}
    (h : Component.forget f = Component.forget g) (hf : r.Met f) : r.Met g := by
  rw [← met_mapForest_iff (g := fun _ => ()), ← Component.forget, ← h, Component.forget,
    met_mapForest_iff]
  exact hf

/-- If a statement holds everywhere in a value, the readers of the parts of a component ensure
what is required of them. -/
structure EnsuredBy (r : Requirement) (q : Json → Prop) : Prop where
  animation : Ensures q Draft.readAnimation r.animation
  leaf : ∀ ⦃ms : Json.Members⦄ ⦃l : Leaf⦄, Json.Everywhere q (.obj ms) → l.ReadFrom ms → r.leaf l
  frame : ∀ ⦃ms : Json.Members⦄ ⦃f : Frame⦄, Json.Everywhere q (.obj ms) → f.ReadFrom ms →
    r.frame f

variable {q : Json → Prop}

theorem EnsuredBy.head (h : r.EnsuredBy q) {ms : Json.Members} {i : Option Id}
    {a : Option Animation} {k : Kind} (hms : Json.Everywhere q (.obj ms))
    (hhead : Draft.ReadsHead ms i a k) : ∀ x ∈ a, r.animation x :=
  h.animation.optional.field (by simp) hms hhead.animation

/-- A component that is read from fields is as required if its children are. -/
theorem EnsuredBy.of_readFrom (h : r.EnsuredBy q) {ms : Json.Members}
    {children : Check (List Draft)} {d : Draft} (hms : Json.Everywhere q (.obj ms))
    (hchildren : ∀ cs, children = .ok cs → r.Met cs) (hfrom : Draft.ReadFrom ms children d) :
    r.Met [d] := by
  cases d with
  | leaf i a l =>
      obtain ⟨hhead, hl⟩ := hfrom
      exact met_cons_iff.mpr ⟨⟨h.head hms hhead, h.leaf hms hl⟩, met_nil, met_nil⟩
  | branch i a f cs =>
      obtain ⟨hhead, hcs, hf⟩ := hfrom
      exact met_cons_iff.mpr ⟨⟨h.head hms hhead, h.frame hms hf⟩, hchildren cs hcs, met_nil⟩

/-- What is ensured for the parts holds of every component that is read, alone or in a
forest. -/
theorem EnsuredBy.of_read (h : r.EnsuredBy q) {v : Json} (hv : Json.Everywhere q v) :
    (∀ d, Draft.read v = .ok d → r.Met [d]) ∧ ∀ ds, Draft.readForest v = .ok ds → r.Met ds := by
  induction v using Json.induction_parts with
  | step v ih =>
      constructor
      · intro d hd
        obtain ⟨ms, rfl, -, hfrom⟩ := Draft.read_eq_ok_iff.mp hd
        refine h.of_readFrom hv (fun cs hcs => ?_) hfrom
        -- the children were read from a part of the object, or there are none
        obtain ⟨w, hw, hread⟩ | ⟨-, rfl⟩ := field_eq_ok_iff.mp hcs
        · obtain ⟨l, r, rfl, -⟩ := List.lookup_eq_some_iff.mp hw
          exact (ih w (by simp [Json.parts]) (hv.inside (by simp [Json.parts]))).2 cs hread
        · exact met_nil
      · intro ds hds
        obtain ⟨vs, rfl, hread⟩ := Draft.readForest_eq_ok_iff.mp hds
        refine met_iff_forall.mpr fun d hd => ?_
        obtain ⟨w, hw, hread⟩ := exists_of_mem_forall₂ hread hd
        exact (ih w hw (hv.item hw)).1 d hread

theorem EnsuredBy.forest (h : r.EnsuredBy q) : Ensures q Draft.readForest r.Met :=
  fun _ hv ds hds => (h.of_read hv).2 ds hds

/-- Everything is within its bounds. -/
def inRange : Requirement := ⟨Animation.InRange, fun _ => True, Frame.InRange⟩

theorem inRange_ensuredBy : inRange.EnsuredBy q :=
  ⟨ensures_readAnimation, fun _ _ _ _ => trivial, fun _ _ _ hf => hf.inRange⟩

end Requirement

/-! ## Reading back -/

namespace Draft

variable {i : Id} {a : Option Animation}

theorem readsHead_record {k : Kind} {ms : Json.Members} (ha : ∀ x ∈ a, x.InRange)
    (hms : ∀ m ∈ ms, m.1 ∈ knownFields k) :
    ReadsHead (Component.baseFields i a k ++ ms) (some i) a k where
  id := field_of_lookup (v := .str i) rfl rfl
  animation := by
    refine field_of_lookup (v := (a.map Animation.record).getD .null) rfl ?_
    cases a with
    | none => rfl
    | some x =>
        have hx : readAnimation x.record = .ok x := readAnimation_record (ha x rfl)
        exact Check.map_eq_ok_iff.mpr ⟨x, hx, rfl⟩
  kind := field_of_lookup (v := Choice.record k) rfl (exactly_self _)
  known := by
    refine noExtras_eq_ok_iff.mpr (List.forall_mem_append.mpr ⟨?_, hms⟩)
    simp [Component.baseFields, knownFields]

theorem read_record_leaf (ha : ∀ x ∈ a, x.InRange) (l : Leaf) :
    read (Component.leaf i a l).record = .ok (.leaf (some i) a l) := by
  refine read_eq_ok_iff.mpr ⟨_, by rw [Component.record], rfl, readsHead_record ha ?_, ?_⟩
  · cases l <;> simp [Leaf.fields, Leaf.kind, knownFields]
  · exact Leaf.readFrom_record i a l

theorem read_record_branch (ha : ∀ x ∈ a, x.InRange) {f : Frame} (hf : f.InRange)
    {cs : Forest Id} {ds : List Draft} (hcs : readForest (Component.recordAll cs) = .ok ds) :
    read (Component.branch i a f cs).record = .ok (.branch (some i) a f ds) := by
  refine read_eq_ok_iff.mpr ⟨_, by rw [Component.record], rfl, readsHead_record ha ?_, ?_, ?_⟩
  · cases f <;> simp [Frame.fields, Frame.kind, knownFields]
  · exact field_of_lookup (lookup_children i a f.kind _ f.fields) hcs
  · exact Frame.readFrom_record i a _ hf

/-- A design within the bounds is read back from what it is stored as. -/
theorem readForest_record {f : Forest Id} (h : Requirement.inRange.Met f) :
    readForest (Component.recordAll f) = .ok (Component.mapForest some f) := by
  refine readForest_eq_ok_iff.mpr ⟨_, rfl, ?_⟩
  induction f using Forest.induction with
  | nil => exact .nil
  | cons c cs ihc ihcs =>
      obtain ⟨hc, hchildren, hcs⟩ := Requirement.met_cons_iff.mp h
      refine .cons ?_ (ihcs hcs)
      cases c with
      | leaf i a l => exact read_record_leaf hc.1 l
      | branch i a f cs =>
          exact read_record_branch hc.1 hc.2 (readForest_eq_ok_iff.mpr ⟨_, rfl, ihc hchildren⟩)

/-- A tree within the bounds is read back from what it is stored as. -/
theorem read_record {c : Component Id} (h : Requirement.inRange.Met [c]) :
    read c.record = .ok (c.map some) := by
  obtain ⟨vs, hvs, hitems⟩ := readForest_eq_ok_iff.mp (readForest_record h)
  cases hvs
  exact (List.forall₂_cons.mp hitems).1

end Draft

/-! ## Missing identities -/

namespace Component

/-- Where no identity is missing, none is drawn. -/
theorem fillForest_some (f : Forest Id) (n : Minted) : fillForest (mapForest some f) n = (f, n) := by
  induction f using Forest.induction generalizing n with
  | nil => rfl
  | cons c cs ihc ihcs =>
      cases c with
      | leaf i a l => simp [mapForest, map, fillForest, fill, fillId, ihcs]
      | branch i a f ds =>
          have hds := ihc n
          simp only [children] at hds
          simp [mapForest, map, fillForest, fill, fillId, ihcs, hds]

theorem fillForest_cons (c : Draft) (cs : List Draft) (n : Minted) :
    fillForest (c :: cs) n =
      ((c.fill n).1 :: (fillForest cs (c.fill n).2).1, (fillForest cs (c.fill n).2).2) :=
  rfl

theorem fill_some (c : Component Id) (n : Minted) : (c.map some).fill n = (c, n) := by
  have h : ([((c.map some).fill n).1], ((c.map some).fill n).2) = ([c], n) := fillForest_some [c] n
  obtain ⟨hc, hn⟩ := Prod.mk.inj h
  exact Prod.ext (List.cons.inj hc).1 hn

theorem forget_fillForest (f : Forest (Option Id)) (n : Minted) :
    forget (fillForest f n).1 = forget f := by
  induction f using Forest.induction generalizing n with
  | nil => rfl
  | cons c cs ihc ihcs =>
      have hc : (c.fill n).1.map (fun _ => ()) = c.map fun _ => () := by
        cases c with
        | leaf i a l => rfl
        | branch i a fr ds => exact congrArg (Component.branch () a fr) (ihc (fillId i n).2)
      rw [fillForest_cons, forget, forget, mapForest, mapForest, hc]
      exact congrArg _ (ihcs (c.fill n).2)

/-- Loading a design that was loaded before and stored gives the design back and draws no
identities. -/
theorem loadForest_record {v : Json} {n n' : Minted} {f : Forest Id}
    (h : loadForest v n = .ok (f, n')) (m : Minted) : loadForest (recordAll f) m = .ok (f, m) := by
  obtain ⟨ds, hds, hfill⟩ := Check.map_eq_ok_iff.mp h
  have hds : Requirement.inRange.Met ds :=
    (Requirement.inRange_ensuredBy.of_read (.of_forall (fun _ => trivial) v)).2 ds hds
  have hf : Requirement.inRange.Met f := by
    refine Requirement.met_of_forget_eq ?_ hds
    rw [← forget_fillForest ds n, hfill]
  rw [loadForest, Draft.readForest_record hf]
  exact congrArg Check.ok (fillForest_some f m)

theorem loadForest_record_sample :
    let v : Json := .arr [.obj [("kind", .str "container"), ("gap", .str " 012 "),
      ("layout", .obj [("columns", .bool true), ("type", .str "grid"), ("note", .null)]),
      ("children", .arr [.obj [("bindings", .obj [("b", .str "x"), ("a", .str "y")]),
        ("kind", .str "button"), ("disabled", .str "YES"), ("id", .str "go")]])]]
    let f : Forest Id :=
      [.branch "cmp_00000000000000000000000001" none
        (.container { layout := .grid 1 2, gap := 12 })
        [.leaf "go" none (.button { disabled := true, bindings := [("b", "x"), ("a", "y")] })]]
    loadForest v 0 = .ok (f, 1) ∧ loadForest (recordAll f) 5 = .ok (f, 5) := by
  intro v f
  have hload : loadForest v 0 = .ok (f, 1) := rfl
  exact ⟨hload, loadForest_record hload 5⟩

end Component

end PageDesign
