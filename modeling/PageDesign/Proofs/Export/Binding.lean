/-
# PageDesign.Proofs.Export.Binding -- a binding takes the place of an attribute

In a view, attributes may be bound to variables under any name, also under the name of an attribute
that is there anyway: a class, a state, the style of an animation or a handler.  The bound
attributes are put one after the other under their names, so what comes out is told by
`Keyed.names_putAll` and `Keyed.lookup_putAll`: no name comes twice, names keep their places, and
new ones come behind (`Bound`).

`bindings_replace` says this of the tags of buttons, texts and input fields.  The text of a button
or a text may be bound too; that binding shows between the tags and never among the attributes.
-/
import PageDesign.Export.Leptos
import PageDesign.Proofs.Json.Limits

namespace PageDesign

/-! ## Values put under names -/

namespace Keyed

variable {α : Type}

/-- Values put under distinct names leave the names in their places, and new names come last in the
order in which they are given. -/
theorem names_putAll {given rest : Keyed α} (h : (names given).Nodup) :
    names (putAll given rest) =
      names rest ++ (names given).filter (fun name => name ∉ names rest) := by
  induction given generalizing rest with
  | nil => exact (List.append_nil _).symm
  | cons m given ih =>
      obtain ⟨name, a⟩ := m
      obtain ⟨hname, hgiven⟩ := List.nodup_cons.mp h
      have hstep : putAll ((name, a) :: given) rest = putAll given (put name a rest) := rfl
      have hcons : names ((name, a) :: given) = name :: names given := rfl
      rw [hstep, ih hgiven, names_put, hcons]
      by_cases hmem : name ∈ names rest
      · rw [if_pos hmem, List.filter_cons_of_neg (by simpa using hmem)]
      · rw [if_neg hmem, List.filter_cons_of_pos (by simpa using hmem), List.append_assoc,
          List.singleton_append]
        -- the other names that are given differ from this one
        congr 2
        refine List.filter_congr fun other hother => ?_
        have hne : other ≠ name := fun heq => hname (heq ▸ hother)
        simp [hne]

theorem lookup_put_of_ne {other name : String} (h : other ≠ name) (a : α) (l : Keyed α) :
    (put name a l).lookup other = l.lookup other := by
  have hne : (other == name) = false := beq_eq_false_iff_ne.mpr h
  induction l with
  | nil => simp [put, List.lookup_cons, hne]
  | cons m l ih =>
      obtain ⟨n, b⟩ := m
      rw [put]
      split
      next heq => simp [List.lookup_cons, heq, hne]
      next => rw [List.lookup_cons, List.lookup_cons, ih]

/-- Under distinct names, a value that is given is found before one that was there. -/
theorem lookup_putAll {given rest : Keyed α} (h : (names given).Nodup) (name : String) :
    (putAll given rest).lookup name = (given.lookup name).or (rest.lookup name) := by
  induction given generalizing rest with
  | nil => rfl
  | cons m given ih =>
      obtain ⟨n, a⟩ := m
      obtain ⟨hn, hgiven⟩ := List.nodup_cons.mp h
      have hstep : putAll ((n, a) :: given) rest = putAll given (put n a rest) := rfl
      rw [hstep, ih hgiven]
      by_cases heq : name = n
      · subst heq
        have hnone : given.lookup name = none := by
          refine List.lookup_eq_none_iff.mpr fun p hp => ?_
          rw [bne_iff_ne]
          exact fun hname => hn (List.mem_map.mpr ⟨p, hp, hname.symm⟩)
        simp [hnone, lookup_put_self]
      · rw [lookup_put_of_ne heq, List.lookup_cons, beq_eq_false_iff_ne.mpr heq]

end Keyed

namespace Leptos

open Markup

/-! ## Bound attributes -/

/-- How attributes come out that are bound: under distinct names, which are those of the attributes
in their order and then the further names that are bound.  A bound attribute is a closure over its
variable, and any other one has the expression that it had. -/
structure Bound (fixed : Attributes) (bs : Bindings) (as : Attributes) : Prop where
  distinct : (Keyed.names as).Nodup
  names : Keyed.names as =
    Keyed.names fixed ++ (Keyed.names bs).filter fun name => name ∉ Keyed.names fixed
  bound : ∀ name v, bs.lookup name = some v → as.lookup name = some ("move || " ++ v ++ ".get()")
  unbound : ∀ name, bs.lookup name = none → as.lookup name = fixed.lookup name

/-- The attributes that bindings stand for. -/
def closures (bs : Bindings) : Attributes := bs.map fun (attr, name) => (attr, reactive name)

theorem names_closures (bs : Bindings) : Keyed.names (closures bs) = Keyed.names bs := by
  rw [Keyed.names, closures, List.map_map]
  rfl

theorem lookup_closures (bs : Bindings) (name : String) :
    (closures bs).lookup name = (bs.lookup name).map reactive := by
  induction bs with
  | nil => rfl
  | cons b bs ih =>
      have hcons : closures (b :: bs) = (b.1, reactive b.2) :: closures bs := rfl
      rw [hcons, List.lookup_cons, List.lookup_cons, ih]
      split <;> rfl

theorem bound_bind {fixed : Attributes} {bs : Bindings} (hfixed : (Keyed.names fixed).Nodup)
    (hbs : (Keyed.names bs).Nodup) : Bound fixed bs (bind fixed bs) := by
  have hclosures : (Keyed.names (closures bs)).Nodup := by rwa [names_closures]
  have hlookup (name : String) : (bind fixed bs).lookup name =
      ((bs.lookup name).map reactive).or (fixed.lookup name) := by
    rw [← lookup_closures]
    exact Keyed.lookup_putAll hclosures name
  constructor
  case distinct => exact Keyed.nodup_names_putAll _ hfixed
  case names =>
    rw [← names_closures bs]
    exact Keyed.names_putAll hclosures
  case bound =>
    intro name v hv
    rw [hlookup, hv]
    rfl
  case unbound =>
    intro name hnone
    rw [hlookup, hnone]
    rfl

/-! ## The attributes of leaves -/

theorem names_on (event : String) (o : Option String) :
    (Keyed.names (on event o)).Sublist ["on:" ++ event] := by
  cases o with
  | none => exact List.nil_sublist _
  | some handler =>
      rw [on]
      split
      next => exact List.nil_sublist _
      next => exact List.Sublist.refl _

theorem names_styled (ds : List Declaration) : (Keyed.names (styled ds)).Sublist ["style"] := by
  rw [styled]
  split
  next => exact List.nil_sublist _
  next => exact List.Sublist.refl _

theorem names_append (as bs : Attributes) :
    Keyed.names (as ++ bs) = Keyed.names as ++ Keyed.names bs := List.map_append

theorem names_buttonAttributes (a : Option Animation) (b : Button) :
    (Keyed.names (buttonAttributes a b)).Sublist
      (["class", "disabled"] ++ ["on:click"] ++ ["style"]) := by
  rw [buttonAttributes, names_append, names_append]
  exact ((List.Sublist.refl _).append (names_on "click" _)).append (names_styled _)

theorem names_textAttributes (a : Option Animation) (t : TextBlock) :
    (Keyed.names (textAttributes a t)).Sublist ["class", "style"] :=
  (names_styled _).cons_cons "class"

theorem names_inputAttributes (a : Option Animation) (i : InputField) :
    (Keyed.names (inputAttributes a i)).Sublist
      (["type", "placeholder", "required", "disabled"] ++ ["on:change"] ++ ["on:input"] ++
        ["style"]) := by
  rw [inputAttributes, names_append, names_append, names_append]
  exact (((List.Sublist.refl _).append (names_on "change" _)).append (names_on "input" _)).append
    (names_styled _)

/-! ## The text of a component -/

theorem nodup_names_without {bs : Bindings} (h : (Keyed.names bs).Nodup) (field : String) :
    (Keyed.names (without field bs)).Nodup :=
  (List.filter_sublist.map _).nodup h

/-- The binding of the text is not among the attributes, unless they had its name before. -/
theorem notMem_names_of_bound {fixed as : Attributes} {bs : Bindings} {field : String}
    (h : Bound fixed (without field bs) as) (hfixed : field ∉ Keyed.names fixed) :
    field ∉ Keyed.names as := by
  rw [h.names, List.mem_append, not_or]
  refine ⟨hfixed, fun hmem => ?_⟩
  obtain ⟨b, hb, heq⟩ := List.mem_map.mp (List.mem_of_mem_filter hmem)
  have hne := (List.mem_filter.mp hb).2
  simp [heq] at hne

/-- What stands for a text that may be bound: a closure over its variable, or the text as a string
literal. -/
structure ShowsText (bs : Bindings) (field text shown : String) : Prop where
  bound : ∀ v, bs.lookup field = some v → shown = "\x7bmove || " ++ v ++ ".get()\x7d"
  literal : bs.lookup field = none → shown = "\"" ++ Escape.literal text ++ "\""

theorem showsText_textChild (bs : Bindings) (field text : String) :
    ShowsText bs field text (textChild field text bs) := by
  constructor
  case bound =>
    intro v hv
    have hopen : "\x7b" ++ "move || " = "\x7bmove || " := rfl
    have hclose : ".get()" ++ "\x7d" = ".get()\x7d" := rfl
    rw [textChild, hv, ← hopen, ← hclose]
    simp only [reactive, String.append_assoc]
  case literal =>
    intro hnone
    rw [textChild, hnone]
    rfl

/-- An element whose attributes and whose text may be bound, the text under `field`. -/
def BindsElement (name : String) (fixed : Attributes) (bs : Bindings) (field text : String)
    (ls : List Line) : Prop :=
  ∃ as shown, ls = [flat (element name (written as) shown)] ∧ Bound fixed (without field bs) as ∧
    field ∉ Keyed.names as ∧ ShowsText bs field text shown

theorem bindsElement {fixed : Attributes} {bs : Bindings} (name : String) {field : String}
    (text : String) {ls : List String} (hbs : (Keyed.names bs).Nodup)
    (hnames : (Keyed.names fixed).Sublist ls) (hls : ls.Nodup) (hfield : field ∉ ls) :
    BindsElement name fixed bs field text [flat (element name
      (written (bind fixed (without field bs))) (textChild field text bs))] := by
  have hbound := bound_bind (hnames.nodup hls) (nodup_names_without hbs field)
  have hnotMem := notMem_names_of_bound hbound fun hmem => hfield (hnames.subset hmem)
  exact ⟨_, _, rfl, hbound, hnotMem, showsText_textChild bs field text⟩

/-- In a view, the attributes of a button, a text or an input field have distinct names, whatever is
bound: first those that the component has anyway, in their order, then the others that are bound, in
the order of the bindings.  A bound attribute reads its variable, and any other one stays as it was.
A bound label or content is read between the tags, where it would be a string literal otherwise, and
is no attribute. -/
theorem bindings_replace (a : Option Animation) :
    (∀ b : Button, (Keyed.names b.bindings).Nodup →
      BindsElement "button" (buttonAttributes a b) b.bindings "label" b.label
        (leaf a (.button b))) ∧
    (∀ t : TextBlock, (Keyed.names t.bindings).Nodup →
      BindsElement (Choice.name t.tag) (textAttributes a t) t.bindings "content" t.content
        (leaf a (.text t))) ∧
    ∀ i : InputField, (Keyed.names i.bindings).Nodup →
      ∃ as, leaf a (.input i) = [flat (emptyTag "input" (written as))] ∧
        Bound (inputAttributes a i) i.bindings as := by
  refine ⟨fun b hb => ?_, fun t ht => ?_, fun i hi => ?_⟩
  · exact bindsElement "button" b.label hb (names_buttonAttributes a b) (by decide) (by decide)
  · exact bindsElement _ t.content ht (names_textAttributes a t) (by decide) (by decide)
  · exact ⟨_, rfl, bound_bind ((names_inputAttributes a i).nodup (by decide)) hi⟩

/-- A button whose class, handler and label are bound, in an order of their own, together with a
name that no button has. -/
theorem bindings_replace_sample :
    let b : Button := { label := "Go", onClick := some "f", bindings :=
      [("on:click", "g"), ("title", "t"), ("label", "l"), ("class", "c")] }
    (Keyed.names b.bindings).Nodup ∧ ∃ as shown,
      leaf none (.button b) = [flat (element "button" (written as) shown)] ∧
        Keyed.names as = ["class", "disabled", "on:click", "title"] ∧
        as.lookup "on:click" = some "move || g.get()" ∧ as.lookup "disabled" = some "false" ∧
        shown = "\x7bmove || l.get()\x7d" := by
  intro b
  have hb : (Keyed.names b.bindings).Nodup := by decide
  obtain ⟨hbutton, -, -⟩ := bindings_replace none
  obtain ⟨as, shown, hleaf, hbound, -, hshown⟩ := hbutton b hb
  refine ⟨hb, as, shown, hleaf, hbound.names.trans (by decide), ?_, ?_, ?_⟩
  · exact (hbound.bound "on:click" "g" (by decide)).trans (by decide)
  · exact (hbound.unbound "disabled" (by decide)).trans (by decide)
  · exact (hshown.bound "l" (by decide)).trans (by decide)

end Leptos

end PageDesign
