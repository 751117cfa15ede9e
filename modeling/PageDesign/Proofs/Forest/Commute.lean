/-
# PageDesign.Proofs.Forest.Commute -- edits of different components can be made in either order

An edit that names a component looks for the first one that has the identity and changes the
sequence in which that one stands.  What it makes of a forest can also be told without a search
and without positions: every component that has the identity gives way (`exchangeEach`), and
where the identity occurs once that is the same.  In this form two edits commute as soon as each
does the same to what the other one puts in (`exchangeEach_comm`).

`edits_commute` has the edits themselves.  The second of two edits runs in the forest that the
first one has made, so what is shown for each order is also that the second component is found
there.  That updates keep the place of their components is not enough for them to commute: one
that reads what is below its component may find it before or after the other one
(`updates_disagree`).
-/
import PageDesign.Component.Patch
import PageDesign.Proofs.Forest.Splice

namespace PageDesign

variable {ι : Type}

namespace Component

/-- A component is known from its own fields and its children. -/
theorem eq_of_bare_of_children {c d : Component ι} (hbare : c.bare = d.bare)
    (hchildren : c.children = d.children) : c = d :=
  calc c = c.bare.withChildren c.children := by
        rw [bare, withChildren_withChildren, withChildren_children]
    _ = d.bare.withChildren d.children := by rw [hbare, hchildren]
    _ = d := by rw [bare, withChildren_withChildren, withChildren_children]

end Component

namespace Forest

/-- Two edits can be made in either order, with one result. -/
def Commutes (first second : Forest ι → Option (Forest ι)) (f : Forest ι) : Prop :=
  ∃ g, (first f).bind second = some g ∧ (second f).bind first = some g

theorem Commutes.of_eq_some {first second : Forest ι → Option (Forest ι)} {f fa fb g : Forest ι}
    (hfirst : first f = some fa) (hfa : second fa = some g) (hsecond : second f = some fb)
    (hfb : first fb = some g) : Commutes first second f := by
  refine ⟨g, ?_, ?_⟩
  · rw [hfirst, Option.bind_some, hfa]
  · rw [hsecond, Option.bind_some, hfb]

variable [DecidableEq ι]

/-! ## Components that give way -/

mutual

/-- What becomes of a tree in which every component with an identity gives way to others. -/
def exchangeIn (id : ι) (new : Component ι → Forest ι) : Component ι → Forest ι
  | .leaf i a l => if i = id then new (.leaf i a l) else [.leaf i a l]
  | .branch i a f cs =>
    if i = id then new (.branch i a f cs) else [.branch i a f (exchangeEach id new cs)]

/-- A forest in which every component with an identity gives way to others. -/
def exchangeEach (id : ι) (new : Component ι → Forest ι) : Forest ι → Forest ι
  | [] => []
  | c :: cs => exchangeIn id new c ++ exchangeEach id new cs

end

section ExchangeEach

variable {a b id : ι} {new : Component ι → Forest ι}

theorem exchangeEach_cons_of_eq {c : Component ι} (h : c.id = id) (cs : Forest ι) :
    exchangeEach id new (c :: cs) = new c ++ exchangeEach id new cs := by
  cases c <;> exact congrArg (· ++ _) (if_pos h)

theorem exchangeEach_cons_of_ne {c : Component ι} (h : c.id ≠ id) (cs : Forest ι) :
    exchangeEach id new (c :: cs) =
      c.withChildren (exchangeEach id new c.children) :: exchangeEach id new cs := by
  cases c <;> exact congrArg (· ++ _) (if_neg h)

@[simp] theorem exchangeEach_append (f g : Forest ι) :
    exchangeEach id new (f ++ g) = exchangeEach id new f ++ exchangeEach id new g := by
  induction f with
  | nil => rfl
  | cons c cs ih => rw [List.cons_append, exchangeEach, exchangeEach, ih, List.append_assoc]

theorem children_withChildren_exchangeEach (c : Component ι) :
    (c.withChildren (exchangeEach id new c.children)).children =
      exchangeEach id new c.children := by
  cases c <;> rfl

theorem exchangeEach_of_notMem {f : Forest ι} (h : id ∉ f.ids) : exchangeEach id new f = f := by
  induction f using Forest.induction with
  | nil => rfl
  | cons c cs ihc ihcs =>
      rw [ids_cons, List.mem_cons, List.mem_append, not_or, not_or] at h
      obtain ⟨hid, hchildren, hcs⟩ := h
      rw [exchangeEach_cons_of_ne (Ne.symm hid), ihc hchildren, ihcs hcs,
        Component.withChildren_children]

theorem exchangeEach_congr {f : Forest ι} {new' : Component ι → Forest ι}
    (h : ∀ c ∈ f.nodes, c.id = id → new c = new' c) :
    exchangeEach id new f = exchangeEach id new' f := by
  induction f using Forest.induction with
  | nil => rfl
  | cons c cs ihc ihcs =>
      simp only [nodes_cons, List.mem_cons, List.mem_append] at h
      have hcs := ihcs fun d hd => h d (.inr (.inr hd))
      by_cases hid : c.id = id
      · rw [exchangeEach_cons_of_eq hid, exchangeEach_cons_of_eq hid, h c (.inl rfl) hid, hcs]
      · rw [exchangeEach_cons_of_ne hid, exchangeEach_cons_of_ne hid, hcs,
          ihc fun d hd => h d (.inr (.inl hd))]

/-- Two exchanges commute if each does the same to what the other one puts in, before and after
the exchanges below. -/
theorem exchangeEach_comm {first second : Component ι → Forest ι} (hab : a ≠ b) (f : Forest ι)
    (hfirst : ∀ c ∈ f.nodes, c.id = a → exchangeEach b second (first c) =
      first (c.withChildren (exchangeEach b second c.children)))
    (hsecond : ∀ c ∈ f.nodes, c.id = b → exchangeEach a first (second c) =
      second (c.withChildren (exchangeEach a first c.children))) :
    exchangeEach b second (exchangeEach a first f) =
      exchangeEach a first (exchangeEach b second f) := by
  induction f using Forest.induction with
  | nil => rfl
  | cons c cs ihc ihcs =>
      simp only [nodes_cons, List.mem_cons, List.mem_append] at hfirst hsecond
      have hcs := ihcs (fun d hd => hfirst d (.inr (.inr hd))) fun d hd =>
        hsecond d (.inr (.inr hd))
      have hid (es : Forest ι) : (c.withChildren es).id = c.id := Component.id_withChildren es c
      by_cases ha : c.id = a
      · have hb : c.id ≠ b := fun hb => hab (ha.symm.trans hb)
        rw [exchangeEach_cons_of_eq ha, exchangeEach_append, hfirst c (.inl rfl) ha, hcs,
          exchangeEach_cons_of_ne hb, exchangeEach_cons_of_eq ((hid _).trans ha)]
      · by_cases hb : c.id = b
        · rw [exchangeEach_cons_of_ne ha, exchangeEach_cons_of_eq ((hid _).trans hb),
            exchangeEach_cons_of_eq hb, exchangeEach_append, hsecond c (.inl rfl) hb, hcs]
        · have hbelow := ihc (fun d hd => hfirst d (.inr (.inl hd))) fun d hd =>
            hsecond d (.inr (.inl hd))
          rw [exchangeEach_cons_of_ne ha, exchangeEach_cons_of_ne (by rwa [hid]),
            exchangeEach_cons_of_ne hb, exchangeEach_cons_of_ne (by rwa [hid]),
            children_withChildren_exchangeEach, children_withChildren_exchangeEach,
            Component.withChildren_withChildren, Component.withChildren_withChildren, hbelow, hcs]

/-! ## What is found afterwards -/

theorem get_of_notMem {f : Forest ι} (h : id ∉ f.ids) : f.get? id = none := by
  rwa [← Option.not_isSome_iff_eq_none, get_isSome_iff]

theorem get_append (f g : Forest ι) (id : ι) :
    (f ++ g).get? id = (f.get? id).or (g.get? id) := by
  rw [get_eq_find, get_eq_find, get_eq_find, nodes_append, List.find?_append]

theorem get_cons_of_ne {c : Component ι} (h : c.id ≠ id) (cs : Forest ι) :
    get? (c :: cs) id = (c.children.get? id).or (cs.get? id) := by
  rw [get_eq_find, get_eq_find, get_eq_find, nodes_cons, List.find?_cons_of_neg,
    List.find?_append]
  simpa using h

/-- Another component is found as before, with the exchanges made below it, if this holds of what
is put in. -/
theorem get_exchangeEach (hab : a ≠ b) (f : Forest ι)
    (h : ∀ d ∈ f.nodes, d.id = b → (new d).get? a =
      (d.children.get? a).map fun c => c.withChildren (exchangeEach b new c.children)) :
    (exchangeEach b new f).get? a =
      (f.get? a).map fun c => c.withChildren (exchangeEach b new c.children) := by
  induction f using Forest.induction with
  | nil => rfl
  | cons c cs ihc ihcs =>
      simp only [nodes_cons, List.mem_cons, List.mem_append] at h
      have hcs := ihcs fun d hd => h d (.inr (.inr hd))
      have hid (es : Forest ι) : (c.withChildren es).id = c.id := Component.id_withChildren es c
      by_cases ha : c.id = a
      · subst ha
        rw [exchangeEach_cons_of_ne hab, get_cons_self, Option.map_some]
        exact (congrArg _ (hid _).symm).trans (get_cons_self _ _)
      · rw [get_cons_of_ne ha]
        by_cases hb : c.id = b
        · rw [exchangeEach_cons_of_eq hb, get_append, h c (.inl rfl) hb, hcs, Option.map_or]
        · rw [exchangeEach_cons_of_ne hb, get_cons_of_ne (by rwa [hid]),
            children_withChildren_exchangeEach, ihc fun d hd => h d (.inr (.inl hd)), hcs,
            Option.map_or]

/-- A component that gives way to one with its identity is found as that one. -/
theorem get_exchangeEach_self {m : Component ι → Component ι} (hm : ∀ c, (m c).id = c.id)
    (f : Forest ι) : (exchangeEach id (fun c => [m c]) f).get? id = (f.get? id).map m := by
  induction f using Forest.induction with
  | nil => rfl
  | cons c cs ihc ihcs =>
      by_cases hid : c.id = id
      · subst hid
        rw [exchangeEach_cons_of_eq rfl, get_cons_self, Option.map_some]
        exact (congrArg _ (hm c).symm).trans (get_cons_self _ _)
      · have hid' : (c.withChildren (exchangeEach id (fun c => [m c]) c.children)).id ≠ id := by
          rwa [Component.id_withChildren]
        rw [exchangeEach_cons_of_ne hid, get_cons_of_ne hid, get_cons_of_ne hid',
          children_withChildren_exchangeEach, ihc, ihcs, Option.map_or]

end ExchangeEach

/-! ## Edits where an identity occurs once -/

/-- To exchange what stands at the address found for an identity is to let every component with
the identity give way, if there is but one. -/
theorem exchangeAt_eq_exchangeEach {f : Forest ι} {id : ι} {a : Address}
    (h : f.locate? id = some a) (hcount : f.ids.count id ≤ 1) (cs : Forest ι) :
    f.exchangeAt a cs = exchangeEach id (fun _ => cs) f := by
  induction f using Forest.induction_children generalizing a with
  | step f ih =>
      obtain ⟨pre, c, post, rfl, hpre, hc⟩ := locateFrom_eq_some h
      rw [ids_append, ids_cons, List.count_append, List.count_cons, List.count_append] at hcount
      rw [exchangeEach_append, exchangeEach_of_notMem hpre]
      rw [Nat.zero_add, locateIn_eq] at hc
      split at hc
      next hid =>
        cases hc
        have hpost : id ∉ ids post := by
          rw [← List.count_eq_zero]
          simp only [hid, beq_self_eq_true, if_true] at hcount
          omega
        rw [exchangeAt_root, exchangeEach_cons_of_eq hid, exchangeEach_of_notMem hpost,
          List.append_assoc]
      next hid =>
        obtain ⟨b, hb, rfl⟩ := Option.map_eq_some_iff.mp hc
        have hbelow : id ∈ ids c.children := locate_isSome_iff.mp (by rw [locate?, hb]; rfl)
        have hpos : 0 < (ids c.children).count id := List.count_pos_iff.mpr hbelow
        have hpost : id ∉ ids post := by
          rw [← List.count_eq_zero]
          omega
        rw [exchangeAt_below, exchangeEach_cons_of_ne hid, exchangeEach_of_notMem hpost,
          ih c (by simp) hb (by omega)]

section Once

variable {f : Forest ι} {id : ι} {c : Component ι}

theorem remove_eq_exchangeEach (hcount : f.ids.count id ≤ 1) (h : f.get? id = some c) :
    f.remove? id = some (c, exchangeEach id (fun _ => []) f) := by
  obtain ⟨a, ha, hc, -⟩ := get_eq_some h
  rw [remove?, ha, Option.bind_eq_bind, Option.bind_some, hc.at?, Option.bind_eq_bind,
    Option.bind_some, removeAt_eq, exchangeAt_eq_exchangeEach ha hcount]
  rfl

theorem replace_eq_exchangeEach (hcount : f.ids.count id ≤ 1) (h : f.get? id = some c)
    (new : Component ι) : f.replace? id new = some (exchangeEach id (fun _ => [new]) f) := by
  obtain ⟨a, ha, hc, -⟩ := get_eq_some h
  rw [replace?, ha, Option.map_some, hc.replaceAt_eq, exchangeAt_eq_exchangeEach ha hcount]

theorem update_eq_replace (h : f.get? id = some c) (m : Component ι → Component ι) :
    f.update? id m = f.replace? id (m c) := by
  obtain ⟨a, ha, hc, -⟩ := get_eq_some h
  rw [update?, replace?, ha, Option.bind_eq_bind, Option.bind_some, hc.at?]
  rfl

end Once

theorem get_of_mem_nodes {f : Forest ι} (hf : f.ids.Nodup) {c : Component ι}
    (hc : c ∈ f.nodes) : f.get? c.id = some c := by
  obtain ⟨d, hd⟩ := Option.isSome_iff_exists.mp (get_isSome_iff.mpr (List.mem_map_of_mem hc))
  obtain ⟨-, -, -, hid⟩ := get_eq_some hd
  rw [hd, List.inj_on_of_nodup_map hf (mem_nodes_of_get hd) hc hid]

/-- Where no identity occurs twice, whatever has an identity is what is got for it. -/
theorem eq_of_get {f : Forest ι} (hf : f.ids.Nodup) {id : ι} {c d : Component ι}
    (hget : f.get? id = some c) (hd : d ∈ f.nodes) (hid : d.id = id) : d = c := by
  rw [← hid, get_of_mem_nodes hf hd] at hget
  exact Option.some.inj hget

/-- Where no identity occurs twice, what is below a component occurs nowhere else. -/
theorem nodup_ids_of_mem_nodes {f : Forest ι} (hf : f.ids.Nodup) {c : Component ι}
    (hc : c ∈ f.nodes) : c.id ∉ ids c.children ∧ (ids c.children).Nodup := by
  obtain ⟨r, hr⟩ := exists_comprises_of_get (get_of_mem_nodes hf hc)
  have hnodup : (ids [c]).Nodup := (hr.nodup_iff.mp hf).1
  rwa [ids_cons, ids_nil, List.append_nil, List.nodup_cons] at hnodup

/-! ## Changes that leave a component in its place -/

/-- A change of a component keeps its identity and its children. -/
structure KeepsPlace (m : Component ι → Component ι) : Prop where
  id : ∀ c, (m c).id = c.id
  children : ∀ c, (m c).children = c.children

/-- A change of a component is one of its own fields: it keeps the identity and the children, and
what it makes of the other fields does not depend on the children. -/
structure OwnFields (m : Component ι → Component ι) : Prop extends KeepsPlace m where
  bare : ∀ c cs, (m (c.withChildren cs)).bare = (m c).bare

section KeepsPlace

variable {f : Forest ι} {a b : ι} {ca cb : Component ι} {m n : Component ι → Component ι}

theorem KeepsPlace.ids_exchangeEach (hm : KeepsPlace m) (id : ι) (f : Forest ι) :
    ids (exchangeEach id (fun c => [m c]) f) = f.ids := by
  induction f using Forest.induction with
  | nil => rfl
  | cons c cs ihc ihcs =>
      by_cases hid : c.id = id
      · rw [exchangeEach_cons_of_eq hid, List.singleton_append, ids_cons, ids_cons, hm.id,
          hm.children, ihcs]
      · rw [exchangeEach_cons_of_ne hid, ids_cons, ids_cons, Component.id_withChildren,
          children_withChildren_exchangeEach, ihc, ihcs]

theorem update_eq_exchangeEach (hf : f.ids.Nodup) (ha : f.get? a = some ca)
    (m : Component ι → Component ι) :
    f.update? a m = some (exchangeEach a (fun c => [m c]) f) := by
  have hcount : f.ids.count a ≤ 1 := List.nodup_iff_count_le_one.mp hf a
  rw [update_eq_replace ha, replace_eq_exchangeEach hcount ha]
  congr 1
  refine exchangeEach_congr fun c hc hid => ?_
  rw [eq_of_get hf ha hc hid]

/-- After an update another component is found with the same fields. -/
theorem KeepsPlace.get_exchangeEach (hn : KeepsPlace n) (hf : f.ids.Nodup) (hab : a ≠ b)
    (ha : f.get? a = some ca) : (exchangeEach b (fun c => [n c]) f).get? a =
      some (ca.withChildren (exchangeEach b (fun c => [n c]) ca.children)) := by
  rw [Forest.get_exchangeEach hab, ha, Option.map_some]
  intro d hd hid
  obtain ⟨hnot, -⟩ := nodup_ids_of_mem_nodes hf hd
  have hne : (n d).id ≠ a := by
    rw [hn.id, hid]
    exact hab.symm
  rw [get_cons_of_ne hne, hn.children]
  -- below the component that is updated its identity does not come again
  cases hget : d.children.get? a with
  | none => rfl
  | some c =>
      have hbelow : b ∉ ids c.children := by
        intro hb
        rw [hid] at hnot
        exact hnot (mem_ids_of_mem_nodes (mem_nodes_of_get hget) (mem_ids_singleton.mpr (.inr hb)))
      rw [Option.map_some, exchangeEach_of_notMem hbelow, Component.withChildren_children]
      rfl

/-- An exchange below a component and an update of it commute if the update makes the same fields
before and after. -/
theorem KeepsPlace.exchangeEach_singleton (hm : KeepsPlace m) {new : Component ι → Forest ι}
    {c : Component ι} (hc : c.id ≠ b)
    (hbare : (m (c.withChildren (exchangeEach b new c.children))).bare = (m c).bare) :
    exchangeEach b new [m c] = [m (c.withChildren (exchangeEach b new c.children))] := by
  have hne : (m c).id ≠ b := by rwa [hm.id]
  rw [exchangeEach_cons_of_ne hne]
  refine congrArg (· :: []) (Component.eq_of_bare_of_children ?_ ?_)
  · rw [Component.bare_withChildren, hbare]
  · rw [children_withChildren_exchangeEach, hm.children, hm.children,
      children_withChildren_exchangeEach]

/-- Two updates of different components are made in either order.  Both orders make the same
forest exactly if each update makes the same fields of its component whether or not the other one
came before. -/
theorem updates_agree_iff (hf : f.ids.Nodup) (hab : a ≠ b) (ha : f.get? a = some ca)
    (hb : f.get? b = some cb) (hm : KeepsPlace m) (hn : KeepsPlace n) :
    let cs := exchangeEach b (fun c => [n c]) ca.children
    let ds := exchangeEach a (fun c => [m c]) cb.children
    ∃ fa fb fab fba, f.update? a m = some fa ∧ fa.update? b n = some fab ∧
      f.update? b n = some fb ∧ fb.update? a m = some fba ∧
      fb.get? a = some (ca.withChildren cs) ∧ fa.get? b = some (cb.withChildren ds) ∧
      (fab = fba ↔ (m (ca.withChildren cs)).bare = (m ca).bare ∧
        (n (cb.withChildren ds)).bare = (n cb).bare) := by
  let ea (g : Forest ι) : Forest ι := exchangeEach a (fun c => [m c]) g
  let eb (g : Forest ι) : Forest ι := exchangeEach b (fun c => [n c]) g
  have hfa : (ids (ea f)).Nodup := by rwa [hm.ids_exchangeEach]
  have hfb : (ids (eb f)).Nodup := by rwa [hn.ids_exchangeEach]
  have hgeta : (eb f).get? a = some (ca.withChildren (eb ca.children)) :=
    hn.get_exchangeEach hf hab ha
  have hgetb : (ea f).get? b = some (cb.withChildren (ea cb.children)) :=
    hm.get_exchangeEach hf hab.symm hb
  refine ⟨ea f, eb f, eb (ea f), ea (eb f), update_eq_exchangeEach hf ha m,
    update_eq_exchangeEach hfa hgetb n, update_eq_exchangeEach hf hb n,
    update_eq_exchangeEach hfb hgeta m, hgeta, hgetb, ?_, ?_⟩
  · -- each component is looked up in both forests
    intro hagree
    have hma : (ea f).get? a = some (m ca) := by
      rw [get_exchangeEach_self hm.id, ha, Option.map_some]
    have hnb : (eb f).get? b = some (n cb) := by
      rw [get_exchangeEach_self hn.id, hb, Option.map_some]
    have hleft : (ea (eb f)).get? a = some (m (ca.withChildren (eb ca.children))) := by
      rw [get_exchangeEach_self hm.id, hgeta, Option.map_some]
    have hright : (eb (ea f)).get? b = some (n (cb.withChildren (ea cb.children))) := by
      rw [get_exchangeEach_self hn.id, hgetb, Option.map_some]
    constructor
    · have hother := hn.get_exchangeEach hfa hab hma
      change (eb (ea f)).get? a = _ at hother
      rw [hagree, hleft] at hother
      rw [Option.some.inj hother, Component.bare_withChildren]
    · have hother := hm.get_exchangeEach hfb hab.symm hnb
      change (ea (eb f)).get? b = _ at hother
      rw [← hagree, hright] at hother
      rw [Option.some.inj hother, Component.bare_withChildren]
  · rintro ⟨hbarea, hbareb⟩
    refine exchangeEach_comm hab f ?_ ?_
    · intro c hc hid
      obtain rfl := eq_of_get hf ha hc hid
      exact hm.exchangeEach_singleton (by rwa [hid]) hbarea
    · intro c hc hid
      obtain rfl := eq_of_get hf hb hc hid
      exact hn.exchangeEach_singleton (by rw [hid]; exact hab.symm) hbareb

/-- Updates that make the same fields of a component whatever is below it commute. -/
theorem OwnFields.commutes (hm : OwnFields m) (hn : OwnFields n) (hf : f.ids.Nodup) (hab : a ≠ b)
    (ha : f.get? a = some ca) (hb : f.get? b = some cb) :
    Commutes (update? · a m) (update? · b n) f := by
  obtain ⟨fa, fb, fab, fba, hfa, hfab, hfb, hfba, -, -, hagree⟩ :=
    updates_agree_iff hf hab ha hb hm.toKeepsPlace hn.toKeepsPlace
  obtain rfl := hagree.mpr ⟨hm.bare ca _, hn.bare cb _⟩
  exact Commutes.of_eq_some hfa hfab hfb hfba

/-- Updates of components, neither of which is below the other, commute. -/
theorem KeepsPlace.commutes (hm : KeepsPlace m) (hn : KeepsPlace n) (hf : f.ids.Nodup)
    (hab : a ≠ b) (ha : f.get? a = some ca) (hb : f.get? b = some cb)
    (hca : b ∉ ids ca.children) (hcb : a ∉ ids cb.children) :
    Commutes (update? · a m) (update? · b n) f := by
  obtain ⟨fa, fb, fab, fba, hfa, hfab, hfb, hfba, -, -, hagree⟩ :=
    updates_agree_iff hf hab ha hb hm hn
  rw [exchangeEach_of_notMem hca, exchangeEach_of_notMem hcb, Component.withChildren_children,
    Component.withChildren_children] at hagree
  obtain rfl := hagree.mpr ⟨rfl, rfl⟩
  exact Commutes.of_eq_some hfa hfab hfb hfba

end KeepsPlace

/-- A patch that names neither the identity nor the children is a change of own fields. -/
theorem ownFields_assign {named : List String} (hid : "id" ∉ named)
    (hchildren : "children" ∉ named) (new : Component Id) : OwnFields (Patch.assign named new) := by
  constructor
  case toKeepsPlace =>
    constructor
    case id =>
      intro c
      cases new <;> cases c <;> simp [Patch.assign, Patch.pick, Component.id, hid]
    case children =>
      intro c
      cases new <;> cases c <;> simp [Patch.assign, Patch.pick, Component.children, hchildren]
  case bare =>
    intro c cs
    cases new <;> cases c <;>
      simp [Patch.assign, Patch.pick, Component.bare, Component.withChildren]

/-! ## Removals and replacements -/

section Apart

variable {f : Forest ι} {a b : ι} {ca cb : Component ι}

theorem count_ids_exchangeEach_le {new : Forest ι} (hnew : b ∉ ids new) (f : Forest ι) :
    (ids (exchangeEach a (fun _ => new) f)).count b ≤ f.ids.count b := by
  induction f using Forest.induction with
  | nil => exact Nat.le_refl _
  | cons c cs ihc ihcs =>
      by_cases ha : c.id = a
      · rw [exchangeEach_cons_of_eq ha, ids_append, ids_cons, List.count_append, List.count_cons,
          List.count_append, List.count_eq_zero.mpr hnew]
        omega
      · rw [exchangeEach_cons_of_ne ha, ids_cons, ids_cons, Component.id_withChildren,
          children_withChildren_exchangeEach, List.count_cons, List.count_append, List.count_cons,
          List.count_append]
        omega

/-- Two trees give way to others in either order, if neither of the identities comes back with what
is put in. -/
theorem exchangeEach_comm_const (hab : a ≠ b) {new new' : Forest ι} (hnew : b ∉ ids new)
    (hnew' : a ∉ ids new') (f : Forest ι) :
    exchangeEach b (fun _ => new') (exchangeEach a (fun _ => new) f) =
      exchangeEach a (fun _ => new) (exchangeEach b (fun _ => new') f) := by
  refine exchangeEach_comm hab f ?_ ?_
  · intro c _ _
    exact exchangeEach_of_notMem hnew
  · intro c _ _
    exact exchangeEach_of_notMem hnew'

/-- A component outside of the tree that gives way is found as it was and occurs once, if what is
below it does not give way. -/
theorem found_exchangeEach_apart (hf : f.ids.Nodup) (hab : a ≠ b) (ha : f.get? a = some ca)
    (hb : f.get? b = some cb) (hca : b ∉ ids ca.children) (hcb : a ∉ ids cb.children)
    {new : Forest ι} (hnew : b ∉ ids new) :
    (exchangeEach a (fun _ => new) f).get? b = some cb ∧
      (ids (exchangeEach a (fun _ => new) f)).count b ≤ 1 := by
  constructor
  · rw [get_exchangeEach hab.symm, hb, Option.map_some, exchangeEach_of_notMem hcb,
      Component.withChildren_children]
    intro d hd hid
    obtain rfl := eq_of_get hf ha hd hid
    rw [get_of_notMem hnew, get_of_notMem hca, Option.map_none]
  · exact Nat.le_trans (count_ids_exchangeEach_le hnew f) (List.nodup_iff_count_le_one.mp hf b)

/-- Two components, neither of which is below the other, can be removed in either order. -/
theorem exists_remove_remove (hf : f.ids.Nodup) (hab : a ≠ b) (ha : f.get? a = some ca)
    (hb : f.get? b = some cb) (hca : b ∉ ids ca.children) (hcb : a ∉ ids cb.children) :
    ∃ fa fb g, f.remove? a = some (ca, fa) ∧ fa.remove? b = some (cb, g) ∧
      f.remove? b = some (cb, fb) ∧ fb.remove? a = some (ca, g) := by
  have hcount (id : ι) : f.ids.count id ≤ 1 := List.nodup_iff_count_le_one.mp hf id
  have hnil (id : ι) : id ∉ ids ([] : Forest ι) := by simp
  obtain ⟨hgetb, hcountb⟩ := found_exchangeEach_apart hf hab ha hb hca hcb (hnil b)
  obtain ⟨hgeta, hcounta⟩ := found_exchangeEach_apart hf hab.symm hb ha hcb hca (hnil a)
  refine ⟨_, _, _, remove_eq_exchangeEach (hcount a) ha, remove_eq_exchangeEach hcountb hgetb,
    remove_eq_exchangeEach (hcount b) hb, ?_⟩
  rw [exchangeEach_comm_const hab (hnil b) (hnil a)]
  exact remove_eq_exchangeEach hcounta hgeta

/-- Two components, neither of which is below the other, can be replaced in either order by trees
in which the identity of the other one does not occur. -/
theorem replace_commutes (hf : f.ids.Nodup) (hab : a ≠ b) (ha : f.get? a = some ca)
    (hb : f.get? b = some cb) (hca : b ∉ ids ca.children) (hcb : a ∉ ids cb.children)
    {x y : Component ι} (hx : b ∉ ids [x]) (hy : a ∉ ids [y]) :
    Commutes (replace? · a x) (replace? · b y) f := by
  have hcount (id : ι) : f.ids.count id ≤ 1 := List.nodup_iff_count_le_one.mp hf id
  obtain ⟨hgetb, hcountb⟩ := found_exchangeEach_apart hf hab ha hb hca hcb hx
  obtain ⟨hgeta, hcounta⟩ := found_exchangeEach_apart hf hab.symm hb ha hcb hca hy
  apply Commutes.of_eq_some
  case hfirst => exact replace_eq_exchangeEach (hcount a) ha x
  case hfa => exact replace_eq_exchangeEach hcountb hgetb y
  case hsecond => exact replace_eq_exchangeEach (hcount b) hb y
  case hfb =>
    rw [exchangeEach_comm_const hab hx hy]
    exact replace_eq_exchangeEach hcounta hgeta x

end Apart

section Below

variable {f : Forest ι} {a b : ι} {ca cb : Component ι}

/-- Where no identity occurs twice, what is below a component is also found from there. -/
theorem get_children_of_mem (hf : f.ids.Nodup) (ha : f.get? a = some ca) (hb : f.get? b = some cb)
    (hbelow : b ∈ ids ca.children) : ca.children.get? b = some cb := by
  obtain ⟨d, hd⟩ := Option.isSome_iff_exists.mp (get_isSome_iff.mpr hbelow)
  obtain ⟨-, -, -, hid⟩ := get_eq_some hd
  have hdf : d ∈ f.nodes := by
    apply mem_nodes_of_mem_nodes (mem_nodes_of_get ha)
    rw [nodes_cons, nodes_nil, List.append_nil]
    exact List.mem_cons_of_mem _ (mem_nodes_of_get hd)
  rw [hd, eq_of_get hf hb hdf hid]

/-- Where no identity occurs twice, of two components at most one is below the other. -/
theorem notMem_ids_of_mem_ids (hf : f.ids.Nodup) (ha : f.get? a = some ca)
    (hb : f.get? b = some cb) (hbelow : b ∈ ids ca.children) : a ∉ ids cb.children := by
  have hnode : cb ∈ nodes ca.children := mem_nodes_of_get (get_children_of_mem hf ha hb hbelow)
  obtain ⟨hself, -⟩ := nodup_ids_of_mem_nodes hf (mem_nodes_of_get ha)
  obtain ⟨-, -, -, hid⟩ := get_eq_some ha
  rw [hid] at hself
  intro hmem
  exact hself (mem_ids_of_mem_nodes hnode (mem_ids_singleton.mpr (.inr hmem)))

/-- The removal of a component that is below another one makes no difference once the other one is
removed as well: what leaves then is the other one without it. -/
theorem exists_remove_below (hf : f.ids.Nodup) (hab : a ≠ b) (ha : f.get? a = some ca)
    (hb : f.get? b = some cb) (hbelow : b ∈ ids ca.children) :
    ∃ fa fb cs, f.remove? a = some (ca, fa) ∧ f.remove? b = some (cb, fb) ∧
      ca.children.remove? b = some (cb, cs) ∧ fb.remove? a = some (ca.withChildren cs, fa) := by
  let ea (g : Forest ι) : Forest ι := exchangeEach a (fun _ => []) g
  let eb (g : Forest ι) : Forest ι := exchangeEach b (fun _ => []) g
  have hcount (id : ι) : f.ids.count id ≤ 1 := List.nodup_iff_count_le_one.mp hf id
  have hnil (id : ι) : id ∉ ids ([] : Forest ι) := by simp
  have hcounta : (ids (eb f)).count a ≤ 1 :=
    Nat.le_trans (count_ids_exchangeEach_le (hnil a) f) (hcount a)
  have hcountb : (ids ca.children).count b ≤ 1 := by
    obtain ⟨-, hnodup⟩ := nodup_ids_of_mem_nodes hf (mem_nodes_of_get ha)
    exact List.nodup_iff_count_le_one.mp hnodup b
  have hremove : f.remove? a = some (ca, ea f) := remove_eq_exchangeEach (hcount a) ha
  have hgeta : (eb f).get? a = some (ca.withChildren (eb ca.children)) := by
    rw [get_exchangeEach hab, ha, Option.map_some]
    intro d hd hid
    obtain rfl := eq_of_get hf hb hd hid
    rw [get_of_notMem (notMem_ids_of_mem_ids hf ha hb hbelow)]
    rfl
  have hsame : ea f = ea (eb f) := by
    -- the component below has left with the other one, so there is nothing to remove after it
    have hout : b ∉ ids (ea f) :=
      ((comprises_remove hremove).nodup_iff.mp hf).2.2 b (mem_ids_singleton.mpr (.inr hbelow))
    calc ea f = eb (ea f) := (exchangeEach_of_notMem hout).symm
      _ = ea (eb f) := exchangeEach_comm_const hab (hnil b) (hnil a) f
  refine ⟨ea f, eb f, eb ca.children, hremove, remove_eq_exchangeEach (hcount b) hb,
    remove_eq_exchangeEach hcountb (get_children_of_mem hf ha hb hbelow), ?_⟩
  rw [hsame]
  exact remove_eq_exchangeEach hcounta hgeta

end Below

/-- Where no identity occurs twice, edits of two different components do not depend on their
order.  Two updates that keep the place of their component can be made in either order, whether or
not one component is below the other; the two orders agree exactly if each update makes the same
fields of its component before and after the other one, as it does if it looks at nothing but the
own fields or if neither component is below the other.  In the latter case two removals take out
the same trees and leave the same forest in either order, and so do two replacements, if neither
of the trees that come in has the identity of the other component.  If one component is below the
other, its removal first leaves the forest that the removal of the other one alone leaves. -/
theorem edits_commute {f : Forest ι} (hf : f.ids.Nodup) {a b : ι} (hab : a ≠ b)
    {ca cb : Component ι} (ha : f.get? a = some ca) (hb : f.get? b = some cb) :
    (∀ m n, OwnFields m → OwnFields n → Commutes (update? · a m) (update? · b n) f) ∧
    (∀ m n, KeepsPlace m → KeepsPlace n → ∃ fa fb fab fba cs ds,
      f.update? a m = some fa ∧ fa.update? b n = some fab ∧
      f.update? b n = some fb ∧ fb.update? a m = some fba ∧
      fb.get? a = some (ca.withChildren cs) ∧ fa.get? b = some (cb.withChildren ds) ∧
      (fab = fba ↔ (m (ca.withChildren cs)).bare = (m ca).bare ∧
        (n (cb.withChildren ds)).bare = (n cb).bare)) ∧
    (b ∉ ids ca.children → a ∉ ids cb.children →
      (∀ m n, KeepsPlace m → KeepsPlace n → Commutes (update? · a m) (update? · b n) f) ∧
      (∃ fa fb g, f.remove? a = some (ca, fa) ∧ fa.remove? b = some (cb, g) ∧
        f.remove? b = some (cb, fb) ∧ fb.remove? a = some (ca, g)) ∧
      ∀ x y, b ∉ ids [x] → a ∉ ids [y] → Commutes (replace? · a x) (replace? · b y) f) ∧
    (b ∈ ids ca.children → ∃ fa fb cs, f.remove? a = some (ca, fa) ∧
      f.remove? b = some (cb, fb) ∧ ca.children.remove? b = some (cb, cs) ∧
      fb.remove? a = some (ca.withChildren cs, fa)) := by
  refine ⟨fun m n hm hn => hm.commutes hn hf hab ha hb, fun m n hm hn => ?_,
    fun hca hcb => ⟨fun m n hm hn => hm.commutes hn hf hab ha hb hca hcb,
      exists_remove_remove hf hab ha hb hca hcb,
      fun x y hx hy => replace_commutes hf hab ha hb hca hcb hx hy⟩,
    exists_remove_below hf hab ha hb⟩
  obtain ⟨fa, fb, fab, fba, hedits⟩ := updates_agree_iff hf hab ha hb hm hn
  exact ⟨fa, fb, fab, fba, _, _, hedits⟩

/-- A card is patched before or after the text in it.  The text and the button behind it are
removed in either order.  The card leaves without the text if the text was removed before. -/
theorem edits_commute_sample :
    let text : Component Id := .leaf "t" none (.text {})
    let button : Component Id := .leaf "b" none (.button {})
    let card (cs : Forest Id) : Component Id := .branch "a" none (.card {}) cs
    let flat : Component Id := .branch "-" none (.card { shadow := false }) []
    let greeting : Component Id := .leaf "-" none (.text { content := "Hello" })
    let f : Forest Id := [card [text, button]]
    f.ids.Nodup ∧
      Commutes (update? · "a" (Patch.assign ["shadow"] flat))
        (update? · "t" (Patch.assign ["content"] greeting)) f ∧
      (∃ ft fb, f.remove? "t" = some (text, ft) ∧ ft.remove? "b" = some (button, [card []]) ∧
        f.remove? "b" = some (button, fb) ∧ fb.remove? "t" = some (text, [card []])) ∧
      ∃ ft, f.remove? "t" = some (text, ft) ∧ ft.remove? "a" = some (card [button], []) := by
  intro text button card flat greeting f
  have hids : f.ids = ["a", "t", "b"] := by decide +kernel
  have hnodup : f.ids.Nodup := by rw [hids]; decide
  have hcard : f.get? "a" = some (card [text, button]) := rfl
  have htext : f.get? "t" = some text := rfl
  have hbutton : f.get? "b" = some button := rfl
  have hbelow : ids (card [text, button]).children = ["t", "b"] := by decide +kernel
  have hleaf (c : Component Id) (hc : c.children = []) (i : Id) : i ∉ ids c.children := by
    rw [hc]
    simp
  obtain ⟨hupdates, -, -, hremove⟩ :=
    edits_commute hnodup (a := "a") (b := "t") (by decide) hcard htext
  obtain ⟨-, -, hapart, -⟩ := edits_commute hnodup (a := "t") (b := "b") (by decide) htext hbutton
  obtain ⟨-, ⟨ft, fb, g, hft, hg, hfb, hg'⟩, -⟩ :=
    hapart (hleaf text rfl "b") (hleaf button rfl "t")
  obtain ⟨fa, ft', cs, hfa, hft', hcs, hlast⟩ := hremove (by rw [hbelow]; decide)
  have hleft : f.remove? "a" = some (card [text, button], []) := rfl
  have hthen : remove? [card [button]] "b" = some (button, [card []]) := rfl
  have hfirst : f.remove? "t" = some (text, [card [button]]) := rfl
  cases hfirst.symm.trans hft
  cases hthen.symm.trans hg
  cases hleft.symm.trans hfa
  cases hfirst.symm.trans hft'
  refine ⟨hnodup, ?_, ⟨_, fb, hft, hg, hfb, hg'⟩, _, hft', ?_⟩
  · exact hupdates _ _ (ownFields_assign (by decide) (by decide) flat)
      (ownFields_assign (by decide) (by decide) greeting)
  · have hcs' : (card [text, button]).children.remove? "t" = some (text, [button]) := rfl
    cases hcs'.symm.trans hcs
    exact hlast

/-! ## Updates that read what is below -/

/-- A container that has a button as its first child does on a click what the button is labelled
with. -/
def followLabel : Component Id → Component Id
  | .branch i a (.container k) (.leaf j x (.button b) :: cs) =>
    .branch i a (.container { k with onClick := some b.label }) (.leaf j x (.button b) :: cs)
  | c => c

/-- A button gets another label. -/
def relabel (label : String) : Component Id → Component Id
  | .leaf i a (.button b) => .leaf i a (.button { b with label := label })
  | c => c

/-- A container that does something on a click, and a labelled button in it. -/
def signpost (onClick : Option String) (label : String) : Forest Id :=
  [.branch "a" none (.container { onClick := onClick })
    [.leaf "b" none (.button { label := label })]]

theorem keepsPlace_followLabel : KeepsPlace followLabel := by
  constructor <;> intro c <;> unfold followLabel <;> split <;> rfl

theorem keepsPlace_relabel (label : String) : KeepsPlace (relabel label) := by
  constructor <;> intro c <;> unfold relabel <;> split <;> rfl

/-- Two updates that keep the place of their components leave different forests in the two orders.
The container follows the label that its button has at that time. -/
theorem updates_disagree :
    (signpost none "Go").ids.Nodup ∧ "a" ∈ (signpost none "Go").ids ∧
      "b" ∈ (signpost none "Go").ids ∧ KeepsPlace followLabel ∧ KeepsPlace (relabel "Stop") ∧
      ((signpost none "Go").update? "a" followLabel).bind (update? · "b" (relabel "Stop")) =
        some (signpost (some "Go") "Stop") ∧
      ((signpost none "Go").update? "b" (relabel "Stop")).bind (update? · "a" followLabel) =
        some (signpost (some "Stop") "Stop") ∧
      ¬ Commutes (update? · "a" followLabel) (update? · "b" (relabel "Stop"))
        (signpost none "Go") := by
  have hids : (signpost none "Go").ids = ["a", "b"] := by decide +kernel
  have hab : ((signpost none "Go").update? "a" followLabel).bind (update? · "b" (relabel "Stop")) =
      some (signpost (some "Go") "Stop") := rfl
  have hba : ((signpost none "Go").update? "b" (relabel "Stop")).bind (update? · "a" followLabel) =
      some (signpost (some "Stop") "Stop") := rfl
  rw [hids]
  refine ⟨by decide, by decide, by decide, keepsPlace_followLabel, keepsPlace_relabel "Stop", hab,
    hba, ?_⟩
  rintro ⟨g, hfirst, hsecond⟩
  have hsame : signpost (some "Go") "Stop" = signpost (some "Stop") "Stop" :=
    Option.some.inj ((hab.symm.trans hfirst).trans (hsecond.symm.trans hba))
  simp [signpost] at hsame

end Forest

end PageDesign
