/-
# PageDesign.Proofs.Component.Minting -- loading draws identities in pre-order

A design is loaded in two steps: what is read keeps missing identities missing, and they are drawn
afterwards.  Here the same is told in one step (`Loads`): when an object is opened its identity is
kept or drawn, then its children are loaded one after the other, and then its siblings, each with
what is left of the supply.  The supply is a parameter; in the library it is a counter.

The values of an array tell which identities they give, in pre-order (`givenItems`).  Loading puts
identities to these places in turn (`Loads.ids`), so the ones that are drawn stand in order at the
places where none was given (`keepOrDrawAll_spec`).  Both ways of loading come to the same
(`loadForestWith_eq_ok_iff`).
-/
import PageDesign.Proofs.Component.Offence
import PageDesign.Proofs.Component.Redraw
import PageDesign.Proofs.Component.Stored

namespace PageDesign

open Schema

variable {κ σ : Type}

/-! ## Keeping and drawing -/

/-- The identity that was given, or the next one of a supply. -/
def keepOrDraw (mint : σ → κ × σ) : Option κ → σ → κ × σ
  | some i, s => (i, s)
  | none, s => mint s

/-- Identities for places one after the other. -/
def keepOrDrawAll (mint : σ → κ × σ) : List (Option κ) → σ → List κ × σ
  | [], s => ([], s)
  | g :: gs, s =>
    let (i, s) := keepOrDraw mint g s
    let (is, s) := keepOrDrawAll mint gs s
    (i :: is, s)

/-- What stands at the places where nothing was given. -/
def missing (gs : List (Option κ)) (is : List κ) : List κ :=
  ((gs.zip is).filter (·.1.isNone)).map (·.2)

section Supply

variable (mint : σ → κ × σ)

theorem keepOrDrawAll_cons (g : Option κ) (gs : List (Option κ)) (s : σ) :
    keepOrDrawAll mint (g :: gs) s =
      ((keepOrDraw mint g s).1 :: (keepOrDrawAll mint gs (keepOrDraw mint g s).2).1,
        (keepOrDrawAll mint gs (keepOrDraw mint g s).2).2) := rfl

theorem keepOrDrawAll_append (gs hs : List (Option κ)) (s : σ) :
    keepOrDrawAll mint (gs ++ hs) s =
      ((keepOrDrawAll mint gs s).1 ++ (keepOrDrawAll mint hs (keepOrDrawAll mint gs s).2).1,
        (keepOrDrawAll mint hs (keepOrDrawAll mint gs s).2).2) := by
  induction gs generalizing s with
  | nil => rfl
  | cons g gs ih => rw [List.cons_append, keepOrDrawAll_cons, ih, keepOrDrawAll_cons]; rfl

/-- What was given is kept, and what was missing is drawn in order. -/
theorem keepOrDrawAll_spec (gs : List (Option κ)) (s : σ) :
    List.Forall₂ (fun g i => ∀ j ∈ g, i = j) gs (keepOrDrawAll mint gs s).1 ∧
      (missing gs (keepOrDrawAll mint gs s).1, (keepOrDrawAll mint gs s).2) =
        draws mint (gs.countP (·.isNone)) s := by
  induction gs generalizing s with
  | nil => exact ⟨.nil, rfl⟩
  | cons g gs ih =>
      obtain ⟨hkept, hdrawn⟩ := ih (keepOrDraw mint g s).2
      rw [keepOrDrawAll_cons]
      cases g with
      | some i =>
          refine ⟨.cons (fun j hj => Option.some.inj hj) hkept, ?_⟩
          rw [List.countP_cons_of_neg (by simp)]
          exact hdrawn
      | none =>
          refine ⟨.cons (fun j hj => by cases hj) hkept, ?_⟩
          rw [List.countP_cons_of_pos (by simp), draws_succ]
          change _ = ((mint s).1 :: (draws mint _ (keepOrDraw mint none s).2).1,
            (draws mint _ (keepOrDraw mint none s).2).2)
          rw [← hdrawn]
          rfl

end Supply

theorem missing_of_none {gs : List (Option κ)} (h : ∀ g ∈ gs, g = none) {is : List κ}
    (hlength : gs.length = is.length) : missing gs is = is := by
  have hall : ∀ p ∈ gs.zip is, p.1.isNone = true := fun p hp => by
    rw [h p.1 (List.of_mem_zip hp).1]
    rfl
  rw [missing, List.filter_eq_self.mpr hall, List.map_snd_zip (Nat.le_of_eq hlength.symm)]

/-! ## Filling in -/

namespace Component

mutual

/-- Gives an identity from a supply to every component of a tree that has none. -/
def fillWith (mint : σ → κ × σ) : Component (Option κ) → σ → Component κ × σ
  | leaf i a l, s =>
    let (i, s) := keepOrDraw mint i s
    (leaf i a l, s)
  | branch i a f cs, s =>
    let (i, s) := keepOrDraw mint i s
    let (cs, s) := fillForestWith mint cs s
    (branch i a f cs, s)

/-- Gives an identity from a supply to every component of a forest that has none. -/
def fillForestWith (mint : σ → κ × σ) : Forest (Option κ) → σ → Forest κ × σ
  | [], s => ([], s)
  | c :: cs, s =>
    let (c, s) := fillWith mint c s
    let (cs, s) := fillForestWith mint cs s
    (c :: cs, s)

end

section Filling

variable (mint : σ → κ × σ)

theorem fillForestWith_cons (c : Component (Option κ)) (cs : Forest (Option κ)) (s : σ) :
    fillForestWith mint (c :: cs) s =
      ((c.fillWith mint s).1 :: (fillForestWith mint cs (c.fillWith mint s).2).1,
        (fillForestWith mint cs (c.fillWith mint s).2).2) := rfl

end Filling

/-- Identities of the library are drawn from a counter. -/
theorem fillForest_eq (f : Forest (Option Id)) (n : Minted) :
    fillForest f n = fillForestWith Id.mint f n := by
  have hid (i : Option Id) (m : Minted) : fillId i m = keepOrDraw Id.mint i m := by
    cases i <;> rfl
  induction f using Forest.induction generalizing n with
  | nil => rfl
  | cons c cs ihc ihcs =>
      have hc : c.fill n = c.fillWith Id.mint n := by
        cases c with
        | leaf i a l => simp only [fill, fillWith, hid]
        | branch i a f ds =>
            have hds (m : Minted) : fillForest ds m = fillForestWith Id.mint ds m := ihc m
            simp only [fill, fillWith, hid, hds]
      rw [fillForest_cons, ihcs, hc, fillForestWith_cons]

/-! ## Loading in one step -/

/-- A forest from JSON, under identities from a supply. -/
def loadForestWith (mint : σ → Id × σ) (v : Json) (s : σ) : Check (Forest Id × σ) :=
  (Draft.readForest v).map fun ds => fillForestWith mint ds s

/-- The values of an array are loaded one after the other: the identity of an object is kept or
drawn, then its children are loaded, then the values behind it. -/
inductive Loads (mint : σ → Id × σ) : List Json → σ → Forest Id → σ → Prop
  | nil {s : σ} : Loads mint [] s [] s
  | leaf {ms : Json.Members} {vs : List Json} {i : Option Id} {j : Id} {a : Option Animation}
      {l : Leaf} {cs : Forest Id} {s t u : σ}
      (hkind : ms.lookup "kind" = some (Choice.record l.kind))
      (hhead : Draft.ReadsHead ms i a l.kind) (hl : l.ReadFrom ms)
      (hid : keepOrDraw mint i s = (j, t)) (hrest : Loads mint vs t cs u) :
      Loads mint (.obj ms :: vs) s (.leaf j a l :: cs) u
  | branch {ms : Json.Members} {vs ws : List Json} {i : Option Id} {j : Id}
      {a : Option Animation} {f : Frame} {ds cs : Forest Id} {s t u w : σ}
      (hkind : ms.lookup "kind" = some (Choice.record f.kind))
      (hhead : Draft.ReadsHead ms i a f.kind) (hf : f.ReadFrom ms)
      (hws : ms.lookup "children" = some (.arr ws) ∨ ms.lookup "children" = none ∧ ws = [])
      (hid : keepOrDraw mint i s = (j, t)) (hbelow : Loads mint ws t ds u)
      (hrest : Loads mint vs u cs w) : Loads mint (.obj ms :: vs) s (.branch j a f ds :: cs) w

/-- The children are read from an array, if they are given. -/
theorem children_eq_ok_iff {ms : Json.Members} {ds : List Draft} :
    field ms "children" [] Draft.readForest = .ok ds ↔
      ∃ ws, (ms.lookup "children" = some (.arr ws) ∨ ms.lookup "children" = none ∧ ws = []) ∧
        List.Forall₂ (fun v d => Draft.read v = .ok d) ws ds := by
  rw [field_eq_ok_iff]
  constructor
  · rintro (⟨v, hv, hread⟩ | ⟨hnone, rfl⟩)
    · obtain ⟨ws, rfl, hws⟩ := Draft.readForest_eq_ok_iff.mp hread
      exact ⟨ws, .inl hv, hws⟩
    · exact ⟨[], .inr ⟨hnone, rfl⟩, .nil⟩
  · rintro ⟨ws, hsome | ⟨hnone, rfl⟩, hws⟩
    · exact .inl ⟨_, hsome, Draft.readForest_eq_ok_iff.mpr ⟨ws, rfl, hws⟩⟩
    · cases hws
      exact .inr ⟨hnone, rfl⟩

/-- What is read and filled in afterwards is loaded in one step. -/
theorem loads_of_reads (mint : σ → Id × σ) {vs : List Json} {ds : List Draft}
    (h : List.Forall₂ (fun v d => Draft.read v = .ok d) vs ds) (s : σ) :
    Loads mint vs s (fillForestWith mint ds s).1 (fillForestWith mint ds s).2 := by
  induction ds using Forest.induction generalizing vs s with
  | nil =>
      cases h
      exact .nil
  | cons d ds ihd ihds =>
      cases h with
      | cons hread hrest =>
          have hbehind := ihds hrest (d.fillWith mint s).2
          obtain ⟨ms, rfl, hkind, hfrom⟩ := Draft.read_eq_ok_iff.mp hread
          cases d with
          | leaf i a l => exact .leaf hkind hfrom.1 hfrom.2 rfl hbehind
          | branch i a f cs =>
              obtain ⟨hhead, hchildren, hf⟩ := hfrom
              obtain ⟨ws, hws, hcs⟩ := children_eq_ok_iff.mp hchildren
              exact .branch hkind hhead hf hws rfl (ihd hcs _) hbehind

/-- What is loaded in one step can be read and filled in afterwards. -/
theorem Loads.exists_reads {mint : σ → Id × σ} {vs : List Json} {s t : σ} {f : Forest Id}
    (h : Loads mint vs s f t) : ∃ ds : List Draft,
      List.Forall₂ (fun v d => Draft.read v = .ok d) vs ds ∧ fillForestWith mint ds s = (f, t) := by
  induction h with
  | nil => exact ⟨[], .nil, rfl⟩
  | @leaf ms vs i j a l cs s t u hkind hhead hl hid hrest ih =>
      obtain ⟨ds, hds, hfill⟩ := ih
      refine ⟨.leaf i a l :: ds, .cons ?_ hds, ?_⟩
      · exact Draft.read_eq_ok_iff.mpr ⟨ms, rfl, hkind, hhead, hl⟩
      · rw [fillForestWith_cons, fillWith, hid]
        simp only [hfill]
  | @branch ms vs ws i j a fr ds cs s t u w hkind hhead hf hws hid hbelow hrest ihbelow ihrest =>
      obtain ⟨es, hes, hfill⟩ := ihbelow
      obtain ⟨ds', hds', hfill'⟩ := ihrest
      refine ⟨.branch i a fr es :: ds', .cons ?_ hds', ?_⟩
      · exact Draft.read_eq_ok_iff.mpr
          ⟨ms, rfl, hkind, hhead, children_eq_ok_iff.mpr ⟨ws, hws, hes⟩, hf⟩
      · rw [fillForestWith_cons, fillWith, hid]
        simp only [hfill, hfill']

/-- Both ways of loading come to the same. -/
theorem loadForestWith_eq_ok_iff {mint : σ → Id × σ} {v : Json} {s t : σ} {f : Forest Id} :
    loadForestWith mint v s = .ok (f, t) ↔ ∃ vs, v = .arr vs ∧ Loads mint vs s f t := by
  rw [loadForestWith, Check.map_eq_ok_iff]
  constructor
  · rintro ⟨ds, hds, hfill⟩
    obtain ⟨vs, rfl, hread⟩ := Draft.readForest_eq_ok_iff.mp hds
    have hloads := loads_of_reads mint hread s
    rw [hfill] at hloads
    exact ⟨vs, rfl, hloads⟩
  · rintro ⟨vs, rfl, hloads⟩
    obtain ⟨ds, hread, hfill⟩ := hloads.exists_reads
    exact ⟨ds, Draft.readForest_eq_ok_iff.mpr ⟨vs, rfl, hread⟩, hfill⟩

/-! ## The identities that are given -/

/-- The identity that an object gives. -/
def givenId (ms : Json.Members) : Option Id :=
  match ms.lookup "id" with
  | some (.str i) => some i
  | _ => none

mutual

/-- The identities that an object gives, its own and then those of its children; for each component
there is a place. -/
def given : Json → List (Option Id)
  | .obj ms => givenId ms :: givenBelow ms
  | _ => []

/-- The identities that are given in the children among the fields of an object. -/
def givenBelow : List (String × Json) → List (Option Id)
  | [] => []
  | (k, v) :: ms => if k = "children" then givenAll v else givenBelow ms

/-- The identities that are given in an array. -/
def givenAll : Json → List (Option Id)
  | .arr vs => givenItems vs
  | _ => []

/-- The identities that are given in some values, one after the other. -/
def givenItems : List Json → List (Option Id)
  | [] => []
  | v :: vs => given v ++ givenItems vs

end

theorem givenBelow_eq {ms : Json.Members} {ws : List Json}
    (h : ms.lookup "children" = some (.arr ws) ∨ ms.lookup "children" = none ∧ ws = []) :
    givenBelow ms = givenItems ws := by
  induction ms with
  | nil =>
      obtain h | ⟨-, rfl⟩ := h
      · cases h
      · rfl
  | cons m ms ih =>
      obtain ⟨k, v⟩ := m
      rw [givenBelow]
      by_cases hk : k = "children"
      · subst hk
        simp only [List.lookup_cons_self, Option.some.injEq, reduceCtorEq, false_and, or_false] at h
        rw [if_pos rfl, h, givenAll]
      · rw [List.lookup_cons, beq_false_of_ne (Ne.symm hk)] at h
        rw [if_neg hk, ih h]

theorem givenId_eq {ms : Json.Members} {i : Option Id} {a : Option Animation} {k : Kind}
    (h : Draft.ReadsHead ms i a k) : givenId ms = i := by
  rw [givenId]
  obtain ⟨v, hv, hread⟩ | ⟨hnone, rfl⟩ := field_eq_ok_iff.mp h.id
  · rw [hv]
    cases v with
    | str s =>
        cases hread
        rfl
    | _ => cases hread
  · rw [hnone]

/-- An object that is read as a leaf has no children. -/
theorem lookup_children_of_leaf {ms : Json.Members} {i : Option Id} {a : Option Animation}
    {l : Leaf} (h : Draft.ReadsHead ms i a l.kind) : ms.lookup "children" = none := by
  have hknown : "children" ∉ Draft.knownFields l.kind := by
    cases l <;> simp [Leaf.kind, Draft.knownFields, Leaf.fields]
  refine List.lookup_eq_none_iff.mpr fun m hm => bne_iff_ne.mpr fun hname => hknown ?_
  rw [hname]
  exact noExtras_eq_ok_iff.mp h.known m hm

/-- Loading puts identities to the places of the values in turn. -/
theorem Loads.ids {mint : σ → Id × σ} {vs : List Json} {s t : σ} {f : Forest Id}
    (h : Loads mint vs s f t) : keepOrDrawAll mint (givenItems vs) s = (f.ids, t) := by
  induction h with
  | nil => simp [givenItems, keepOrDrawAll]
  | @leaf ms vs i j a l cs s t u hkind hhead hl hid hrest ih =>
      have hnone : ms.lookup "children" = some (.arr []) ∨
          ms.lookup "children" = none ∧ ([] : List Json) = [] :=
        .inr ⟨lookup_children_of_leaf hhead, rfl⟩
      rw [givenItems, given, givenId_eq hhead, givenBelow_eq hnone, givenItems, List.cons_append,
        List.nil_append, keepOrDrawAll_cons, hid, ih, Forest.ids_cons, children, Forest.ids_nil,
        List.nil_append]
      rfl
  | @branch ms vs ws i j a fr ds cs s t u w hkind hhead hf hws hid hbelow hrest ihbelow ihrest =>
      rw [givenItems, given, givenId_eq hhead, givenBelow_eq hws, List.cons_append,
        keepOrDrawAll_cons, hid, keepOrDrawAll_append, ihbelow, ihrest, Forest.ids_cons]
      rfl

end Component

/-! ## Distinct identities -/

/-- The check of a design does not report an identity as repeated if none is. -/
theorem Rule.checkNodes_ne_duplicate {taken : List Id} {nodes : List (Component Id)}
    (h : (nodes.map (·.id)).Nodup) (htaken : ∀ c ∈ nodes, c.id ∉ taken) (i : Id) :
    checkNodes taken nodes ≠ .error (.duplicateId i) := by
  induction nodes generalizing taken with
  | nil => simp [checkNodes]
  | cons c nodes ih =>
      rw [List.map_cons, List.nodup_cons] at h
      obtain ⟨hc, hnodes⟩ := List.forall_mem_cons.mp htaken
      have hfree : ∀ d ∈ nodes, d.id ∉ c.id :: taken := by
        intro d hd hmem
        rcases List.mem_cons.mp hmem with heq | hmem
        · exact h.1 (List.mem_map.mpr ⟨d, hd, heq⟩)
        · exact hnodes d hd hmem
      rw [checkNodes, if_neg (by simpa using hc)]
      intro herror
      obtain herror | ⟨-, herror⟩ := check_bind_eq_error.mp herror
      -- the rule for a single component does not speak of identities
      · cases checkNode_eq_error_iff.mp herror
      · exact ih h.2 hfree herror

theorem Forest.validate_ne_duplicate {f : Forest Id} (h : f.ids.Nodup) (i : Id) :
    f.validate ≠ .error (.duplicateId i) :=
  Rule.checkNodes_ne_duplicate h (by simp) i

/-- The counter does not draw an identity twice. -/
theorem nodup_draws_mint (m n : Nat) : (draws Id.mint m n).1.Nodup := by
  have hdraws : draws Id.mint m n = (Id.drawn n (n + m), n + m) := by
    induction m generalizing n with
    | zero => simp [draws]
    | succ m ih =>
        have hnext : n + (m + 1) = n + 1 + m := by omega
        rw [draws_succ, Id.mint, ih, hnext, Id.drawn_eq_cons (Nat.le_add_right (n + 1) m)]
  rw [hdraws]
  exact Id.nodup_drawn n (n + m)

namespace Component

/-- Loading draws one identity for each component that has none, in pre-order: an identity is kept
or drawn when its object is opened, before those of its children and those behind it.  The
identities that are given stand where they were given, and what stands at the other places are the
next ones of the supply, each once and in order.  If none is given and the supply is never twice the
same, all identities of the design are distinct, and its check reports none as repeated.  In the
library the supply is a counter, which is never twice the same. -/
theorem loadForest_mints (mint : σ → Id × σ) {v : Json} {s t : σ} {f : Forest Id}
    (h : loadForestWith mint v s = .ok (f, t)) :
    let gs := givenAll v
    let m := gs.countP (·.isNone)
    (∃ vs, v = .arr vs ∧ Loads mint vs s f t) ∧
      List.Forall₂ (fun g i => ∀ j ∈ g, i = j) gs f.ids ∧
      missing gs f.ids = (draws mint m s).1 ∧ t = (draws mint m s).2 ∧
      ((∀ g ∈ gs, g = none) → (draws mint m s).1.Nodup →
        f.ids.Nodup ∧ ∀ i, f.validate ≠ .error (.duplicateId i)) ∧
      (∀ w n, loadForest w n = loadForestWith Id.mint w n) ∧
      ∀ k n, (draws Id.mint k n).1.Nodup := by
  intro gs m
  obtain ⟨vs, rfl, hloads⟩ := loadForestWith_eq_ok_iff.mp h
  have hturns : keepOrDrawAll mint gs s = (f.ids, t) := hloads.ids
  obtain ⟨hkept, hdrawn⟩ := keepOrDrawAll_spec mint gs s
  rw [hturns] at hkept hdrawn
  have hmissing : missing gs f.ids = (draws mint m s).1 := congrArg Prod.fst hdrawn
  refine ⟨⟨vs, rfl, hloads⟩, hkept, hmissing, congrArg Prod.snd hdrawn, fun hnone hdistinct => ?_,
    fun w n => ?_, nodup_draws_mint⟩
  · have hall : missing gs f.ids = f.ids := missing_of_none hnone hkept.length_eq
    have hids : f.ids.Nodup := by rwa [← hall, hmissing]
    exact ⟨hids, Forest.validate_ne_duplicate hids⟩
  · simp only [loadForest, loadForestWith, fillForest_eq]

/-- A container around a button with an identity and a text without one, with a card behind it, and
the same without any identity.  The supply counts in strokes. -/
theorem loadForest_mints_sample :
    let mint : Nat → Id × Nat := fun n => (String.ofList (List.replicate n '|'), n + 1)
    let v (given : Json.Members) : Json := .arr [.obj [("children", .arr [
      .obj (("kind", .str "button") :: given), .obj [("kind", .str "text")]]),
      ("kind", .str "container")], .obj [("kind", .str "card")]]
    let f (i j k : Id) : Forest Id := [.branch "|" none (.container {})
      [.leaf i none (.button {}), .leaf j none (.text {})], .branch k none (.card {}) []]
    loadForestWith mint (v [("id", .str "go")]) 1 = .ok (f "go" "||" "|||", 4) ∧
      missing (givenAll (v [("id", .str "go")])) (f "go" "||" "|||").ids = ["|", "||", "|||"] ∧
      loadForestWith mint (v []) 1 = .ok (f "||" "|||" "||||", 5) ∧
      (f "||" "|||" "||||").ids.Nodup ∧
      ∀ i, (f "||" "|||" "||||").validate ≠ .error (.duplicateId i) := by
  intro mint v f
  have hsome : loadForestWith mint (v [("id", .str "go")]) 1 = .ok (f "go" "||" "|||", 4) := rfl
  have hnone : loadForestWith mint (v []) 1 = .ok (f "||" "|||" "||||", 5) := rfl
  obtain ⟨-, -, hmissing, -⟩ := loadForest_mints mint hsome
  obtain ⟨-, -, -, -, hdistinct, -⟩ := loadForest_mints mint hnone
  have hids := hdistinct (by decide) (by decide)
  exact ⟨hsome, hmissing, hnone, hids.1, hids.2⟩

end Component

end PageDesign
