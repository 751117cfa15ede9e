/-
# PageDesign.Proofs.Json.Whole -- whole texts

The text that `dump` writes is taken for what its style reads for the double precision numbers,
within the limits of the dialect (`heard`, `parse_render`); arrays and objects are heard part by
part.  A value whose numbers are finite is read back as it was (`parse_dump`), and is determined
by its text (`dump_injective`), whatever the indentation.
-/
import PageDesign.Proofs.Json.Limits
import PageDesign.Proofs.Json.Reading

namespace PageDesign.Json

/-! ## Finite numbers -/

/-- A value is not an infinity, and not what is not a number. -/
def IsFinite : Json → Prop
  | float x => x.isFinite = true
  | _ => True

variable {st : Style} {g : Binary64 → Option Json}

theorem mapFloatsItems?_eq_self {vs : List Json} (h : ∀ v ∈ vs, mapFloats? g v = some v) :
    mapFloatsItems? g vs = some vs := by
  induction vs with
  | nil => rfl
  | cons v vs ih =>
      rw [List.forall_mem_cons] at h
      simp [mapFloatsItems?, h.1, ih h.2]

theorem mapFloatsMembers?_eq_self {ms : List (String × Json)}
    (h : ∀ m ∈ ms, mapFloats? g m.2 = some m.2) : mapFloatsMembers? g ms = some ms := by
  induction ms with
  | nil => rfl
  | cons m ms ih =>
      rw [List.forall_mem_cons] at h
      simp [mapFloatsMembers?, h.1, ih h.2]

/-- Where finite numbers stay, a value of finite numbers stays. -/
theorem mapFloats?_eq_self (hg : ∀ x : Binary64, x.isFinite = true → g x = some (float x))
    {v : Json} (hv : Everywhere IsFinite v) : mapFloats? g v = some v := by
  induction hv with
  | @intro v here _ ih =>
      cases v with
      | float x => exact hg x here
      | arr vs => rw [mapFloats?, @mapFloatsItems?_eq_self g vs ih, Option.map_some]
      | obj ms =>
          rw [mapFloats?, mapFloatsMembers?_eq_self (List.forall_mem_map.mp ih), Option.map_some]
      | null | bool b | int n | str s => rfl

/-! ## Reading a whole text -/

theorem readValue_whole {dialect : Dialect} (h : st.Reads dialect g) (v : Json) :
    readValue dialect (fuelFor (render st 0 v).toList) (render st 0 v).toList =
      (mapFloats? g v).map (·, []) := by
  have hread := (readsBack h (fuelFor (render st 0 v).toList)).value 0 v [] (by simp [fuelFor])
    (by simp [EndsNumber])
  rwa [List.append_nil] at hread

/-- What the strict dialect takes a written value for, if `g` says what it reads for double
precision numbers. -/
def heard (g : Binary64 → Option Json) (v : Json) : Option Json :=
  (mapFloats? g v).bind (accept .strict)

theorem parse_render (h : st.Reads .strict g) (v : Json) :
    parse .strict (render st 0 v) = heard g v := by
  rw [parse, parseList, parseAhead, readValue_whole h, heard]
  cases mapFloats? g v with
  | none => rfl
  | some w =>
      simp only [Option.map_some, Option.bind_eq_bind, Option.bind_some]
      cases accept .strict w <;> rfl

/-- A value of finite numbers is heard as far as the limits allow. -/
theorem heard_eq_accept (hg : ∀ x : Binary64, x.isFinite = true → g x = some (float x)) {v : Json}
    (hv : Everywhere IsFinite v) : heard g v = accept .strict v := by
  rw [heard, mapFloats?_eq_self hg hv, Option.bind_some]

theorem heard_items {vs us ws : List Json} (hus : mapFloatsItems? g vs = some us)
    (hws : acceptItems .strict us = some ws) : List.Forall₂ (fun v w => heard g v = some w) vs ws := by
  induction vs generalizing us ws with
  | nil =>
      cases hus
      cases hws
      exact .nil
  | cons v vs ih =>
      simp only [mapFloatsItems?, Option.bind_eq_bind, Option.bind_eq_some_iff, Option.pure_def,
        Option.some.injEq] at hus
      obtain ⟨u, hu, us, hus, rfl⟩ := hus
      simp only [acceptItems, Option.bind_eq_bind, Option.bind_eq_some_iff, Option.pure_def,
        Option.some.injEq] at hws
      obtain ⟨w, hw, ws, hws, rfl⟩ := hws
      exact .cons (Option.bind_eq_some_iff.mpr ⟨u, hu, hw⟩) (ih hus hws)

theorem heard_members {ms us ns : List (String × Json)} (hus : mapFloatsMembers? g ms = some us)
    (hns : acceptMembers .strict us = some ns) :
    List.Forall₂ (fun m n => m.1 = n.1 ∧ heard g m.2 = some n.2) ms ns := by
  induction ms generalizing us ns with
  | nil =>
      cases hus
      cases hns
      exact .nil
  | cons m ms ih =>
      obtain ⟨k, v⟩ := m
      simp only [mapFloatsMembers?, Option.bind_eq_bind, Option.bind_eq_some_iff, Option.pure_def,
        Option.some.injEq] at hus
      obtain ⟨u, hu, us, hus, rfl⟩ := hus
      simp only [acceptMembers, Option.bind_eq_bind, Option.bind_eq_some_iff, Option.pure_def,
        Option.some.injEq] at hns
      obtain ⟨w, hw, ns, hns, rfl⟩ := hns
      exact .cons ⟨rfl, Option.bind_eq_some_iff.mpr ⟨u, hu, hw⟩⟩ (ih hus hns)

/-- An array is heard item by item. -/
theorem heard_arr {vs : List Json} {w : Json} (h : heard g (arr vs) = some w) :
    ∃ ws, w = arr ws ∧ List.Forall₂ (fun v w => heard g v = some w) vs ws := by
  obtain ⟨u, hu, haccept⟩ := Option.bind_eq_some_iff.mp h
  obtain ⟨us, hus, rfl⟩ := Option.map_eq_some_iff.mp hu
  obtain ⟨ws, hws, rfl⟩ := Option.map_eq_some_iff.mp haccept
  exact ⟨ws, rfl, heard_items hus hws⟩

/-- An object without a repeated key is heard member by member. -/
theorem heard_obj {ms : List (String × Json)} {w : Json} (hms : (Keyed.names ms).Nodup)
    (h : heard g (obj ms) = some w) :
    ∃ ns, w = obj ns ∧ List.Forall₂ (fun m n => m.1 = n.1 ∧ heard g m.2 = some n.2) ms ns := by
  obtain ⟨u, hu, haccept⟩ := Option.bind_eq_some_iff.mp h
  obtain ⟨us, hus, rfl⟩ := Option.map_eq_some_iff.mp hu
  obtain ⟨ns, hns, rfl⟩ := Option.map_eq_some_iff.mp haccept
  have hmembers := heard_members hus hns
  have hnames : Keyed.names ms = Keyed.names ns :=
    Keyed.names_eq_of_forall₂ (hmembers.imp fun _ _ hmember => hmember.1)
  refine ⟨ns, congrArg obj (Keyed.putAll_nil ?_), hmembers⟩
  rwa [← hnames]

/-- A member of an object is heard under its key. -/
theorem heard_lookup {ms ns : List (String × Json)}
    (h : List.Forall₂ (fun m n => m.1 = n.1 ∧ heard g m.2 = some n.2) ms ns) {k : String} {v : Json}
    (hv : ms.lookup k = some v) : ∃ w, ns.lookup k = some w ∧ heard g v = some w := by
  induction h with
  | nil => cases hv
  | @cons m n ms ns hmember _ ih =>
      obtain ⟨hkey, hheard⟩ := hmember
      rw [List.lookup_cons] at hv ⊢
      rw [← hkey]
      split at hv
      next =>
        cases hv
        exact ⟨n.2, rfl, hheard⟩
      next => exact ih hv

/-! ## The style of a text -/

theorem styleFor_cases (v : Json) (indent : Int) :
    (∃ lines, styleFor v indent = tight lines) ∨ ∃ lines, styleFor v indent = spaced lines := by
  rw [styleFor]
  split
  next =>
    split
    next => exact .inl ⟨_, rfl⟩
    next => exact .inr ⟨_, rfl⟩
  next =>
    split
    next =>
      split
      next => exact .inl ⟨_, rfl⟩
      next => exact .inr ⟨_, rfl⟩
    next => exact .inr ⟨_, rfl⟩

/-- In the strict dialect, every style in use reads finite numbers as they are, and the others
as nothing or not at all. -/
theorem exists_reads_styleFor (v : Json) (indent : Int) :
    ∃ g, (styleFor v indent).Reads .strict g ∧
      (∀ x : Binary64, x.isFinite = true → g x = some (float x)) ∧
      ∀ x : Binary64, x.isFinite = false → ∀ w, g x = some w → w = null := by
  obtain ⟨lines, hst⟩ | ⟨lines, hst⟩ := styleFor_cases v indent
  · rw [hst]
    exact ⟨_, reads_tight .strict lines, fun x hx => by simp [hx],
      fun x hx w hw => by simpa [hx, eq_comm] using hw⟩
  · rw [hst]
    exact ⟨_, reads_spaced lines, fun x hx => by simp [hx], fun x hx w hw => by simp [hx] at hw⟩

/-- A value of finite numbers is read back as far as the limits allow. -/
theorem parse_dump {v : Json} (hv : Everywhere IsFinite v) (indent : Int) :
    parse .strict (v.dump indent) = accept .strict v := by
  obtain ⟨g, hreads, hfinite, -⟩ := exists_reads_styleFor v indent
  rw [dump, parse_render hreads, heard_eq_accept hfinite hv]

/-- The text of a value of finite numbers tells which value it is. -/
theorem dump_injective {v w : Json} (hv : Everywhere IsFinite v) (hw : Everywhere IsFinite w)
    {i j : Int} (h : v.dump i = w.dump j) : v = w := by
  have hread {u : Json} (hu : Everywhere IsFinite u) (k : Int) :
      readValue .strict (fuelFor (u.dump k).toList) (u.dump k).toList = some (u, []) := by
    obtain ⟨g, hreads, hfinite, -⟩ := exists_reads_styleFor u k
    rw [dump, readValue_whole hreads, mapFloats?_eq_self hfinite hu, Option.map_some]
  have heq := (hread hv i).symm.trans (h ▸ hread hw j)
  simpa using heq

end PageDesign.Json
