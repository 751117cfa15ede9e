/-
# PageDesign.Proofs.Json.Infinite -- what becomes of infinite numbers

Infinities, and what is not a number, are written as nothing or under a name that a strict text
does not know.  A text with such a name is taken for damaged; it is then read with the name, and
refused because of the number.  So whatever is found again in the text of an object is the object
with nothing in place of these numbers (`hush_of_extractObject`).
-/
import PageDesign.Proofs.Json.Repaired

namespace PageDesign.Json

/-! ## Values without infinite numbers -/

mutual

/-- A value with nothing in place of the numbers that are not finite. -/
def hush : Json → Json
  | float x => if x.isFinite then float x else null
  | arr vs => arr (hushItems vs)
  | obj ms => obj (hushMembers ms)
  | v => v

/-- `hush` for the items of an array. -/
def hushItems : List Json → List Json
  | [] => []
  | v :: vs => hush v :: hushItems vs

/-- `hush` for the members of an object. -/
def hushMembers : List (String × Json) → List (String × Json)
  | [] => []
  | (k, v) :: ms => (k, hush v) :: hushMembers ms

end

theorem hushItems_eq_map (vs : List Json) : hushItems vs = vs.map hush := by
  induction vs with
  | nil => rfl
  | cons v vs ih => rw [hushItems, ih, List.map_cons]

theorem hushMembers_eq_map (ms : List (String × Json)) :
    hushMembers ms = ms.map fun m => (m.1, hush m.2) := by
  induction ms with
  | nil => rfl
  | cons m ms ih => rw [hushMembers, ih, List.map_cons]

/-- To hush a value is to have something for each of its numbers. -/
theorem mapFloats?_hush (v : Json) :
    mapFloats? (fun x => some (if x.isFinite then .float x else .null)) v = some (hush v) := by
  induction v using induction_parts with
  | step v ih =>
      cases v with
      | float x => rfl
      | arr vs =>
          have hitems : mapFloatsItems? (fun x => some (if x.isFinite then .float x else .null)) vs =
              some (hushItems vs) := by
            induction vs with
            | nil => rfl
            | cons v vs ihvs =>
                obtain ⟨hv, hvs⟩ := List.forall_mem_cons.mp ih
                rw [mapFloatsItems?, hv, ihvs hvs]
                rfl
          rw [mapFloats?, hitems, Option.map_some, hush]
      | obj ms =>
          have hmembers :
              mapFloatsMembers? (fun x => some (if x.isFinite then .float x else .null)) ms =
                some (hushMembers ms) := by
            induction ms with
            | nil => rfl
            | cons m ms ihms =>
                obtain ⟨hm, hms⟩ := List.forall_mem_cons.mp ih
                rw [mapFloatsMembers?, hm, ihms hms]
                rfl
          rw [mapFloats?, hmembers, Option.map_some, hush]
      | null | bool b | int n | str s => rfl

theorem hush_eq_self {v : Json} (hv : Everywhere IsFinite v) : hush v = v := by
  have hself := @mapFloats?_eq_self (fun x => some (if x.isFinite then .float x else .null))
    (fun x hx => by rw [if_pos hx]) v hv
  exact Option.some.inj ((mapFloats?_hush v).symm.trans hself)

/-- An integer is of a length that a text may have. -/
def IntegersTaken : Json → Prop
  | int n => Dialect.strict.takesInt n = true
  | _ => True

/-- A value can be written apart from numbers that are not finite. -/
def Writable (v : Json) : Prop := IntegersTaken v ∧ KeysDistinct v

/-- What can be written keeps the limits of a text when it is hushed. -/
theorem takes_hush {v : Json} (hv : Everywhere Writable v) :
    Everywhere Dialect.strict.Takes (hush v) := by
  induction hv with
  | @intro v here _ ih =>
      cases v with
      | int n => exact (everywhere_scalar rfl).mpr here.1
      | float x =>
          rw [hush]
          split
          next hx => exact (everywhere_scalar rfl).mpr hx
          next => exact (everywhere_scalar rfl).mpr trivial
      | arr vs =>
          rw [hush, hushItems_eq_map]
          exact everywhere_arr.mpr ⟨trivial, List.forall_mem_map.mpr ih⟩
      | obj ms =>
          have hnames : Keyed.names (ms.map fun m => (m.1, hush m.2)) = Keyed.names ms := by
            rw [Keyed.names, List.map_map]
            rfl
          rw [hush, hushMembers_eq_map]
          refine everywhere_obj.mpr ⟨?_, ?_⟩
          · show (Keyed.names _).Nodup
            rw [hnames]
            exact here.2
          · exact List.forall_mem_map.mpr fun m hm => ih m.2 (List.mem_map_of_mem hm)
      | null | bool b | str s => exact (everywhere_scalar rfl).mpr trivial

/-! ## Texts with names for infinite numbers -/

/-- Where all numbers stay, a value stays. -/
theorem mapFloats?_float (v : Json) : mapFloats? (fun x => some (.float x)) v = some v := by
  induction v using induction_parts with
  | step v ih =>
      cases v with
      | float x => rfl
      | arr vs =>
          have hitems : mapFloatsItems? (fun x => some (.float x)) vs = some vs :=
            mapFloatsItems?_eq_self ih
          rw [mapFloats?, hitems, Option.map_some]
      | obj ms =>
          rw [mapFloats?, mapFloatsMembers?_eq_self (List.forall_mem_map.mp ih), Option.map_some]
      | null | bool b | int n | str s => rfl

/-- In the loose dialect the spaced family is read as it was written. -/
theorem reads_spaced_loose (lines : Option Nat) :
    (spaced lines).Reads .loose fun x => some (.float x) where
  item := (reads_spaced lines).item
  key := (reads_spaced lines).key
  head := (reads_spaced lines).head
  float
    | .finite negative c, rest, hrest => readScalar_finite .loose rfl rfl hrest
    | .infinite true, _, _ => by simp [renderFloat, spaced, readScalar, readNegative]
    | .infinite false, _, _ => by simp [renderFloat, spaced, readScalar]
    | .nan, _, _ => by simp [renderFloat, spaced, readScalar]

/-- What fails for infinite numbers, and for a value if it fails for a part of it, is there for
finite values only. -/
theorem isFinite_of_partial {k : Json → Option Json}
    (hfloat : ∀ x : Binary64, x.isFinite = false → k (.float x) = none)
    (hparts : ∀ v w, k v = some w → ∀ u ∈ v.parts, (k u).isSome = true) {v w : Json}
    (h : k v = some w) : Everywhere IsFinite v := by
  induction v using induction_parts generalizing w with
  | step v ih =>
      constructor
      · cases v with
        | float x =>
            by_contra hx
            rw [hfloat x (by simpa [IsFinite] using hx)] at h
            cases h
        | null | bool b | int n | str s | arr vs | obj ms => trivial
      · intro u hu
        obtain ⟨t, ht⟩ := Option.isSome_iff_exists.mp (hparts v w h u hu)
        exact ih u hu ht

theorem isSome_parts_of_mapFloats? {g : Binary64 → Option Json} {v w : Json}
    (h : mapFloats? g v = some w) : ∀ u ∈ v.parts, (mapFloats? g u).isSome = true := by
  cases v with
  | arr vs =>
      obtain ⟨us, hus, -⟩ := Option.map_eq_some_iff.mp h
      show ∀ u ∈ vs, _
      clear h
      induction vs generalizing us with
      | nil => simp
      | cons v vs ih =>
          simp only [mapFloatsItems?, Option.bind_eq_bind, Option.bind_eq_some_iff] at hus
          obtain ⟨u, hu, us, hus, -⟩ := hus
          exact List.forall_mem_cons.mpr ⟨by rw [hu]; rfl, ih us hus⟩
  | obj ms =>
      obtain ⟨ns, hns, -⟩ := Option.map_eq_some_iff.mp h
      refine List.forall_mem_map.mpr ?_
      clear h
      induction ms generalizing ns with
      | nil => simp
      | cons m ms ih =>
          simp only [mapFloatsMembers?, Option.bind_eq_bind, Option.bind_eq_some_iff] at hns
          obtain ⟨u, hu, ns, hns, -⟩ := hns
          exact List.forall_mem_cons.mpr ⟨by rw [hu]; rfl, ih ns hns⟩
  | null | bool b | int n | float x | str s => simp [parts]

theorem isSome_parts_of_settle {v w : Json} (h : Repair.settle v = some w) :
    ∀ u ∈ v.parts, (Repair.settle u).isSome = true := by
  cases v with
  | arr vs =>
      rw [Repair.settle] at h
      obtain ⟨ws, hws, -⟩ := Option.map_eq_some_iff.mp h
      intro u hu
      obtain ⟨t, -, ht⟩ := exists_of_mem_forall₂ (Repair.settleItems_eq_some_iff.mp hws).flip hu
      exact Option.isSome_iff_exists.mpr ⟨t, ht⟩
  | obj ms =>
      rw [Repair.settle] at h
      obtain ⟨ns, hns, -⟩ := Option.map_eq_some_iff.mp h
      refine List.forall_mem_map.mpr fun m hm => ?_
      obtain ⟨n, -, -, hn⟩ := exists_of_mem_forall₂ (Repair.settleMembers_eq_some_iff.mp hns).flip hm
      exact Option.isSome_iff_exists.mpr ⟨n.2, hn⟩
  | null | bool b | int n | float x | str s => simp [parts]

/-- What is settled was finite. -/
theorem isFinite_of_settle {v w : Json} (h : Repair.settle v = some w) : Everywhere IsFinite v := by
  refine isFinite_of_partial (fun x hx => ?_) (fun v w => isSome_parts_of_settle) h
  rw [Repair.settle, if_neg (by simp [hx])]

/-! ## The text of an object -/

theorem takes_loose_of_writable {v : Json} (hv : Everywhere Writable v) :
    Everywhere Dialect.loose.Takes v := by
  refine hv.mono fun v here => ?_
  cases v with
  | int n =>
      have hstrict := here.1
      simp only [IntegersTaken, Dialect.takesInt, decide_eq_true_eq] at hstrict
      simp only [Dialect.Takes, Dialect.takesInt, decide_eq_true_eq]
      split at hstrict
      all_goals
        rw [if_neg (by simp)]
        omega
  | float x => rfl
  | obj ms => exact here.2
  | null | bool b | str s | arr vs => trivial

/-- In the spaced family, a value that is not finite has no strict text, and the loose dialect
reads it as it is. -/
theorem parse_spaced {v : Json} (hv : Everywhere Writable v) (hinfinite : ¬ Everywhere IsFinite v)
    (lines : Option Nat) :
    parse .strict (render (spaced lines) 0 v) = none ∧
      parse .loose (render (spaced lines) 0 v) = some v := by
  constructor
  · rw [parse_render (reads_spaced lines), heard]
    cases hmap : mapFloats? (fun x => if x.isFinite then some (.float x) else none) v with
    | none => rfl
    | some w =>
        refine absurd (isFinite_of_partial (fun x hx => ?_)
          (fun v w => isSome_parts_of_mapFloats?) hmap) hinfinite
        rw [mapFloats?, if_neg (by simp [hx])]
  · rw [parse, parseList, parseAhead, readValue_whole (reads_spaced_loose lines), mapFloats?_float]
    simp [accept_eq_self (takes_loose_of_writable hv), skipGap]

/-- Whatever is found in the text of an object is the object with nothing in place of the numbers
that are not finite. -/
theorem hush_of_extractObject {ms ns : Members} (hms : Everywhere Writable (.obj ms))
    (h : extractObject (obj ms).dump true = .ok ns) : obj ns = hush (obj ms) := by
  obtain ⟨span, hspan, hfound⟩ := extractObject_eq_ok_iff.mp h
  have hblank : Text.isBlankText "" = true := rfl
  have hcandidate := candidate_dump ms 0 hblank hblank
  rw [String.empty_append, String.append_empty] at hcandidate
  cases hcandidate.symm.trans hspan
  have haccept := accept_eq_self (takes_hush hms)
  obtain ⟨lines, hst⟩ | ⟨lines, hst⟩ := styleFor_cases (obj ms) 0
  · -- nothing is written for the numbers that are not finite, and read as such
    have hparse : parse .strict ((obj ms).dump 0) = some (hush (obj ms)) := by
      rw [dump, hst, parse_render (reads_tight .strict lines), heard, mapFloats?_hush,
        Option.bind_some, haccept]
    obtain hstrict | ⟨-, hnone, -⟩ := hfound
    · exact Option.some.inj (hstrict.symm.trans hparse)
    · cases hnone.symm.trans hparse
  · by_cases hfinite : Everywhere IsFinite (obj ms)
    case pos =>
      have hparse := parse_dump hfinite 0
      rw [hush_eq_self hfinite] at haccept ⊢
      obtain hstrict | ⟨-, hnone, -⟩ := hfound
      · exact Option.some.inj (hstrict.symm.trans (hparse.trans haccept))
      · cases hnone.symm.trans (hparse.trans haccept)
    case neg =>
      -- the names of these numbers are read, but the numbers are refused
      obtain ⟨hstrict, hloose⟩ := parse_spaced hms hfinite lines
      rw [dump, hst] at hfound
      obtain hfound | ⟨-, -, hrepair⟩ := hfound
      · cases hstrict.symm.trans hfound
      · rw [Repair.repairList] at hrepair
        change parseList .loose (render (spaced lines) 0 (obj ms)).toList = some (obj ms) at hloose
        rw [hloose] at hrepair
        exact absurd (isFinite_of_settle hrepair) hfinite

end PageDesign.Json
