/-
# PageDesign.Proofs.Json.Repaired -- what is pieced together is sound

Whatever a damaged text holds, the value that is made of it has no key twice at any depth, and
its numbers fit (`fit_of_repairList`).  The readers call one another, so what one of them
yields is told for all of them at once, for so much fuel (`Yields`); objects are only ever made
by putting members under keys, one after the other.  The numbers are settled at the end.
-/
import PageDesign.Proofs.Json.Extract

namespace PageDesign.Json

namespace Repair

/-! ## Values without parts -/

/-- A value that is neither an array nor an object. -/
def IsScalar : Json → Prop
  | .arr _ | .obj _ => False
  | _ => True

theorem IsScalar.everywhere {v : Json} (h : IsScalar v) : Everywhere KeysDistinct v := by
  cases v with
  | arr vs | obj ms => exact h.elim
  | null | bool b | int n | float x | str s => exact (everywhere_scalar rfl).mpr trivial

section Scalar

variable {ctx : Context} {q : Quotes} {cs rest : List Char} {v : Json}

theorem isScalar_of_readRest {p : Progress} (h : readRest ctx q p cs = some (v, rest)) :
    IsScalar v := by
  obtain ⟨e, -, h⟩ := Option.bind_eq_some_iff.mp h
  dsimp only at h
  split at h
  all_goals
    cases h
    trivial

theorem isScalar_of_soundText (h : soundText? ctx cs = some (v, rest)) : IsScalar v := by
  unfold soundText? at h
  dsimp only at h
  split at h
  next =>
    obtain ⟨-, heq⟩ := Option.ite_none_right_eq_some.mp h
    cases heq
    trivial
  next => cases h

theorem isScalar_of_literal (h : literal? cs = some (v, rest)) : IsScalar v := by
  obtain ⟨⟨name, w⟩, hmem, hfound⟩ := List.exists_of_findSome?_eq_some h
  dsimp only at hfound
  split at hfound
  next =>
    cases hfound
    simp only [literals, List.mem_cons, Prod.mk.injEq, List.not_mem_nil, or_false] at hmem
    rcases hmem with ⟨-, rfl⟩ | ⟨-, rfl⟩ | ⟨-, rfl⟩ | ⟨-, rfl⟩ <;> trivial
  next => cases hfound

theorem isScalar_of_readTwiceQuoted {d : Char}
    (h : readTwiceQuoted ctx q d cs = some (v, rest)) : IsScalar v := by
  unfold readTwiceQuoted at h
  dsimp only at h
  repeat' split at h
  all_goals first
    | exact isScalar_of_readRest h
    | (cases h; trivial)

/-- What is read as a text is a text, or the literal that it spells. -/
theorem isScalar_of_readQuoted (h : readQuoted ctx cs = some (v, rest)) : IsScalar v := by
  unfold readQuoted at h
  split at h
  next =>
    cases h
    trivial
  next =>
    cases h
    trivial
  next c cs _ _ =>
    split at h
    next =>
      dsimp only at h
      split at h
      next sound hsound =>
        cases h
        obtain ⟨-, hsound⟩ := Option.ite_none_right_eq_some.mp hsound
        exact isScalar_of_soundText hsound
      next =>
        split at h
        next => exact isScalar_of_readTwiceQuoted h
        next => exact isScalar_of_readRest h
      next => exact isScalar_of_readRest h
    next =>
      split at h
      next found hfound =>
        cases h
        obtain ⟨-, hfound⟩ := Option.ite_none_left_eq_some.mp hfound
        exact isScalar_of_literal hfound
      next => exact isScalar_of_readRest h

theorem isScalar_of_numberOf (h : numberOf? cs = some v) : IsScalar v := by
  unfold numberOf? at h
  dsimp only at h
  obtain ⟨⟨exponent, left⟩, -, h⟩ := Option.bind_eq_some_iff.mp h
  obtain ⟨-, h⟩ := Option.ite_none_left_eq_some.mp h
  rcases ite_eq_iff.mp h with ⟨-, h⟩ | ⟨-, h⟩
  · cases h
    trivial
  · obtain ⟨-, h⟩ := Option.ite_none_left_eq_some.mp h
    rw [number] at h
    cases h
    split <;> trivial

/-- What is read as a number is a number, or a text where none is spelled. -/
theorem isScalar_of_readNumber (h : readNumber ctx cs = some (v, rest)) : IsScalar v := by
  unfold readNumber at h
  dsimp only at h
  split at h
  next => exact isScalar_of_readQuoted h
  next =>
    obtain ⟨heq, -⟩ := Prod.mk.inj (Option.some.inj h)
    rw [← heq]
    generalize hword : numberOf? _ = found
    cases found with
    | none => trivial
    | some w => exact isScalar_of_numberOf hword

end Scalar

/-! ## Rows of items -/

section Items

variable {p : Json → Prop} {vs ws : List Json}

theorem mem_rowsFrom {v : Json} {n fuel : Nat} (h : v ∈ rowsFrom n fuel vs) :
    ∃ us, v = .arr us ∧ ∀ u ∈ us, u ∈ vs := by
  induction fuel generalizing vs with
  | zero => cases h
  | succ fuel ih =>
      cases vs with
      | nil => cases h
      | cons w ws =>
          rcases List.mem_cons.mp h with rfl | h
          · exact ⟨_, rfl, fun u hu => List.mem_of_mem_take hu⟩
          · obtain ⟨us, rfl, hus⟩ := ih h
            exact ⟨us, rfl, fun u hu => List.mem_of_mem_drop (hus u hu)⟩

/-- An array that goes on has the items of both arrays, some of them in rows or taken out of
one. -/
theorem forall_mem_continueItems (hvs : ∀ v ∈ vs, Everywhere KeysDistinct v)
    (hws : ∀ v ∈ ws, Everywhere KeysDistinct v) :
    ∀ v ∈ continueItems vs ws, Everywhere KeysDistinct v := by
  unfold continueItems
  split
  next =>
    split
    next us =>
      refine List.forall_mem_append.mpr ⟨hvs, ?_⟩
      exact everywhere_keysDistinct_arr.mp (hws _ List.mem_cons_self)
    next => exact List.forall_mem_append.mpr ⟨hvs, hws⟩
  next n _ =>
    -- what is cut off at the end is put back as it is or in rows
    have htail : ∀ v ∈ (vs.reverse.takeWhile (!isArray ·)).reverse, Everywhere KeysDistinct v := by
      intro v hv
      apply hvs
      exact List.mem_reverse.mp ((List.takeWhile_subset _) (List.mem_reverse.mp hv))
    dsimp only
    simp only [List.forall_mem_append]
    refine ⟨⟨fun v hv => ?_, fun v hv => ?_⟩, fun v hv => ?_⟩
    · apply hvs
      exact List.mem_reverse.mp ((List.dropWhile_subset _) (List.mem_reverse.mp hv))
    · split at hv
      next =>
        obtain ⟨us, rfl, hus⟩ := mem_rowsFrom hv
        exact everywhere_keysDistinct_arr.mpr fun u hu => htail u (hus u hu)
      next => exact htail v hv
    · split at hv
      next => exact hws v hv
      next =>
        obtain rfl := List.mem_singleton.mp hv
        exact everywhere_keysDistinct_arr.mpr hws

theorem everywhere_enclosed (comma : Bool) (hvs : ∀ v ∈ vs, Everywhere KeysDistinct v) :
    Everywhere KeysDistinct (enclosed comma vs) := by
  unfold enclosed
  split
  next v =>
    split
    next => exact everywhere_keysDistinct_arr.mpr hvs
    next => exact hvs v List.mem_cons_self
  next => exact everywhere_keysDistinct_arr.mpr hvs

/-- The items of the last member are values of the object. -/
theorem forall_mem_lastItems {ms : Members} {key : String} (h : lastItems? ms = some (key, vs))
    (hms : Everywhere KeysDistinct (.obj ms)) : ∀ v ∈ vs, Everywhere KeysDistinct v := by
  unfold lastItems? at h
  split at h
  next k us hlast =>
    obtain ⟨-, h⟩ := Option.ite_none_left_eq_some.mp h
    cases h
    exact everywhere_keysDistinct_arr.mp (hms.member (List.mem_of_getLast? hlast))
  next => cases h

end Items

/-! ## The readers that know their place -/

/-- With so much fuel, the readers yield values without a repeated key at any depth, given that
what was read before has none. -/
structure Yields (fuel : Nat) : Prop where
  value : ∀ ctx cs v rest, readValue ctx fuel cs = some (v, rest) → Everywhere KeysDistinct v
  text : ∀ ctx cs v rest, readString ctx fuel cs = some (v, rest) → Everywhere KeysDistinct v
  object : ∀ ctx cs v rest, readObject ctx fuel cs = some (v, rest) → Everywhere KeysDistinct v
  members : ∀ ctx b cs ms atKey rest, readMembers ctx fuel b cs = some (ms, atKey, rest) →
    Everywhere KeysDistinct (.obj b.members) → Everywhere KeysDistinct (.obj ms)
  key : ∀ ctx ms start cs ns key left rest,
    readKey ctx fuel ms start cs = some (ns, key, left, rest) →
    Everywhere KeysDistinct (.obj ms) → Everywhere KeysDistinct (.obj ns)
  items : ∀ ctx closing acc cs vs rest,
    readItems ctx closing fuel acc cs = some (vs, rest) →
    (∀ v ∈ acc, Everywhere KeysDistinct v) → ∀ v ∈ vs, Everywhere KeysDistinct v

namespace Yields

theorem zero : Yields 0 where
  value _ _ _ _ h := by cases h
  text _ _ _ _ h := by cases h
  object _ _ _ _ h := by cases h
  members _ _ _ _ _ _ h := by cases h
  key _ _ _ _ _ _ _ _ h := by cases h
  items _ _ _ _ _ _ h := by cases h

variable {fuel : Nat}

theorem value_succ (ih : Yields fuel) (ctx : Context) (cs : List Char) (v : Json)
    (rest : List Char) (h : readValue ctx (fuel + 1) cs = some (v, rest)) :
    Everywhere KeysDistinct v := by
  cases cs with
  | nil =>
      cases h
      exact IsScalar.everywhere trivial
  | cons c cs =>
      rw [readValue] at h
      split at h
      next => exact ih.object _ _ _ _ h
      next =>
        split at h
        next =>
          obtain ⟨⟨vs, left⟩, hread, heq⟩ := Option.map_eq_some_iff.mp h
          cases heq
          exact everywhere_keysDistinct_arr.mpr (ih.items _ _ _ _ _ _ hread (by simp))
        next =>
          split at h
          next =>
            obtain ⟨⟨vs, left⟩, hread, heq⟩ := Option.map_eq_some_iff.mp h
            cases heq
            exact everywhere_enclosed _ (ih.items _ _ _ _ _ _ hread (by simp))
          next =>
            split at h
            next => exact ih.text _ _ _ _ h
            next =>
              split at h
              next => exact (isScalar_of_readNumber h).everywhere
              next =>
                split at h
                next =>
                  cases h
                  exact IsScalar.everywhere trivial
                next => exact ih.value _ _ _ _ h

theorem text_succ (ih : Yields fuel) (ctx : Context) (cs : List Char) (v : Json)
    (rest : List Char) (h : readString ctx (fuel + 1) cs = some (v, rest)) :
    Everywhere KeysDistinct v := by
  rw [readString] at h
  split at h
  next => exact ih.value _ _ _ _ h
  next => exact (isScalar_of_readQuoted h).everywhere

theorem object_succ (ih : Yields fuel) (ctx : Option Context) (cs : List Char) (v : Json)
    (rest : List Char) (h : readObject ctx (fuel + 1) cs = some (v, rest)) :
    Everywhere KeysDistinct v := by
  rw [readObject] at h
  dsimp only at h
  split at h
  next => cases h
  next ms atKey stop hmembers =>
    rcases ite_eq_iff.mp h with ⟨-, h⟩ | ⟨-, h⟩
    · obtain ⟨⟨vs, left⟩, hread, heq⟩ := Option.map_eq_some_iff.mp h
      cases heq
      exact everywhere_keysDistinct_arr.mpr (ih.items _ _ _ _ _ _ hread (by simp))
    · cases h
      exact ih.members _ _ _ _ _ _ hmembers everywhere_keysDistinct_empty

theorem members_succ (ih : Yields fuel) (ctx : Option Context) (b : Body) (cs : List Char)
    (ms : Members) (atKey : Bool) (rest : List Char)
    (h : readMembers ctx (fuel + 1) b cs = some (ms, atKey, rest))
    (hb : Everywhere KeysDistinct (.obj b.members)) : Everywhere KeysDistinct (.obj ms) := by
  rw [readMembers] at h
  split at h
  next =>
    cases h
    exact hb
  next c cs _ =>
    split at h
    next =>
      cases h
      exact hb
    next =>
      dsimp only at h
      split at h
      next => cases h
      next ns key start left hkey =>
        have hns := ih.key _ _ _ _ _ _ _ _ hkey hb
        split at h
        next =>
          cases h
          exact hns
        next =>
          split at h
          next =>
            cases h
            exact hns
          next d ds _ =>
            split at h
            next =>
              cases h
              exact hns
            next =>
              -- the value of the member: an empty text where none stands, or what is read
              split at h
              next => cases h
              next v after hfound =>
                have hv : Everywhere KeysDistinct v := by
                  split at hfound
                  next =>
                    cases hfound
                    exact IsScalar.everywhere trivial
                  next => exact ih.value _ _ _ _ hfound
                have hput := everywhere_keysDistinct_put hns hv key
                rcases ite_eq_iff.mp h with ⟨-, h⟩ | ⟨-, h⟩
                · cases h
                  exact hput
                · exact ih.members _ _ _ _ _ _ h hput

theorem key_succ (ih : Yields fuel) (ctx : Context) (ms : Members) (start cs : List Char)
    (ns : Members) (key : String) (left rest : List Char)
    (h : readKey ctx (fuel + 1) ms start cs = some (ns, key, left, rest))
    (hms : Everywhere KeysDistinct (.obj ms)) : Everywhere KeysDistinct (.obj ns) := by
  rw [readKey] at h
  split at h
  next =>
    cases h
    exact hms
  next =>
    split at h
    next k vs hlast =>
      split at h
      next => cases h
      next ws after hitems =>
        have hws := ih.items _ _ _ _ _ _ hitems (by simp)
        have hvs : ∀ v ∈ vs, Everywhere KeysDistinct v := by
          split at hlast
          next => exact forall_mem_lastItems hlast hms
          next => cases hlast
        have hgoing := everywhere_keysDistinct_arr.mpr (forall_mem_continueItems hvs hws)
        exact ih.key _ _ _ _ _ _ _ _ h (everywhere_keysDistinct_put hms hgoing k)
    next =>
      split at h
      next =>
        rcases ite_eq_iff.mp h with ⟨-, h⟩ | ⟨-, h⟩
        · cases h
          exact hms
        · exact ih.key _ _ _ _ _ _ _ _ h hms
      next => cases h

theorem items_succ (ih : Yields fuel) (ctx : Context) (closing : Char) (acc : List Json)
    (cs : List Char) (vs : List Json) (rest : List Char)
    (h : readItems ctx closing (fuel + 1) acc cs = some (vs, rest))
    (hacc : ∀ v ∈ acc, Everywhere KeysDistinct v) : ∀ v ∈ vs, Everywhere KeysDistinct v := by
  have hreverse : ∀ v ∈ acc.reverse, Everywhere KeysDistinct v :=
    fun v hv => hacc v (List.mem_reverse.mp hv)
  rw [readItems] at h
  split at h
  next =>
    cases h
    exact hreverse
  next c cs _ =>
    dsimp only at h
    split at h
    next =>
      cases h
      exact hreverse
    next =>
      split at h
      next =>
        cases h
        exact hreverse
      next =>
        split at h
        next => cases h
        next v after hfound =>
          have hv : Everywhere KeysDistinct v := by
            split at hfound
            next => exact ih.object _ _ _ _ hfound
            next =>
              split at hfound
              next => exact ih.text _ _ _ _ hfound
              next => exact ih.value _ _ _ _ hfound
          refine ih.items _ _ _ _ _ _ h ?_
          split
          next => exact hacc
          next => exact List.forall_mem_cons.mpr ⟨hv, hacc⟩

end Yields

theorem yields (fuel : Nat) : Yields fuel := by
  induction fuel with
  | zero => exact .zero
  | succ fuel ih =>
      exact ⟨ih.value_succ, ih.text_succ, ih.object_succ, ih.members_succ, ih.key_succ,
        ih.items_succ⟩

/-! ## Outside all places -/

theorem everywhere_of_readSound {cs rest : List Char} {v : Json}
    (h : readSound cs = some (v, rest)) : Everywhere KeysDistinct v := by
  obtain ⟨⟨u, left⟩, -, h⟩ := Option.bind_eq_some_iff.mp h
  obtain ⟨w, haccept, heq⟩ := Option.bind_eq_some_iff.mp h
  cases heq
  exact (takes_of_accept haccept).mono fun _ => Dialect.Takes.keysDistinct

theorem everywhere_of_readFurther {fuel : Nat} {ms ns : Members} {cs rest : List Char}
    {comma : Bool} (h : readFurther fuel ms cs = some (ns, comma, rest))
    (hms : Everywhere KeysDistinct (.obj ms)) : Everywhere KeysDistinct (.obj ns) := by
  induction fuel generalizing ms cs comma rest with
  | zero => cases h
  | succ fuel ih =>
      rw [readFurther] at h
      split at h
      next =>
        dsimp only at h
        split at h
        next =>
          split at h
          next added after hobject =>
            obtain ⟨⟨ns', comma', rest'⟩, hfurther, heq⟩ := Option.bind_eq_some_iff.mp h
            cases heq
            have hadded := (yields _).object _ _ _ _ hobject
            exact ih hfurther (everywhere_keysDistinct_putAll hadded hms)
          next =>
            cases h
            exact hms
          next => cases h
        next =>
          cases h
          exact hms
      next =>
        cases h
        exact hms

theorem everywhere_of_readOuter {cs rest : List Char} {v : Json} {comma : Bool}
    (h : readOuter cs = some (v, comma, rest)) : Everywhere KeysDistinct v := by
  rw [readOuter] at h
  split at h
  next =>
    cases h
    exact IsScalar.everywhere trivial
  next c cs _ =>
    obtain ⟨⟨w, after⟩, hfound, h⟩ := Option.bind_eq_some_iff.mp h
    have hw : Everywhere KeysDistinct w := by
      rcases Option.or_eq_some_iff.mp hfound with hsound | ⟨-, hpieced⟩
      · exact everywhere_of_readSound hsound
      · split at hpieced
        next => exact (yields _).object _ _ _ _ hpieced
        next =>
          obtain ⟨⟨vs, left⟩, hread, heq⟩ := Option.map_eq_some_iff.mp hpieced
          cases heq
          exact everywhere_keysDistinct_arr.mpr ((yields _).items _ _ _ _ _ _ hread (by simp))
    dsimp only at h
    split at h
    next ms =>
      obtain ⟨⟨ns, comma', rest'⟩, hfurther, heq⟩ := Option.bind_eq_some_iff.mp h
      cases heq
      exact everywhere_of_readFurther hfurther hw
    next =>
      cases h
      exact hw

theorem forall_mem_readMore {fuel : Nat} {listed : Bool} {found vs : List Json} {cs : List Char}
    (h : readMore fuel listed found cs = some vs)
    (hfound : ∀ v ∈ found, Everywhere KeysDistinct v) : ∀ v ∈ vs, Everywhere KeysDistinct v := by
  induction fuel generalizing listed found cs with
  | zero => cases h
  | succ fuel ih =>
      cases cs with
      | nil =>
          cases h
          exact hfound
      | cons c cs =>
          unfold readMore at h
          split at h
          next => cases h
          next v comma rest houter =>
            have hv := everywhere_of_readOuter houter
            dsimp only at h
            split at h
            next => exact ih h hfound
            next =>
              split at h
              next last earlier =>
                obtain ⟨hlast, hearlier⟩ := List.forall_mem_cons.mp hfound
                split at h
                next => exact ih h (List.forall_mem_cons.mpr ⟨hv, hearlier⟩)
                next => exact ih h (List.forall_mem_cons.mpr ⟨hv, hfound⟩)
              next => exact ih h (List.forall_mem_cons.mpr ⟨hv, by simp⟩)

/-! ## Whole texts -/

theorem settleItems_eq_some_iff {vs ws : List Json} :
    settleItems vs = some ws ↔ List.Forall₂ (fun v w => settle v = some w) vs ws := by
  induction vs generalizing ws with
  | nil => simp [settleItems, eq_comm]
  | cons v vs ih =>
      simp only [settleItems, Option.bind_eq_bind, Option.bind_eq_some_iff, Option.pure_def,
        Option.some.injEq]
      constructor
      · rintro ⟨w, hw, ws, hws, rfl⟩
        exact .cons hw (ih.mp hws)
      · rintro (_ | ⟨hw, hws⟩)
        exact ⟨_, hw, _, ih.mpr hws, rfl⟩

theorem settleMembers_eq_some_iff {ms ns : List (String × Json)} :
    settleMembers ms = some ns ↔
      List.Forall₂ (fun m n => m.1 = n.1 ∧ settle m.2 = some n.2) ms ns := by
  induction ms generalizing ns with
  | nil => simp [settleMembers, eq_comm]
  | cons m ms ih =>
      obtain ⟨k, v⟩ := m
      simp only [settleMembers, Option.bind_eq_bind, Option.bind_eq_some_iff, Option.pure_def,
        Option.some.injEq]
      constructor
      · rintro ⟨w, hw, ns, hns, rfl⟩
        exact .cons ⟨rfl, hw⟩ (ih.mp hns)
      · rintro (_ | ⟨⟨hk, hw⟩, hns⟩)
        exact ⟨_, hw, _, ih.mpr hns, congrArg (· :: _) (Prod.ext hk rfl)⟩

/-- A value that is settled has numbers that fit, and the keys that it had before. -/
theorem fit_of_settle {v w : Json} (h : settle v = some w) (hv : Everywhere KeysDistinct v) :
    Everywhere (fun w => NumbersFit w ∧ KeysDistinct w) w := by
  induction v using induction_parts generalizing w with
  | step v ih =>
      cases v with
      | int n =>
          rw [settle] at h
          split at h
          next hn =>
            cases h
            exact (everywhere_scalar rfl).mpr ⟨hn, trivial⟩
          next =>
            obtain ⟨hx, h⟩ := Option.ite_none_right_eq_some.mp h
            cases h
            exact (everywhere_scalar rfl).mpr ⟨hx, trivial⟩
      | float x =>
          rw [settle] at h
          obtain ⟨hx, h⟩ := Option.ite_none_right_eq_some.mp h
          cases h
          exact (everywhere_scalar rfl).mpr ⟨hx, trivial⟩
      | arr vs =>
          rw [settle] at h
          obtain ⟨ws, hws, rfl⟩ := Option.map_eq_some_iff.mp h
          refine everywhere_arr.mpr ⟨⟨trivial, trivial⟩, fun w hw => ?_⟩
          obtain ⟨v, hmem, heq⟩ := exists_of_mem_forall₂ (settleItems_eq_some_iff.mp hws) hw
          exact ih v hmem heq (hv.item hmem)
      | obj ms =>
          rw [settle] at h
          obtain ⟨ns, hns, rfl⟩ := Option.map_eq_some_iff.mp h
          have hmembers := settleMembers_eq_some_iff.mp hns
          have hnames : Keyed.names ms = Keyed.names ns :=
            Keyed.names_eq_of_forall₂ (hmembers.imp fun _ _ hmember => hmember.1)
          have hdistinct : (Keyed.names ns).Nodup := by
            rw [← hnames]
            exact hv.here
          refine everywhere_obj.mpr ⟨⟨trivial, hdistinct⟩, fun n hn => ?_⟩
          obtain ⟨m, hm, -, heq⟩ := exists_of_mem_forall₂ hmembers hn
          exact ih m.2 (List.mem_map_of_mem hm) heq (hv.member hm)
      | null | bool b | str s =>
          cases h
          exact (everywhere_scalar rfl).mpr ⟨trivial, trivial⟩

/-- What is made of a damaged text has no key twice at any depth and numbers that fit, so that
it can be written and read as it is. -/
theorem fit_of_repairList {cs : List Char} {v : Json} (h : repairList cs = some v) :
    Everywhere (fun w => NumbersFit w ∧ KeysDistinct w) v := by
  rw [repairList] at h
  split at h
  next w hparse =>
    exact fit_of_settle h ((takes_of_parseList hparse).mono fun _ => Dialect.Takes.keysDistinct)
  next =>
    obtain ⟨⟨w, comma, rest⟩, houter, h⟩ := Option.bind_eq_some_iff.mp h
    obtain ⟨found, hmore, h⟩ := Option.bind_eq_some_iff.mp h
    have hfound : ∀ v ∈ found, Everywhere KeysDistinct v :=
      forall_mem_readMore hmore (List.forall_mem_cons.mpr ⟨everywhere_of_readOuter houter, by simp⟩)
    split at h
    next => exact fit_of_settle h (hfound _ List.mem_cons_self)
    next =>
      refine fit_of_settle h (everywhere_keysDistinct_arr.mpr fun v hv => ?_)
      exact hfound v (List.mem_reverse.mp hv)

end Repair

/-- The object in a text keeps the limits of texts, whether it was pieced together or not. -/
theorem takes_of_extractObject {s : String} {repair : Bool} {ms : Members}
    (h : extractObject s repair = .ok ms) : Everywhere Dialect.strict.Takes (.obj ms) := by
  obtain ⟨span, -, hparse | ⟨-, -, hrepair⟩⟩ := extractObject_eq_ok_iff.mp h
  · exact takes_of_parseList hparse
  · exact (Repair.fit_of_repairList hrepair).mono fun _ hfit => takes_of_fit hfit.1 hfit.2

/-- The object in a text has no key twice at any depth, whether it was pieced together or not. -/
theorem keysDistinct_of_extractObject {s : String} {repair : Bool} {ms : Members}
    (h : extractObject s repair = .ok ms) : Everywhere KeysDistinct (.obj ms) :=
  (takes_of_extractObject h).mono fun _ => Dialect.Takes.keysDistinct

end PageDesign.Json
