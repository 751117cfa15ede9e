/-
# PageDesign.Proofs.Json.Limits -- values that keep the limits of a dialect

Reading a text ends with `accept`, which keeps the limits of a dialect and merges repeated keys.
What it lets through keeps the limits everywhere (`takes_of_accept`), and it leaves what keeps
them as it is (`accept_eq_self`).
-/
import Mathlib.Data.List.Nodup
import PageDesign.Json.Parser
import PageDesign.Proofs.Json.Everywhere

namespace PageDesign

/-! ## Keys -/

namespace Keyed

variable {α β : Type}

/-- Lists whose members agree in their names have the same names. -/
theorem names_eq_of_forall₂ {l : Keyed α} {l' : Keyed β}
    (h : List.Forall₂ (fun m m' => m.1 = m'.1) l l') : names l = names l' := by
  rw [names, names, ← List.forall₂_eq_eq_eq, List.forall₂_map_left_iff, List.forall₂_map_right_iff]
  exact h

theorem nodup_names_put {l : Keyed α} (h : (names l).Nodup) (name : String) (a : α) :
    (names (put name a l)).Nodup := by
  rw [names_put]
  split
  next => exact h
  next hname => exact h.append (List.nodup_singleton name) (by simpa using hname)

theorem nodup_names_putAll (given : Keyed α) {rest : Keyed α} (h : (names rest).Nodup) :
    (names (putAll given rest)).Nodup := by
  induction given generalizing rest with
  | nil => exact h
  | cons m given ih => exact ih (nodup_names_put h m.1 m.2)

theorem put_of_notMem {name : String} {l : Keyed α} (h : name ∉ names l) (a : α) :
    put name a l = l ++ [(name, a)] := by
  induction l with
  | nil => rfl
  | cons m l ih =>
      simp only [names, List.map_cons, List.mem_cons, not_or] at h
      rw [put, if_neg (Ne.symm h.1), ih h.2, List.cons_append]

/-- Under keys of their own, values are put in one after the other. -/
theorem putAll_eq_append {given rest : Keyed α} (h : (names (rest ++ given)).Nodup) :
    putAll given rest = rest ++ given := by
  induction given generalizing rest with
  | nil => exact (List.append_nil rest).symm
  | cons m given ih =>
      have hm : m.1 ∉ names rest := by
        simp only [names, List.map_append, List.map_cons] at h
        exact fun hmem => List.disjoint_of_nodup_append h hmem (by simp)
      have hstep : putAll (m :: given) rest = putAll given (put m.1 m.2 rest) := rfl
      rw [hstep, put_of_notMem hm, ih (by simpa using h), List.append_assoc]
      rfl

theorem putAll_nil {given : Keyed α} (h : (names given).Nodup) : putAll given [] = given :=
  putAll_eq_append h

/-- Every value that was put in was there before or is the new one. -/
theorem mem_put {name : String} {a : α} {l : Keyed α} {m : String × α} (h : m ∈ put name a l) :
    m ∈ l ∨ m = (name, a) := by
  induction l with
  | nil => exact .inr (by simpa [put] using h)
  | cons n l ih =>
      rw [put] at h
      split at h
      next heq =>
        rcases List.mem_cons.mp h with rfl | hm
        · exact .inr (by rw [← heq])
        · exact .inl (List.mem_cons_of_mem _ hm)
      next =>
        rcases List.mem_cons.mp h with rfl | hm
        · exact .inl List.mem_cons_self
        · exact (ih hm).imp_left (List.mem_cons_of_mem _)

theorem mem_putAll {given rest : Keyed α} {m : String × α} (h : m ∈ putAll given rest) :
    m ∈ rest ∨ m ∈ given := by
  induction given generalizing rest with
  | nil => exact .inl h
  | cons n given ih =>
      change m ∈ putAll given (put n.1 n.2 rest) at h
      rcases ih h with hm | hm
      · exact (mem_put hm).imp_right fun hn => by simp [hn]
      · exact .inr (List.mem_cons_of_mem _ hm)

end Keyed

namespace Json

/-! ## Limits -/

/-- A value keeps the limits of a dialect, apart from the values inside: numbers are taken, and
no key comes twice. -/
def Dialect.Takes (dialect : Dialect) : Json → Prop
  | int n => dialect.takesInt n = true
  | float x => dialect.takesFloat x = true
  | obj ms => (Keyed.names ms).Nodup
  | _ => True

/-- A number that is written and read back as it is: an integer that fits a word of 64 bits, or a
finite double precision number. -/
def NumbersFit : Json → Prop
  | int n => fitsWord n = true
  | float x => x.isFinite = true
  | _ => True

/-- No key of an object comes twice. -/
def KeysDistinct : Json → Prop
  | obj ms => (Keyed.names ms).Nodup
  | _ => True

theorem everywhere_keysDistinct_put {ms : Members} {v : Json}
    (hms : Everywhere KeysDistinct (.obj ms)) (hv : Everywhere KeysDistinct v) (key : String) :
    Everywhere KeysDistinct (.obj (Keyed.put key v ms)) := by
  refine everywhere_obj.mpr ⟨Keyed.nodup_names_put hms.here key v, fun m hm => ?_⟩
  rcases Keyed.mem_put hm with hm | rfl
  · exact hms.member hm
  · exact hv

theorem everywhere_keysDistinct_putAll {added ms : Members}
    (hadded : Everywhere KeysDistinct (.obj added)) (hms : Everywhere KeysDistinct (.obj ms)) :
    Everywhere KeysDistinct (.obj (Keyed.putAll added ms)) := by
  refine everywhere_obj.mpr ⟨Keyed.nodup_names_putAll added hms.here, fun m hm => ?_⟩
  rcases Keyed.mem_putAll hm with hm | hm
  · exact hms.member hm
  · exact hadded.member hm

theorem everywhere_keysDistinct_empty : Everywhere KeysDistinct (.obj []) :=
  everywhere_obj.mpr ⟨List.nodup_nil, by simp⟩

theorem everywhere_keysDistinct_arr {vs : List Json} :
    Everywhere KeysDistinct (.arr vs) ↔ ∀ v ∈ vs, Everywhere KeysDistinct v :=
  ⟨fun h _ => h.item, fun h => everywhere_arr.mpr ⟨trivial, h⟩⟩

variable {dialect : Dialect}

theorem Dialect.Takes.keysDistinct {v : Json} (h : dialect.Takes v) : KeysDistinct v := by
  cases v with
  | obj ms => exact h
  | null | bool b | int n | float x | str s | arr vs => trivial

theorem acceptItems_eq_some_iff {vs ws : List Json} :
    acceptItems dialect vs = some ws ↔ List.Forall₂ (fun v w => accept dialect v = some w) vs ws := by
  induction vs generalizing ws with
  | nil => simp [acceptItems, eq_comm]
  | cons v vs ih =>
      simp only [acceptItems, Option.bind_eq_bind, Option.bind_eq_some_iff, Option.pure_def,
        Option.some.injEq]
      constructor
      · rintro ⟨w, hw, ws, hws, rfl⟩
        exact .cons hw (ih.mp hws)
      · rintro (_ | ⟨hw, hws⟩)
        exact ⟨_, hw, _, ih.mpr hws, rfl⟩

theorem acceptMembers_eq_some_iff {ms ns : List (String × Json)} :
    acceptMembers dialect ms = some ns ↔
      List.Forall₂ (fun m n => m.1 = n.1 ∧ accept dialect m.2 = some n.2) ms ns := by
  induction ms generalizing ns with
  | nil => simp [acceptMembers, eq_comm]
  | cons m ms ih =>
      obtain ⟨k, v⟩ := m
      simp only [acceptMembers, Option.bind_eq_bind, Option.bind_eq_some_iff, Option.pure_def,
        Option.some.injEq]
      constructor
      · rintro ⟨w, hw, ns, hns, rfl⟩
        exact .cons ⟨rfl, hw⟩ (ih.mp hns)
      · rintro (_ | ⟨⟨hk, hw⟩, hns⟩)
        exact ⟨_, hw, _, ih.mpr hns, congrArg (· :: _) (Prod.ext hk rfl)⟩

/-- What a dialect accepts keeps its limits everywhere. -/
theorem takes_of_accept {v w : Json} (h : accept dialect v = some w) :
    Everywhere dialect.Takes w := by
  induction v using induction_parts generalizing w with
  | step v ih =>
      cases v with
      | int n =>
          rw [accept] at h
          split at h
          next hn =>
            cases h
            exact (everywhere_scalar rfl).mpr hn
          next => cases h
      | float x =>
          rw [accept] at h
          split at h
          next hx =>
            cases h
            exact (everywhere_scalar rfl).mpr hx
          next => cases h
      | arr vs =>
          rw [accept] at h
          obtain ⟨ws, hws, rfl⟩ := Option.map_eq_some_iff.mp h
          refine everywhere_arr.mpr ⟨trivial, fun w hw => ?_⟩
          obtain ⟨v, hv, heq⟩ := exists_of_mem_forall₂ (acceptItems_eq_some_iff.mp hws) hw
          exact ih v hv heq
      | obj ms =>
          rw [accept] at h
          obtain ⟨ns, hns, rfl⟩ := Option.map_eq_some_iff.mp h
          refine everywhere_obj.mpr ⟨Keyed.nodup_names_putAll ns List.nodup_nil, fun n hn => ?_⟩
          obtain hn | hn := Keyed.mem_putAll hn
          · cases hn
          · obtain ⟨m, hm, -, heq⟩ :=
              exists_of_mem_forall₂ (acceptMembers_eq_some_iff.mp hns) hn
            exact ih m.2 (List.mem_map_of_mem hm) heq
      | null | bool b | str s =>
          cases h
          exact (everywhere_scalar rfl).mpr trivial

theorem takes_of_parseList {cs : List Char} {v : Json} (h : parseList dialect cs = some v) :
    Everywhere dialect.Takes v := by
  rw [parseList] at h
  split at h
  next w rest hahead =>
    split at h
    next =>
      cases h
      obtain ⟨⟨u, left⟩, -, hread⟩ := Option.bind_eq_some_iff.mp hahead
      obtain ⟨w, haccept, heq⟩ := Option.bind_eq_some_iff.mp hread
      cases heq
      exact takes_of_accept haccept
    next => cases h
  next => cases h

/-- What keeps the limits of a dialect everywhere is accepted as it is. -/
theorem accept_eq_self {v : Json} (h : Everywhere dialect.Takes v) : accept dialect v = some v := by
  induction h with
  | @intro v here _ ih =>
      cases v with
      | int n => exact if_pos here
      | float x => exact if_pos here
      | arr vs =>
          have hvs : acceptItems dialect vs = some vs :=
            acceptItems_eq_some_iff.mpr (List.forall₂_same.mpr ih)
          rw [accept, hvs, Option.map_some]
      | obj ms =>
          have hms : acceptMembers dialect ms = some ms :=
            acceptMembers_eq_some_iff.mpr
              (List.forall₂_same.mpr fun m hm => ⟨rfl, ih _ (List.mem_map_of_mem hm)⟩)
          have hmerge : Members.ofPairs ms = ms := Keyed.putAll_nil here
          rw [accept, hms, Option.map_some, hmerge]
      | null | bool b | str s => rfl

end Json

end PageDesign
