/-
# PageDesign.Proofs.Schema.Check -- what it means that a check yields a value

A check that is put together yields a value if its parts do, and these lemmas take it apart:
one for each way of putting checks together, one for the fields of an object and one for each
kind of collection.  `Ensures` is about a reader: what it yields has a property, if a statement
holds of its input and everywhere inside.
-/
import Mathlib.Data.List.Forall2
import PageDesign.Schema.Check
import PageDesign.Proofs.Json.Everywhere

namespace PageDesign.Schema

variable {α β : Type}

/-! ## Putting checks together -/

namespace Check

@[simp] theorem fmap_ok (f : α → β) (a : α) : f <$> ok a = ok (f a) := rfl

@[simp] theorem seq_ok (f : α → β) (a : α) : ok f <*> ok a = ok (f a) := rfl

@[simp] theorem within_ok (step : Step) (a : α) : (ok a).within step = ok a := rfl

theorem map_eq_ok_iff {f : α → β} {c : Check α} {b : β} :
    c.map f = .ok b ↔ ∃ a, c = .ok a ∧ f a = b := by
  cases c <;> simp [map]

theorem fmap_eq_ok_iff {f : α → β} {c : Check α} {b : β} :
    f <$> c = .ok b ↔ ∃ a, c = .ok a ∧ f a = b :=
  map_eq_ok_iff

theorem seq_eq_ok_iff {f : Check (α → β)} {c : Check α} {b : β} :
    f <*> c = .ok b ↔ ∃ g, f = .ok g ∧ ∃ a, c = .ok a ∧ g a = b := by
  change f.both c = .ok b ↔ _
  cases f <;> cases c <;> simp [both, map]

theorem within_eq_ok_iff {step : Step} {c : Check α} {a : α} :
    c.within step = .ok a ↔ c = .ok a := by
  cases c <;> simp [within]

theorem guard_eq_ok_iff {test : α → Bool} {f : Fault} {c : Check α} {a : α} :
    c.guard test f = .ok a ↔ c = .ok a ∧ test a = true := by
  cases c with
  | fail is => simp [guard]
  | ok b =>
      by_cases hb : test b = true
      · simp only [guard, hb, if_true, ok.injEq]
        constructor
        · rintro rfl
          exact ⟨rfl, hb⟩
        · exact And.left
      · simp only [guard, hb, fault, ok.injEq, reduceCtorEq, Bool.false_eq_true, if_false,
          false_iff, not_and]
        rintro rfl
        exact hb

@[simp] theorem fault_ne_ok {f : Fault} {a : α} : (fault f : Check α) ≠ .ok a := by
  simp [fault]

end Check

/-! ## Fields of an object -/

theorem field_eq_ok_iff {ms : Json.Members} {name : String} {default a : α}
    {read : Json → Check α} :
    field ms name default read = .ok a ↔
      (∃ v, ms.lookup name = some v ∧ read v = .ok a) ∨ (ms.lookup name = none ∧ default = a) := by
  rw [field]
  cases ms.lookup name <;> simp [Check.within_eq_ok_iff]

theorem field_of_lookup {ms : Json.Members} {name : String} {default a : α}
    {read : Json → Check α} {v : Json} (hv : ms.lookup name = some v) (hread : read v = .ok a) :
    field ms name default read = .ok a :=
  field_eq_ok_iff.mpr (.inl ⟨v, hv, hread⟩)

theorem noExtras_eq_ok_iff {known : List String} {ms : Json.Members} :
    noExtras known ms = .ok () ↔ ∀ m ∈ ms, m.1 ∈ known := by
  have hnil : (ms.filterMap fun m =>
      if known.contains m.1 then none else some (Issue.mk [.field m.1] .extraField)) = [] ↔
        ∀ m ∈ ms, m.1 ∈ known := by
    simp [List.filterMap_eq_nil_iff]
  rw [← hnil, noExtras]
  split
  next heq => exact iff_of_true rfl heq
  next hne => exact iff_of_false (by simp) hne

/-! ## Lists and dictionaries -/

theorem items_eq_ok_iff {read : Json → Check α} {n : Nat} {vs : List Json} {as : List α} :
    items read n vs = .ok as ↔ List.Forall₂ (fun v a => read v = .ok a) vs as := by
  induction vs generalizing n as with
  | nil => simp [items, eq_comm]
  | cons v vs ih =>
      simp only [items, Check.seq_eq_ok_iff, Check.fmap_eq_ok_iff, Check.within_eq_ok_iff, ih]
      constructor
      · rintro ⟨_, ⟨a, ha, rfl⟩, as, has, rfl⟩
        exact .cons ha has
      · rintro (_ | ⟨ha, has⟩)
        exact ⟨_, ⟨_, ha, rfl⟩, _, has, rfl⟩

theorem entries_eq_ok_iff {read : Json → Check α} {ms : Json.Members}
    {es : List (String × α)} :
    entries read ms = .ok es ↔
      List.Forall₂ (fun m e => m.1 = e.1 ∧ read m.2 = .ok e.2) ms es := by
  induction ms generalizing es with
  | nil => simp [entries, eq_comm]
  | cons m ms ih =>
      simp only [entries, Check.seq_eq_ok_iff, Check.fmap_eq_ok_iff, Check.map_eq_ok_iff,
        Check.within_eq_ok_iff, ih]
      constructor
      · rintro ⟨_, ⟨_, ⟨a, ha, rfl⟩, rfl⟩, es, hes, rfl⟩
        exact .cons ⟨rfl, ha⟩ hes
      · rintro (_ | @⟨_, ⟨k, a⟩, _, es, ⟨hk, ha⟩, hes⟩)
        exact ⟨_, ⟨_, ⟨a, ha, rfl⟩, rfl⟩, es, hes, congrArg (· :: es) (Prod.ext hk rfl)⟩

/-- A dictionary that was written entry by entry is read entry by entry. -/
theorem dict_record {read : Json → Check α} {record : α → Json} {es : List (String × α)}
    (h : ∀ e ∈ es, read (record e.2) = .ok e.2) :
    dict read (.obj (es.map fun (k, a) => (k, record a))) = .ok es := by
  rw [dict, entries_eq_ok_iff, List.forall₂_map_left_iff, List.forall₂_same]
  exact fun e he => ⟨rfl, h e he⟩

/-! ## What a reader ensures -/

/-- If a statement holds everywhere in a value, what is read from it has a property. -/
def Ensures (q : Json → Prop) (read : Json → Check α) (P : α → Prop) : Prop :=
  ∀ ⦃v : Json⦄, Json.Everywhere q v → ∀ ⦃a : α⦄, read v = .ok a → P a

variable {q : Json → Prop} {read : Json → Check α} {P : α → Prop}

theorem Ensures.field {ms : Json.Members} {name : String} {d a : α}
    (h : Ensures q read P) (hd : P d) (hms : Json.Everywhere q (.obj ms))
    (ha : field ms name d read = .ok a) : P a := by
  obtain ⟨v, hv, hread⟩ | ⟨-, rfl⟩ := field_eq_ok_iff.mp ha
  · obtain ⟨l, r, rfl, -⟩ := List.lookup_eq_some_iff.mp hv
    exact h (hms.member (m := (name, v)) (by simp)) hread
  · exact hd

end PageDesign.Schema
