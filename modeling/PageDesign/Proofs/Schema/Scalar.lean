/-
# PageDesign.Proofs.Schema.Scalar -- single values are read back

A value is stored in the first of the forms in which it may be given, and every reader takes
that form without a change.  A number that was read past a bound keeps the bound.
-/
import PageDesign.Component.Record
import PageDesign.Proofs.Schema.Check
import PageDesign.Schema.Scalar

namespace PageDesign

/-! ## Choices -/

theorem Choice.name_of_ofName? {α : Type} [Choice α] {s : String} {a : α}
    (h : Choice.ofName? s = some a) : Choice.name a = s := by
  simpa using List.find?_some (p := (Choice.name · == s)) h

/-- The names of a choice tell its values apart. -/
class LawfulChoice (α : Type) [Choice α] : Prop where
  ofName_name : ∀ a : α, Choice.ofName? (Choice.name a) = some a

export LawfulChoice (ofName_name)

theorem Choice.name_injective {α : Type} [Choice α] [LawfulChoice α] :
    Function.Injective (Choice.name : α → String) := by
  intro a b h
  have heq := ofName_name b
  rwa [← h, ofName_name a, Option.some.injEq] at heq

instance : LawfulChoice ButtonVariant := ⟨fun a => by cases a <;> rfl⟩

instance : LawfulChoice ButtonSize := ⟨fun a => by cases a <;> rfl⟩

instance : LawfulChoice TextStyle := ⟨fun a => by cases a <;> rfl⟩

instance : LawfulChoice TextTag := ⟨fun a => by cases a <;> rfl⟩

instance : LawfulChoice InputType := ⟨fun a => by cases a <;> rfl⟩

instance : LawfulChoice FlexDirection := ⟨fun a => by cases a <;> rfl⟩

instance : LawfulChoice FlexAlign := ⟨fun a => by cases a <;> rfl⟩

instance : LawfulChoice FlexJustify := ⟨fun a => by cases a <;> rfl⟩

instance : LawfulChoice AnimationType := ⟨fun a => by cases a <;> rfl⟩

instance : LawfulChoice Kind := ⟨fun a => by cases a <;> rfl⟩

namespace Schema

/-! ## Reading back -/

theorem choice_record {α : Type} [Choice α] [LawfulChoice α] (a : α) :
    choice α (Choice.record a) = .ok a := by
  simp only [Choice.record, choice, ofName_name]

theorem exactly_self (name : String) : exactly name (.str name) = .ok () := if_pos rfl

theorem optional_text_record (o : Option String) : optional text (Json.ofText? o) = .ok o := by
  cases o <;> rfl

theorem intFrom_record {least : Nat} {n : Int} (h : (least : Int) ≤ n) :
    intFrom least (.int n) = .ok n := by
  simp [intFrom, int, Check.guard, h]

theorem numberFromZero_record {x : Binary64} (h : x.isNonneg = true) :
    numberFromZero (.float x) = .ok x := by
  simp [numberFromZero, number, Check.guard, h]

/-! ## Bounds -/

variable {q : Json → Prop}

theorem ensures_intFrom (least : Nat) : Ensures q (intFrom least) fun n => (least : Int) ≤ n := by
  intro v _ n hn
  simp only [intFrom, Check.guard_eq_ok_iff, decide_eq_true_eq] at hn
  exact hn.2

theorem ensures_numberFromZero : Ensures q numberFromZero fun x => x.isNonneg = true := by
  intro v _ x hx
  rw [numberFromZero, Check.guard_eq_ok_iff] at hx
  exact hx.2

theorem Ensures.optional {α : Type} {read : Json → Check α} {P : α → Prop}
    (h : Ensures q read P) : Ensures q (optional read) fun o => ∀ a ∈ o, P a := by
  intro v hv o ho
  have hsome (hread : (read v).map some = .ok o) : ∀ a ∈ o, P a := by
    obtain ⟨a, ha, rfl⟩ := Check.map_eq_ok_iff.mp hread
    simpa using h hv ha
  cases v with
  | null =>
      cases ho
      simp
  | _ => exact hsome ho

end Schema

end PageDesign
