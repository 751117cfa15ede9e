/-
# PageDesign.Proofs.Json.Everywhere -- statements about a value and all values inside

A value is finite, or has no key twice, if that is so at every place in it.  `Everywhere` says
of a statement that it holds of a value and of all values inside, and proofs follow it place by
place: `parts` are the values right below one.
-/
import Mathlib.Data.List.Forall2
import PageDesign.Json.Basic

namespace PageDesign

theorem exists_of_mem_forall₂ {α β : Type} {R : α → β → Prop} {l : List α} {l' : List β} {b : β}
    (h : List.Forall₂ R l l') (hb : b ∈ l') : ∃ a ∈ l, R a b := by
  induction h with
  | nil => cases hb
  | @cons a c l l' hac _ ih =>
      rcases List.mem_cons.mp hb with rfl | hb
      · exact ⟨a, List.mem_cons_self, hac⟩
      · exact (ih hb).imp fun _ h => ⟨List.mem_cons_of_mem _ h.1, h.2⟩

namespace Json

variable {p q : Json → Prop}

/-- The values right inside a value. -/
def parts : Json → List Json
  | arr vs => vs
  | obj ms => ms.map (·.2)
  | _ => []

theorem sizeOf_lt_of_mem_parts {v w : Json} (hw : w ∈ v.parts) : sizeOf w < sizeOf v := by
  cases v with
  | arr vs =>
      have hlt : sizeOf w < sizeOf vs := List.sizeOf_lt_of_mem hw
      rw [arr.sizeOf_spec]
      omega
  | obj ms =>
      obtain ⟨⟨k, w⟩, hm, rfl⟩ := List.mem_map.mp hw
      have hlt : sizeOf (k, w) < sizeOf ms := List.sizeOf_lt_of_mem hm
      rw [Prod.mk.sizeOf_spec] at hlt
      rw [obj.sizeOf_spec]
      change sizeOf w < _
      omega
  | _ => cases hw

/-- What holds of a value if it holds of its parts holds of all values. -/
theorem induction_parts {motive : Json → Prop}
    (step : ∀ v, (∀ w ∈ v.parts, motive w) → motive v) (v : Json) : motive v :=
  step v fun w hw =>
    have : sizeOf w < sizeOf v := sizeOf_lt_of_mem_parts hw
    induction_parts step w
termination_by sizeOf v

/-- A statement holds of a value and of all values inside. -/
inductive Everywhere (p : Json → Prop) : Json → Prop where
  | intro {v : Json} (here : p v) (inside : ∀ w ∈ v.parts, Everywhere p w) : Everywhere p v

namespace Everywhere

theorem here {v : Json} (h : Everywhere p v) : p v := by
  cases h with
  | intro here _ => exact here

theorem inside {v w : Json} (h : Everywhere p v) (hw : w ∈ v.parts) : Everywhere p w := by
  cases h with
  | intro _ inside => exact inside w hw

theorem item {vs : List Json} {v : Json} (h : Everywhere p (arr vs)) (hv : v ∈ vs) :
    Everywhere p v :=
  h.inside hv

theorem member {ms : List (String × Json)} {m : String × Json} (h : Everywhere p (obj ms))
    (hm : m ∈ ms) : Everywhere p m.2 :=
  h.inside (List.mem_map_of_mem hm)

theorem mono (hpq : ∀ v, p v → q v) {v : Json} (h : Everywhere p v) : Everywhere q v := by
  induction h with
  | intro here _ ih => exact ⟨hpq _ here, ih⟩

theorem and {v : Json} (hp : Everywhere p v) (hq : Everywhere q v) :
    Everywhere (fun v => p v ∧ q v) v := by
  induction hp with
  | intro here _ ih => exact ⟨⟨here, hq.here⟩, fun w hw => ih w hw (hq.inside hw)⟩

/-- What holds of every value holds everywhere. -/
theorem of_forall (hp : ∀ v, p v) (v : Json) : Everywhere p v :=
  induction_parts (fun _ ih => ⟨hp _, ih⟩) v

end Everywhere

theorem everywhere_arr {vs : List Json} :
    Everywhere p (arr vs) ↔ p (arr vs) ∧ ∀ v ∈ vs, Everywhere p v :=
  ⟨fun h => ⟨h.here, fun _ => h.item⟩, fun ⟨here, items⟩ => ⟨here, items⟩⟩

theorem everywhere_obj {ms : List (String × Json)} :
    Everywhere p (obj ms) ↔ p (obj ms) ∧ ∀ m ∈ ms, Everywhere p m.2 :=
  ⟨fun h => ⟨h.here, fun _ => h.member⟩,
    fun ⟨here, members⟩ => ⟨here, List.forall_mem_map.mpr members⟩⟩

/-- For a value that is neither an array nor an object there is one place to look at. -/
theorem everywhere_scalar {v : Json} (hv : v.parts = []) : Everywhere p v ↔ p v :=
  ⟨fun h => h.here, fun here => ⟨here, by simp [hv]⟩⟩

end Json

end PageDesign
