/-
# PageDesign.Proofs.Digest.Fields -- what is digested tells its fields

Fields that hold no NUL are found again between the NULs of the text that they are joined to, so
two lists of such fields, neither of them empty, are joined to different texts.
-/
import Mathlib.Data.Set.Function
import PageDesign.Digest

namespace PageDesign

namespace Digest

/-- A list that is not empty, of fields without NUL. -/
def Separable (fields : List String) : Prop :=
  fields ≠ [] ∧ ∀ s ∈ fields, '\x00' ∉ s.toList

instance (fields : List String) : Decidable (Separable fields) :=
  inferInstanceAs (Decidable (fields ≠ [] ∧ ∀ s ∈ fields, '\x00' ∉ s.toList))

/-- The fields are what stands between the NULs. -/
theorem splitOn_joinFields {fields : List String} (h : Separable fields) :
    (joinFields fields).toList.splitOn '\x00' = fields.map String.toList := by
  obtain ⟨hne, hfree⟩ := h
  rw [joinFields, String.toList_intercalate]
  apply List.splitOn_intercalate
  · intro cs hcs
    obtain ⟨s, hs, rfl⟩ := List.mem_map.mp hcs
    exact hfree s hs
  · rwa [ne_eq, List.map_eq_nil_iff]

theorem joinFields_injOn : Set.InjOn joinFields {fields | Separable fields} := by
  intro xs hxs ys hys h
  have hlists : xs.map String.toList = ys.map String.toList := by
    rw [← splitOn_joinFields hxs, ← splitOn_joinFields hys, h]
  exact (List.map_inj_right fun _ _ => String.toList_injective).mp hlists

end Digest

end PageDesign
