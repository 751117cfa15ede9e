/-
# PageDesign.Proofs.Cache.Entries -- what a call does to the entries of a cache

A hit and a new entry do the same: the entry under a key goes to the end, where the most recent
ones are, and what is over at the front is dropped.  Read from the end, the entry is put in
front of the others and as many are kept as there is room for (`pushed`).
-/
import PageDesign.Cache

namespace PageDesign

namespace Cache

variable {β : Type} {c : Cache β} {fields : List String} {v : β}

theorem mem_of_mem_without {key : String} {entries : List (String × β)} {e : String × β}
    (h : e ∈ without key entries) : e ∈ entries :=
  (List.mem_filter.mp h).1

@[simp] theorem algorithm_get : (c.get fields).2.algorithm = c.algorithm := by
  simp only [get]
  split <;> rfl

@[simp] theorem algorithm_set : (c.set fields v).algorithm = c.algorithm := by
  simp only [set]
  split <;> rfl

@[simp] theorem capacity_get : (c.get fields).2.stats.capacity = c.stats.capacity := by
  simp only [get]
  split <;> rfl

@[simp] theorem capacity_set : (c.set fields v).stats.capacity = c.stats.capacity := by
  simp only [set]
  split <;> rfl

theorem keyOf_get : (c.get fields).2.keyOf = c.keyOf := by
  funext other
  rw [keyOf, keyOf, algorithm_get]

theorem keyOf_set : (c.set fields v).keyOf = c.keyOf := by
  funext other
  rw [keyOf, keyOf, algorithm_set]

/-! ## Which entries there are -/

/-- A hit is the value of an entry. -/
theorem mem_of_get_eq_some (h : (c.get fields).1 = some v) :
    (c.keyOf fields, v) ∈ c.entries := by
  simp only [get] at h
  split at h
  next w hw =>
    cases h
    obtain ⟨l, r, heq, -⟩ := List.lookup_eq_some_iff.mp hw
    rw [heq]
    simp
  next => cases h

/-- Looking up brings no entries in. -/
theorem mem_of_mem_get {e : String × β} (h : e ∈ (c.get fields).2.entries) : e ∈ c.entries := by
  simp only [get] at h
  split at h
  next v hv =>
    rcases List.mem_append.mp h with h | h
    · exact mem_of_mem_without h
    · rw [List.mem_singleton.mp h]
      exact mem_of_get_eq_some (by simp only [get, hv])
  next => exact h

/-- Storing brings in one entry. -/
theorem mem_of_mem_set {e : String × β} (h : e ∈ (c.set fields v).entries) :
    e ∈ c.entries ∨ e = (c.keyOf fields, v) := by
  have hmem : e ∈ without (c.keyOf fields) c.entries ++ [(c.keyOf fields, v)] := by
    simp only [set] at h
    split at h
    next => exact List.mem_of_mem_drop h
    next => exact h
  rcases List.mem_append.mp hmem with h | h
  · exact .inl (mem_of_mem_without h)
  · exact .inr (List.mem_singleton.mp h)

/-! ## In which order they are -/

/-- A look-up answers with the value of an entry. -/
theorem get_eq_lookup : (c.get fields).1 = c.entries.lookup (c.keyOf fields) := by
  simp only [get]
  split
  next v hv => exact hv.symm
  next hnone => exact hnone.symm

/-- A look-up that finds nothing leaves the entries alone. -/
theorem entries_get_of_none (h : c.entries.lookup (c.keyOf fields) = none) :
    (c.get fields).2.entries = c.entries := by
  simp only [get, h]

/-- A key and a value in front, then the others under other keys, as far as there is room. -/
def pushed (c : Cache β) (key : String) (v : β) : List (String × β) :=
  ((key, v) :: (without key c.entries).reverse).take c.stats.capacity

/-- Storing puts the entry in front. -/
theorem reverse_entries_set (hroom : c.entries.length ≤ c.stats.capacity) :
    (c.set fields v).entries.reverse = c.pushed (c.keyOf fields) v := by
  have hless : (without (c.keyOf fields) c.entries).length ≤ c.entries.length :=
    List.length_filter_le _ _
  have hlength : (without (c.keyOf fields) c.entries ++ [(c.keyOf fields, v)]).length =
      (without (c.keyOf fields) c.entries).length + 1 := by simp
  unfold set pushed
  simp only
  split
  next hover =>
    rw [List.reverse_drop, List.reverse_concat]
    congr 1
    omega
  next hfits =>
    rw [List.reverse_concat, List.take_of_length_le]
    rw [List.length_cons, List.length_reverse]
    omega

/-- A hit puts its entry in front. -/
theorem reverse_entries_get (hroom : c.entries.length ≤ c.stats.capacity)
    (hv : c.entries.lookup (c.keyOf fields) = some v) :
    (c.get fields).2.entries.reverse = c.pushed (c.keyOf fields) v := by
  have hless : (without (c.keyOf fields) c.entries).length < c.entries.length := by
    rw [without, List.length_filter_lt_length_iff_exists]
    obtain ⟨l, r, heq, -⟩ := List.lookup_eq_some_iff.mp hv
    exact ⟨(c.keyOf fields, v), by simp [heq], by simp⟩
  unfold get pushed
  simp only [hv]
  rw [List.reverse_concat, List.take_of_length_le]
  rw [List.length_cons, List.length_reverse]
  omega

end Cache

end PageDesign
