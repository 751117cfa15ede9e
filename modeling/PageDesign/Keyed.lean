/-
# PageDesign.Keyed -- lists of values under names

Objects, attributes and variables are lists of values under names, in the order in which the
names were first used.
-/

namespace PageDesign

/-- Values under names, in order. -/
abbrev Keyed (α : Type) := List (String × α)

namespace Keyed

variable {α : Type}

/-- Puts a value under a name: in place when the name is there, at the end otherwise. -/
def put (name : String) (a : α) : Keyed α → Keyed α
  | [] => [(name, a)]
  | (n, b) :: rest => if n = name then (n, a) :: rest else (n, b) :: put name a rest

/-- Puts values under names, one after the other. -/
def putAll (given : Keyed α) (rest : Keyed α) : Keyed α :=
  given.foldl (fun rest (name, a) => put name a rest) rest

/-- The names, in order. -/
def names (l : Keyed α) : List String := l.map (·.1)

/-- Putting a value in place keeps the names, and a new name comes last. -/
theorem names_put (name : String) (a : α) (l : Keyed α) :
    names (put name a l) = if name ∈ names l then names l else names l ++ [name] := by
  induction l with
  | nil => simp [put, names]
  | cons p rest ih =>
    obtain ⟨n, b⟩ := p
    by_cases h : n = name
    · simp [put, names, h]
    · simp only [names] at ih ⊢
      simp only [put, h, if_false, List.map_cons, ih, List.mem_cons, Ne.symm h, false_or]
      split <;> simp [*]

/-- A value that was put in is found. -/
theorem lookup_put_self (name : String) (a : α) (l : Keyed α) :
    (put name a l).lookup name = some a := by
  induction l with
  | nil => simp [put]
  | cons p rest ih =>
    obtain ⟨n, b⟩ := p
    by_cases h : n = name
    · simp [put, h]
    · have hne : (name == n) = false := by simp [Ne.symm h]
      simp [put, h, List.lookup_cons, hne, ih]

end Keyed

end PageDesign
