/-
# PageDesign.Proofs.Component.Options -- options in one text

A drop-down list keeps its options in one text, with commas between them.  What comes out of the
text is cut at every comma and trimmed, and blank pieces are left out, so that each option is
trimmed, without a comma and not empty (`isOption_of_mem_optionsIn`).  Texts that are joined go
through this one by one: each gives the options in it (`optionsIn_joined`).  Hence a list of texts
comes back from a drop-down list that is made of it exactly if every text is an option
(`options_survive`).
-/
import Mathlib.Data.List.Basic
import PageDesign.Component.Shorthand
import PageDesign.Proofs.Text.Search

namespace PageDesign

open Text

/-! ## Options -/

/-- A text that can be an option: it is not empty, has no blank at either end, and no comma. -/
structure IsOption (x : String) : Prop where
  nonempty : x ≠ ""
  trimmed : trim x = x
  whole : ',' ∉ x.toList

/-- The option in a piece between commas, if the piece is not blank. -/
def optionOf? (piece : List Char) : Option String :=
  if (trimList isBlank piece).isEmpty then none
  else some (String.ofList (trimList isBlank piece))

/-- The options in a text. -/
def optionsIn (cs : List Char) : List String := (splitAtEach ',' cs).filterMap optionOf?

theorem optionList_eq (s : SelectField) : s.optionList = optionsIn s.options.toList := rfl

theorem isOption_of_mem_optionsIn {cs : List Char} {x : String} (h : x ∈ optionsIn cs) :
    IsOption x := by
  obtain ⟨piece, hpiece, hx⟩ := List.mem_filterMap.mp h
  obtain ⟨hsome, heq⟩ := Option.ite_none_left_eq_some.mp hx
  cases heq
  refine ⟨?_, ?_, ?_⟩
  · intro hempty
    apply hsome
    rw [String.ofList_eq_empty_iff.mp hempty]
    rfl
  · rw [trim, String.toList_ofList, trimList_trimList]
  · rw [String.toList_ofList]
    exact fun hcomma => notMem_of_mem_splitAtEach hpiece (mem_of_mem_trimList hcomma)

theorem IsOption.optionsIn_self {x : String} (h : IsOption x) : optionsIn x.toList = [x] := by
  have htrim : trimList isBlank x.toList = x.toList := by
    rw [← String.toList_ofList (l := trimList isBlank x.toList), ← trim, h.trimmed]
  have hsome : x.toList.isEmpty = false := by
    simpa using h.nonempty
  rw [optionsIn, splitAtEach_of_notMem h.whole]
  simp [optionOf?, htrim, hsome]

/-! ## Texts that are joined -/

theorem optionsIn_append (cs ds : List Char) :
    optionsIn (cs ++ ',' :: ds) = optionsIn cs ++ optionsIn ds := by
  rw [optionsIn, splitAtEach_append, List.filterMap_append, ← optionsIn, ← optionsIn]

/-- The space behind a comma is not part of an option. -/
theorem optionsIn_space (cs : List Char) : optionsIn (' ' :: cs) = optionsIn cs := by
  obtain ⟨piece, pieces, heq, hspace⟩ := splitAtEach_cons (by decide : ' ' ≠ ',') cs
  have hpiece : optionOf? (' ' :: piece) = optionOf? piece := by
    rw [optionOf?, trimList_cons rfl, ← optionOf?]
  rw [optionsIn, optionsIn, hspace, heq, List.filterMap_cons, List.filterMap_cons, hpiece]

/-- Each of the texts that are joined gives the options in it. -/
theorem optionsIn_joined (xs : List String) :
    optionsIn (", ".intercalate xs).toList = xs.flatMap fun x => optionsIn x.toList := by
  rw [String.toList_intercalate]
  induction xs with
  | nil => rfl
  | cons x xs ih =>
      cases xs with
      | nil => simp
      | cons y ys =>
          -- the comma ends the first text, and the space behind it goes to the joined rest
          have hsome : (y :: ys).map String.toList ≠ [] := List.cons_ne_nil _ _
          rw [List.map_cons, List.intercalate_cons_of_ne_nil hsome, List.flatMap_cons, ← ih,
            ← optionsIn_space ((", ".toList).intercalate ((y :: ys).map String.toList)),
            ← optionsIn_append]
          simp

/-- Joined texts come back exactly if every one of them is an option. -/
theorem optionsIn_joined_eq_iff {xs : List String} :
    optionsIn (", ".intercalate xs).toList = xs ↔ ∀ x ∈ xs, IsOption x := by
  constructor
  · intro heq x hx
    rw [← heq] at hx
    exact isOption_of_mem_optionsIn hx
  · intro h
    rw [optionsIn_joined]
    calc xs.flatMap (fun x => optionsIn x.toList)
        = xs.flatMap fun x => [x] := List.flatMap_congr fun x hx => (h x hx).optionsIn_self
      _ = xs := List.flatMap_singleton' xs

/-- A comma parts a text, blanks at its ends are lost, and an empty text is lost as a whole. -/
example : optionsIn (", ".intercalate ["a,b", " c ", "", "d"]).toList = ["a", "b", "c", "d"] := by
  decide +kernel

/-! ## Drop-down lists that are made -/

namespace Shorthand

/-- A drop-down list is made of options, in a list or in one text, and of nothing else. -/
def Makes (options : Json) (n : Minted) (s : SelectField) : Prop :=
  ∃ make i a m, select options [] = .ok make ∧ make n = .ok (.leaf i a (.select s), m)

theorem optionTexts_texts (position : Nat) (xs : List String) :
    optionTexts position (xs.map .str) = .ok xs := by
  induction xs generalizing position with
  | nil => rfl
  | cons x xs ih =>
      rw [List.map_cons, optionTexts, ih]
      rfl

/-- Options in a list are joined into one text. -/
theorem select_texts (xs : List String) (others : Json.Members) :
    select (.arr (xs.map .str)) others = select (.str (", ".intercalate xs)) others := by
  rw [select, optionTexts_texts]
  rfl

theorem makes_text (t : String) (n : Minted) :
    Makes (.str t) n ({ options := t } : SelectField) :=
  ⟨_, _, _, _, rfl, rfl⟩

theorem makes_texts (xs : List String) (n : Minted) :
    Makes (.arr (xs.map .str)) n ({ options := ", ".intercalate xs } : SelectField) := by
  rw [Makes, select_texts]
  exact makes_text _ n

/-- A list of texts comes back from the drop-down list that is made of it exactly if every text is
an option.  Whatever one text holds, only options come out of it, and a list that is made of these
has the same ones. -/
theorem options_survive (n m : Minted) :
    (∀ xs : List String, ∃ s, Makes (.arr (xs.map .str)) n s ∧
        (s.optionList = xs ↔ ∀ x ∈ xs, IsOption x)) ∧
      ∀ t : String, ∃ s, Makes (.str t) n s ∧ (∀ x ∈ s.optionList, IsOption x) ∧
        ∃ again, Makes (.arr (s.optionList.map .str)) m again ∧
          again.optionList = s.optionList := by
  constructor
  · intro xs
    refine ⟨_, makes_texts xs n, ?_⟩
    rw [optionList_eq]
    exact optionsIn_joined_eq_iff
  · intro t
    have hoptions : ∀ x ∈ optionsIn t.toList, IsOption x := fun _ => isOption_of_mem_optionsIn
    refine ⟨_, makes_text t n, ?_⟩
    rw [optionList_eq]
    refine ⟨hoptions, _, makes_texts _ m, ?_⟩
    rw [optionList_eq]
    exact optionsIn_joined_eq_iff.mpr hoptions

end Shorthand

end PageDesign
