/-
# PageDesign.Proofs.Number.Characters -- the characters of written numbers

A written number has digits, and besides them only the signs, the point and the letter of an
exponent.  This holds of every layout, so no number needs quotes or escapes wherever it is put.
What is not finite is written in words of letters.
-/
import PageDesign.Proofs.Json.Number

namespace PageDesign

/-- Characters of which numbers are written. -/
def IsNumeral (c : Char) : Prop := c.isDigit = true ∨ c ∈ ['-', '+', '.', 'e']

instance (c : Char) : Decidable (IsNumeral c) := inferInstanceAs (Decidable (_ ∨ _))

/-- Characters of written numbers. -/
def AreNumerals (cs : List Char) : Prop := ∀ c ∈ cs, IsNumeral c

theorem AreNumerals.append {cs ds : List Char} (hcs : AreNumerals cs) (hds : AreNumerals ds) :
    AreNumerals (cs ++ ds) :=
  List.forall_mem_append.mpr ⟨hcs, hds⟩

theorem AreNumerals.cons {c : Char} {cs : List Char} (hc : IsNumeral c) (hcs : AreNumerals cs) :
    AreNumerals (c :: cs) :=
  List.forall_mem_cons.mpr ⟨hc, hcs⟩

theorem AreDigits.areNumerals {ds : List Char} (h : AreDigits ds) : AreNumerals ds :=
  fun c hc => .inl (h c hc)

namespace Notation

theorem areNumerals_signed (negative : Bool) {cs : List Char} (h : AreNumerals cs) :
    AreNumerals (signed negative cs) := by
  cases negative with
  | true => exact .cons (.inr (by decide)) h
  | false => exact h

theorem areNumerals_integer (n : Int) : AreNumerals (integer n).toList := by
  rw [integer, String.toList_ofList]
  exact areNumerals_signed _ (areDigits_toDigits _).areNumerals

theorem areNumerals_positional (keepPoint : Bool) {ds : List Char} (h : AreDigits ds)
    (point : Int) : AreNumerals (positional keepPoint ds point) := by
  have hpoint : IsNumeral '.' := .inr (by decide)
  rw [positional]
  split
  next =>
    exact .cons (.inl rfl) (.cons hpoint ((areDigits_zeros _).append h).areNumerals)
  next =>
    dsimp only
    split
    next =>
      refine (h.append (areDigits_zeros _)).areNumerals.append ?_
      split
      next => exact .cons hpoint (.cons (.inl rfl) (by simp [AreNumerals]))
      next => simp [AreNumerals]
    next =>
      refine AreNumerals.append (fun c hc => .inl (h c (List.mem_of_mem_take hc))) ?_
      exact .cons hpoint fun c hc => .inl (h c (List.mem_of_mem_drop hc))

theorem areNumerals_scientific (width : Nat) {ds : List Char} (h : AreDigits ds) (point : Int) :
    AreNumerals (scientific width ds point) := by
  have hfirst : AreNumerals (ds.take 1) := fun c hc => .inl (h c (List.mem_of_mem_take hc))
  have hrest : AreNumerals (ds.drop 1) := fun c hc => .inl (h c (List.mem_of_mem_drop hc))
  have hfraction : AreNumerals (if (ds.drop 1).isEmpty then [] else '.' :: ds.drop 1) := by
    split
    next => simp [AreNumerals]
    next => exact .cons (.inr (by decide)) hrest
  have hsign : IsNumeral (if point - 1 < 0 then '-' else '+') := by
    split <;> exact .inr (by decide)
  exact (hfirst.append hfraction).append
    (.cons (.inr (by decide)) (.cons hsign (areDigits_padded _ _).areNumerals))

theorem areNumerals_magnitude (style : Style) {ds : List Char} (h : AreDigits ds) (point : Int) :
    AreNumerals (magnitude style ds point) := by
  rw [magnitude]
  split
  next =>
    refine .cons (.inl rfl) ?_
    split
    next => exact .cons (.inr (by decide)) (.cons (.inl rfl) (by simp [AreNumerals]))
    next => simp [AreNumerals]
  next =>
    split
    next => exact areNumerals_positional _ h point
    next => exact areNumerals_scientific _ h point

theorem areDigits_digitsAndPoint (d : Decimal) : AreDigits d.digitsAndPoint.1 := by
  intro c hc
  have hkept := List.mem_reverse.mp hc
  exact areDigits_toDigits _ c (List.mem_reverse.mp ((List.dropWhile_subset _) hkept))

theorem areNumerals_shortest (style : Style) (negative : Bool) (code : Nat) :
    AreNumerals (shortest style negative code).toList := by
  rw [shortest, String.toList_ofList]
  refine areNumerals_signed _ (areNumerals_magnitude style ?_ _)
  split
  next => simp [AreDigits]
  next => exact areDigits_digitsAndPoint _

/-- A number in six significant digits has characters of numbers, or is one of three words. -/
theorem areNumerals_brief (x : Binary64) :
    AreNumerals (brief x).toList ∨ brief x ∈ ["nan", "inf", "-inf"] := by
  cases x with
  | nan => exact .inr (by simp [brief])
  | infinite negative => cases negative <;> exact .inr (by simp [brief])
  | finite negative c =>
      rw [brief, String.toList_ofList]
      refine .inl (areNumerals_signed _ (areNumerals_magnitude sixDigits ?_ _))
      split
      next => simp [AreDigits]
      next => exact areDigits_digitsAndPoint _

end Notation

end PageDesign
