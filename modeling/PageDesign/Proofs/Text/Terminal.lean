/-
# PageDesign.Proofs.Text.Terminal -- texts that are printed as they are

What is printed is a text without its control sequences, which are looked for from the left.  Each
one that is found makes the text shorter, so that a text is printed as it is exactly if no control
sequence stands in it (`printed_eq_self_iff`).
-/
import PageDesign.Text.Terminal

namespace PageDesign.Text

/-- A control sequence: an escape character, a bracket, parameters and a letter. -/
def IsSequence (q : List Char) : Prop :=
  ∃ parameters letter, q = '\x1b' :: '[' :: (parameters ++ [letter]) ∧
    (∀ c ∈ parameters, isParameter c = true) ∧ letter.isAlpha = true

/-- A control sequence stands somewhere in a text. -/
def HasSequence (cs : List Char) : Prop := ∃ q, IsSequence q ∧ q <:+: cs

/-- The letter at the end of a control sequence is none of its parameters. -/
theorem isParameter_of_isAlpha {c : Char} (h : c.isAlpha = true) : isParameter c = false := by
  have hupper : c.isUpper = true ↔ 65 ≤ c.toNat ∧ c.toNat ≤ 90 := decide_eq_true_iff
  have hlower : c.isLower = true ↔ 97 ≤ c.toNat ∧ c.toNat ≤ 122 := by
    show (decide (97 ≤ c.toNat) && decide (c.toNat ≤ 122)) = true ↔ _
    rw [Bool.and_eq_true, decide_eq_true_eq, decide_eq_true_eq]
  have hdigit : c.isDigit = true ↔ 48 ≤ c.toNat ∧ c.toNat ≤ 57 := by
    show (decide (48 ≤ c.toNat) && decide (c.toNat ≤ 57)) = true ↔ _
    rw [Bool.and_eq_true, decide_eq_true_eq, decide_eq_true_eq]
  have hletter : c.isUpper = true ∨ c.isLower = true := Bool.or_eq_true _ _ ▸ h
  rw [hupper, hlower] at hletter
  rw [← Bool.not_eq_true, isParameter, Bool.or_eq_true, Bool.or_eq_true, beq_iff_eq, beq_iff_eq,
    hdigit]
  rintro ((hbounds | rfl) | rfl)
  · omega
  · revert hletter
    decide
  · revert hletter
    decide

/-- What is skipped in front of a text is a control sequence, and every one is skipped. -/
theorem skipSequence?_eq_some_iff {cs rest : List Char} :
    skipSequence? cs = some rest ↔ ∃ q, IsSequence q ∧ cs = q ++ rest := by
  constructor
  · intro h
    unfold skipSequence? at h
    split at h
    next ds =>
      split at h
      next c after hdrop =>
        obtain ⟨hletter, heq⟩ := Option.ite_none_right_eq_some.mp h
        cases heq
        refine ⟨_, ⟨ds.takeWhile isParameter, c, rfl, fun d hd => ?_, hletter⟩, ?_⟩
        · exact List.all_eq_true.mp List.all_takeWhile d hd
        · have hparts := List.takeWhile_append_dropWhile (p := isParameter) (l := ds)
          rw [hdrop] at hparts
          simp [hparts]
      next => cases h
    next => cases h
  · rintro ⟨_, ⟨parameters, letter, rfl, hparameters, hletter⟩, rfl⟩
    have hdrop : (parameters ++ letter :: rest).dropWhile isParameter = letter :: rest := by
      rw [List.dropWhile_append_of_pos hparameters,
        List.dropWhile_cons_of_neg (by simp [isParameter_of_isAlpha hletter])]
    simp [skipSequence?, hdrop, hletter]

theorem IsSequence.length_pos {q : List Char} (h : IsSequence q) : 0 < q.length := by
  obtain ⟨parameters, letter, rfl, -, -⟩ := h
  simp

theorem not_hasSequence_nil : ¬ HasSequence [] := by
  rintro ⟨q, hq, hinfix⟩
  exact absurd hq.length_pos (by simp [List.infix_nil.mp hinfix])

/-- A control sequence stands in front or further back. -/
theorem hasSequence_cons_iff {c : Char} {cs : List Char} :
    HasSequence (c :: cs) ↔ (∃ rest, skipSequence? (c :: cs) = some rest) ∨ HasSequence cs := by
  simp only [HasSequence, List.infix_cons_iff, and_or_left, exists_or]
  refine or_congr_left ⟨?_, ?_⟩
  · rintro ⟨q, hq, rest, heq⟩
    exact ⟨rest, skipSequence?_eq_some_iff.mpr ⟨q, hq, heq.symm⟩⟩
  · rintro ⟨rest, hskip⟩
    obtain ⟨q, hq, heq⟩ := skipSequence?_eq_some_iff.mp hskip
    exact ⟨q, hq, rest, heq.symm⟩

/-- What is behind a control sequence is shorter than the text. -/
theorem length_lt_of_skipSequence? {cs rest : List Char} (h : skipSequence? cs = some rest) :
    rest.length < cs.length := by
  obtain ⟨q, hq, rfl⟩ := skipSequence?_eq_some_iff.mp h
  have hpos := hq.length_pos
  rw [List.length_append]
  omega

theorem length_dropSequences_le (fuel : Nat) (cs : List Char) :
    (dropSequences fuel cs).length ≤ cs.length := by
  induction fuel generalizing cs with
  | zero => exact Nat.le_refl _
  | succ fuel ih =>
      cases cs with
      | nil => exact Nat.le_refl _
      | cons c cs =>
          rw [dropSequences]
          split
          next rest hskip =>
            exact Nat.le_trans (ih rest) (Nat.le_of_lt (length_lt_of_skipSequence? hskip))
          next => exact Nat.succ_le_succ (ih cs)

/-- With enough steps, a text stays as it is exactly if it has no control sequence. -/
theorem dropSequences_eq_self_iff {fuel : Nat} {cs : List Char} (h : cs.length ≤ fuel) :
    dropSequences fuel cs = cs ↔ ¬ HasSequence cs := by
  induction fuel generalizing cs with
  | zero =>
      have hnil : cs = [] := List.length_eq_zero_iff.mp (Nat.le_zero.mp h)
      subst hnil
      exact iff_of_true rfl not_hasSequence_nil
  | succ fuel ih =>
      cases cs with
      | nil => exact iff_of_true rfl not_hasSequence_nil
      | cons c cs =>
          rw [dropSequences, hasSequence_cons_iff]
          split
          next rest hskip =>
            refine iff_of_false ?_ (not_not_intro (.inl ⟨rest, hskip⟩))
            intro hsame
            -- the text would be as long as what is behind its first control sequence
            have hrest := length_dropSequences_le fuel rest
            have hshort := length_lt_of_skipSequence? hskip
            rw [hsame] at hrest
            omega
          next hnone =>
            have hrest := ih (Nat.le_of_succ_le_succ h)
            simp [hnone, hrest]

/-- A text is printed as it is exactly if no control sequence stands in it. -/
theorem printed_eq_self_iff {s : String} : printed s = s ↔ ¬ HasSequence s.toList := by
  have hlength : s.toList.length ≤ s.length := Nat.le_of_eq String.length_toList
  rw [← dropSequences_eq_self_iff hlength, printed]
  constructor
  · intro h
    rw [← String.toList_ofList (l := dropSequences s.length s.toList), h]
  · intro h
    rw [h, String.ofList_toList]

end PageDesign.Text
