/-
# PageDesign.Proofs.Number.Rounding -- decimals that read back

Reading a decimal rounds its value to the nearest code.  Two facts about rounding carry
everything that is said about written numbers: the result depends on the value alone, not on the
fraction or the mantissa and exponent that stand for it (`codeOfRatio_congr`,
`ofDecimal_scale`), and the value of a code rounds to that code (`codeOfRatio_units`).

From them the search for the shortest digits always ends with a decimal that reads back
(`ofDecimal_shortest`): what it finds was tested, and the exact value stands at its end.
-/
import Mathlib.Data.Nat.Log
import Mathlib.Tactic.NormNum
import Mathlib.Tactic.Ring
import PageDesign.Number.Decimal

namespace PageDesign

namespace Binary64

/-! ## The value of a code -/

theorem significand_pos {c : Nat} (hc : 0 < c) : 0 < significand c := by
  simp only [significand, run]
  split <;> omega

theorem significand_lt (c : Nat) : significand c < 2 ^ 53 := by
  simp only [significand, run]
  split <;> omega

/-- A code is the number of its run and the place of its significand in the run. -/
theorem shift_mul_run_add_significand (c : Nat) : shift c * run + significand c = c := by
  simp only [shift, significand, run]
  split <;> omega

/-- The value of a code has its leading binary digit 52 places above its shift, unless the code
is its own value. -/
theorem log2_units_sub (c : Nat) : (units c).log2 - 52 = shift c := by
  by_cases hc : c < 2 * run
  · have hunits : units c = c := by simp [units, significand, shift, hc]
    rw [hunits, shift, if_pos hc]
    by_cases hzero : c = 0
    · simp [hzero]
    · simp only [run] at hc
      have hlt : c.log2 < 53 := (Nat.log2_lt hzero).mpr (by omega)
      omega
  · have hsignificand : 2 ^ 52 ≤ significand c := by
      simp only [significand, run] at hc ⊢
      rw [if_neg hc]
      omega
    have hne : units c ≠ 0 := Nat.pos_iff_ne_zero.mp
      (Nat.mul_pos (Nat.lt_of_lt_of_le (by decide) hsignificand) (Nat.pow_pos (by decide)))
    have hlog : (units c).log2 = 52 + shift c := by
      rw [Nat.log2_eq_iff hne]
      constructor
      · rw [pow_add]
        exact Nat.mul_le_mul_right _ hsignificand
      · rw [Nat.add_right_comm, pow_add]
        exact Nat.mul_lt_mul_of_pos_right (significand_lt c) (Nat.pow_pos (by decide))
    omega

/-! ## Rounding depends on the value -/

theorem roundDiv_mul_right (num den k : Nat) (hk : 0 < k) :
    roundDiv (num * k) (den * k) = roundDiv num den := by
  have hdiv : num * k / (den * k) = num / den := Nat.mul_div_mul_right num den hk
  have hmod : 2 * (num * k % (den * k)) = 2 * (num % den) * k := by
    rw [Nat.mul_mod_mul_right, Nat.mul_assoc]
  have hlt : den * k < 2 * (num % den) * k ↔ den < 2 * (num % den) := Nat.mul_lt_mul_right hk
  have heq : 2 * (num % den) * k = den * k ↔ 2 * (num % den) = den :=
    Nat.mul_left_inj (Nat.pos_iff_ne_zero.mp hk)
  simp only [roundDiv, hdiv, hmod, hlt, heq]

theorem roundDiv_mul_self (q den : Nat) (hden : 0 < den) : roundDiv (q * den) den = q := by
  have hmod : q * den % den = 0 := Nat.mul_mod_left q den
  have hdiv : q * den / den = q := Nat.mul_div_cancel q hden
  rw [roundDiv, hmod, hdiv]
  simp only [Nat.mul_zero, Nat.not_lt_zero, false_or]
  rw [if_neg fun h => hden.ne h.1]

theorem codeOfRatio_mul_right (num den k : Nat) (hk : 0 < k) :
    codeOfRatio (num * k) (den * k) = codeOfRatio num den := by
  have hscaled : num * k * unitsPerOne = num * unitsPerOne * k := Nat.mul_right_comm num k _
  have hden (s : Nat) : den * k * Nat.pow 2 s = den * Nat.pow 2 s * k := Nat.mul_right_comm den k _
  rw [codeOfRatio, codeOfRatio]
  simp only [hscaled, hden, Nat.mul_div_mul_right _ _ hk, roundDiv_mul_right _ _ _ hk]

/-- Equal fractions round to the same code. -/
theorem codeOfRatio_congr {num den num' den' : Nat} (hden : 0 < den) (hden' : 0 < den')
    (h : num * den' = num' * den) : codeOfRatio num den = codeOfRatio num' den' := by
  rw [← codeOfRatio_mul_right num den den' hden', h, Nat.mul_comm den den',
    codeOfRatio_mul_right num' den' den hden]

theorem unitsPerOne_pos : 0 < unitsPerOne := by decide +kernel

/-- The value of a code rounds to the code. -/
theorem codeOfRatio_units (c : Nat) {k : Nat} (hk : 0 < k) :
    codeOfRatio (units c * k) (unitsPerOne * k) = c := by
  have hones := unitsPerOne_pos
  have hscaled : units c * unitsPerOne / unitsPerOne = units c := Nat.mul_div_cancel _ hones
  have hround : roundDiv (units c * unitsPerOne) (unitsPerOne * Nat.pow 2 (shift c)) =
      significand c := by
    have hmul : units c * unitsPerOne =
        significand c * (unitsPerOne * Nat.pow 2 (shift c)) := by
      rw [units, Nat.mul_assoc, Nat.mul_comm (Nat.pow 2 _)]
    rw [hmul]
    exact roundDiv_mul_self _ _ (Nat.mul_pos hones (Nat.pow_pos (by decide)))
  rw [codeOfRatio_mul_right _ _ _ hk, codeOfRatio]
  simp only [hscaled, log2_units_sub, hround]
  exact shift_mul_run_add_significand c

/-! ## Decimals -/

/-- The code that a decimal rounds to. -/
def decimalCode (mantissa : Nat) (exponent : Int) : Nat :=
  codeOfRatio (mantissa * Nat.pow 10 exponent.toNat) (Nat.pow 10 (-exponent).toNat)

theorem decimalCode_neg (mantissa places : Nat) :
    decimalCode mantissa (-(places : Int)) = codeOfRatio mantissa (Nat.pow 10 places) := by
  have hnum : (-(places : Int)).toNat = 0 := by omega
  have hden : (-(-(places : Int))).toNat = places := by omega
  rw [decimalCode, hnum, hden, Nat.pow_eq, pow_zero, Nat.mul_one]

/-- The magnitudes that are not settled by the number of their digits. -/
def NearRange (mantissa : Nat) (exponent : Int) : Prop :=
  -330 ≤ (digitCount mantissa : Int) + exponent ∧ (digitCount mantissa : Int) + exponent ≤ 330

/-- A decimal that is not settled by the number of its digits is rounded. -/
theorem ofDecimal_eq (negative : Bool) {mantissa : Nat} {exponent : Int} (hm : mantissa ≠ 0)
    (h : NearRange mantissa exponent) :
    ofDecimal negative mantissa exponent = ofCode negative (decimalCode mantissa exponent) := by
  obtain ⟨hlow, hhigh⟩ := h
  have hsmall : ¬ (mantissa = 0 ∨ (digitCount mantissa : Int) + exponent < -330) := by omega
  have hlarge : ¬ 330 < (digitCount mantissa : Int) + exponent := by omega
  rw [ofDecimal]
  simp only [if_neg hsmall, if_neg hlarge]
  split
  next he =>
    have hneg : (-exponent).toNat = 0 := by omega
    rw [ofRatio, decimalCode, hneg, Nat.pow_eq, Nat.pow_eq, pow_zero]
  next he =>
    have hpos : exponent.toNat = 0 := by omega
    rw [ofRatio, decimalCode, hpos]
    simp

theorem digitCount_le_iff {n k : Nat} (hk : 0 < k) : digitCount n ≤ k ↔ n < 10 ^ k :=
  Nat.length_toDigits_le_iff (by decide) hk

theorem lt_digitCount_iff {n k : Nat} (hk : 0 < k) : k < digitCount n ↔ 10 ^ k ≤ n := by
  rw [← Nat.not_le, digitCount_le_iff hk, Nat.not_lt]

theorem digitCount_mul_pow {n : Nat} (hn : n ≠ 0) (k : Nat) :
    digitCount (n * 10 ^ k) = digitCount n + k := by
  have hpos : 0 < digitCount n := Nat.length_toDigits_pos
  have hupper : n < 10 ^ digitCount n := (digitCount_le_iff hpos).mp (Nat.le_refl _)
  apply Nat.le_antisymm
  · rw [digitCount_le_iff (Nat.add_pos_left hpos k), pow_add]
    exact Nat.mul_lt_mul_of_pos_right hupper (Nat.pow_pos (by decide))
  · by_cases hone : digitCount n + k = 1
    · rw [hone]
      exact Nat.length_toDigits_pos
    · have hlower : 10 ^ (digitCount n - 1) ≤ n := by
        by_cases hsingle : digitCount n = 1
        · rw [hsingle]
          exact Nat.pos_iff_ne_zero.mpr hn
        · exact (lt_digitCount_iff (by omega)).mp (by omega)
      have hk : digitCount n + k - 1 < digitCount (n * 10 ^ k) := by
        rw [lt_digitCount_iff (by omega), show digitCount n + k - 1 = digitCount n - 1 + k by omega,
          pow_add]
        exact Nat.mul_le_mul_right _ hlower
      omega

/-- Zeros at the end of the mantissa that the exponent makes up for do not change what is
read. -/
theorem ofDecimal_scale (negative : Bool) (mantissa : Nat) (exponent : Int) (k : Nat) :
    ofDecimal negative (mantissa * 10 ^ k) (exponent - k) =
      ofDecimal negative mantissa exponent := by
  by_cases hm : mantissa = 0
  · simp [ofDecimal, hm]
  have hmk : mantissa * 10 ^ k ≠ 0 := Nat.mul_ne_zero hm (Nat.pow_pos (by decide)).ne'
  have htop : (digitCount (mantissa * 10 ^ k) : Int) + (exponent - k) =
      digitCount mantissa + exponent := by
    rw [digitCount_mul_pow hm]
    omega
  by_cases hnear : NearRange mantissa exponent
  · have hnear' : NearRange (mantissa * 10 ^ k) (exponent - k) := by
      rw [NearRange, htop]
      exact hnear
    rw [ofDecimal_eq negative hm hnear, ofDecimal_eq negative hmk hnear']
    refine congrArg (ofCode negative) ?_
    rw [decimalCode, decimalCode]
    simp only [Nat.pow_eq]
    refine codeOfRatio_congr (Nat.pow_pos (by decide)) (Nat.pow_pos (by decide)) ?_
    -- both sides are the mantissa times one power of ten
    have hpow : k + (exponent - k).toNat + (-exponent).toNat =
        exponent.toNat + (-(exponent - k)).toNat := by omega
    rw [Nat.mul_assoc mantissa, ← pow_add, Nat.mul_assoc, ← pow_add, hpow, pow_add, Nat.mul_assoc]
  · -- what is too small or too large is so in both forms
    rw [NearRange, not_and_or, Int.not_le, Int.not_le] at hnear
    rw [ofDecimal, ofDecimal]
    simp only [htop, hm, hmk, false_or]
    rcases hnear with h | h
    · rw [if_pos h, if_pos h]
    · have hnot : ¬ (digitCount mantissa : Int) + exponent < -330 := by omega
      rw [if_neg hnot, if_neg hnot, if_pos h, if_pos h]

/-! ## The exact decimal of a code -/

theorem units_pos {c : Nat} (hc : 0 < c) : 0 < units c :=
  Nat.mul_pos (significand_pos hc) (Nat.pow_pos (by decide))

theorem units_lt {c : Nat} (hc : c < codeCount) : units c < 2 ^ 2098 := by
  have hshift : shift c ≤ 2045 := by
    have hdiv : c / run < 2047 := (Nat.div_lt_iff_lt_mul (by decide)).mpr hc
    rw [shift]
    split <;> omega
  calc units c < 2 ^ 53 * 2 ^ shift c :=
        Nat.mul_lt_mul_of_pos_right (significand_lt c) (Nat.pow_pos (by decide))
    _ ≤ 2 ^ 53 * 2 ^ 2045 := Nat.mul_le_mul_left _ (Nat.pow_le_pow_right (by decide) hshift)
    _ = 2 ^ 2098 := by decide +kernel

theorem ten_pow_le_five_pow : 10 ^ 750 ≤ Nat.pow 5 1074 := by decide +kernel

theorem two_pow_mul_five_pow_lt : 2 ^ 2098 * Nat.pow 5 1074 < 10 ^ 1400 := by decide +kernel

theorem five_pow_pos : 0 < Nat.pow 5 1074 := by decide +kernel

/-- The exponent stays a variable, since a power this large must not be computed in a proof. -/
theorem mantissa_exact (c : Nat) :
    ∀ places, places = 1074 → (Decimal.exact c).mantissa = units c * Nat.pow 5 places
  | _, rfl => rfl

/-- The exact value of a magnitude is not settled by the number of its digits. -/
theorem nearRange_exact {c : Nat} (hc : c < codeCount) (hpos : 0 < c) :
    NearRange (Decimal.exact c).mantissa (Decimal.exact c).exponent := by
  have hlow : 10 ^ 750 ≤ (Decimal.exact c).mantissa := by
    rw [mantissa_exact c _ rfl]
    exact Nat.le_trans ten_pow_le_five_pow (Nat.le_mul_of_pos_left _ (units_pos hpos))
  have hhigh : (Decimal.exact c).mantissa < 10 ^ 1400 := by
    rw [mantissa_exact c _ rfl]
    refine Nat.lt_trans ?_ two_pow_mul_five_pow_lt
    exact Nat.mul_lt_mul_of_pos_right (units_lt hc) five_pow_pos
  rw [← lt_digitCount_iff (by decide)] at hlow
  rw [← digitCount_le_iff (by decide)] at hhigh
  have hexponent : (Decimal.exact c).exponent = -1074 := rfl
  rw [NearRange, hexponent]
  omega

theorem ofDecimal_exact (negative : Bool) {c : Nat} (hc : c < codeCount) :
    ofDecimal negative (Decimal.exact c).mantissa (Decimal.exact c).exponent =
      ofCode negative c := by
  by_cases hzero : c = 0
  · subst hzero
    have hm : (Decimal.exact 0).mantissa = 0 := by decide +kernel
    rw [hm, ofDecimal, if_pos (.inl rfl), ofCode, dif_pos hc]
  have hpos := Nat.pos_of_ne_zero hzero
  have hne : (Decimal.exact c).mantissa ≠ 0 := by
    rw [mantissa_exact c _ rfl]
    exact (Nat.mul_pos (units_pos hpos) five_pow_pos).ne'
  rw [ofDecimal_eq negative hne (nearRange_exact hc hpos)]
  refine congrArg (ofCode negative) ?_
  obtain ⟨places, hplaces⟩ : ∃ n : Nat, n = 1074 := ⟨_, rfl⟩
  have hten : Nat.pow 10 places = unitsPerOne * Nat.pow 5 places := by
    subst hplaces
    decide +kernel
  have hexponent : (Decimal.exact c).exponent = -(places : Int) := hplaces ▸ rfl
  rw [mantissa_exact c places hplaces, hexponent, decimalCode_neg, hten]
  exact codeOfRatio_units c (Nat.pow_pos (by decide))

end Binary64

/-! ## The shortest decimal of a code -/

namespace Decimal

open Binary64

/-- Every decimal is read as a magnitude, to which the sign adds nothing but itself. -/
theorem exists_code (mantissa : Nat) (exponent : Int) :
    ∃ c, ∀ negative, ofDecimal negative mantissa exponent = ofCode negative c := by
  by_cases hm : mantissa = 0
  · exact ⟨0, fun negative => by simp [ofDecimal, hm, ofCode]⟩
  by_cases hnear : NearRange mantissa exponent
  · exact ⟨_, fun negative => ofDecimal_eq negative hm hnear⟩
  rw [NearRange, not_and_or, Int.not_le, Int.not_le] at hnear
  rcases hnear with h | h
  · exact ⟨0, fun negative => by simp [ofDecimal, h, ofCode]⟩
  · have hnot : ¬ (digitCount mantissa : Int) + exponent < -330 := by omega
    exact ⟨codeCount, fun negative => by simp [ofDecimal, h, hm, hnot, ofCode]⟩

theorem ofDecimal_of_readsBackTo {d : Decimal} {c : Nat} (hc : c < codeCount)
    (h : d.readsBackTo c = true) (negative : Bool) :
    ofDecimal negative d.mantissa d.exponent = ofCode negative c := by
  obtain ⟨e, he⟩ := exists_code d.mantissa d.exponent
  rw [readsBackTo, beq_iff_eq, he, ofCode, ofCode, dif_pos hc] at h
  rw [he]
  split at h
  next => simp_all
  next => cases h

/-- The shortest decimal of a magnitude is read back as the magnitude. -/
theorem ofDecimal_shortest (negative : Bool) {c : Nat} (hc : c < codeCount) :
    ofDecimal negative (shortest c).mantissa (shortest c).exponent = ofCode negative c := by
  rw [shortest]
  cases hfound : (List.range' 1 17).findSome? fun n =>
      ((exact c).neighbours (digitCount (exact c).mantissa - n)).find? (readsBackTo · c) with
  | none => exact ofDecimal_exact negative hc
  | some d =>
      obtain ⟨n, -, hn⟩ := List.exists_of_findSome?_eq_some hfound
      have hreads : d.readsBackTo c = true := by
        have h := List.find?_some hn
        exact h
      exact ofDecimal_of_readsBackTo hc hreads negative

theorem mantissa_shortest_ne_zero {c : Nat} (hc : c < codeCount) (hpos : 0 < c) :
    (shortest c).mantissa ≠ 0 := by
  intro hzero
  have h := ofDecimal_shortest false hc
  rw [hzero, ofDecimal, ofCode, dif_pos hc] at h
  simp at h
  omega

end Decimal

end PageDesign
