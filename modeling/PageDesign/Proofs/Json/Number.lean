/-
# PageDesign.Proofs.Json.Number -- written numbers read back

A number is written as digits, perhaps with a point and an exponent, and is read from digits up
to the first character that cannot go on with them.  Wherever such a character follows
(`EndsNumber`), an integer reads back as the integer (`readScalar_integer`) and the shortest
digits of a finite number, in every layout that keeps the point, read back as that number
(`readScalar_shortest`).
-/
import Mathlib.Data.List.Basic
import Mathlib.Data.List.TakeWhile
import PageDesign.Json.Parser
import PageDesign.Number.Notation
import PageDesign.Proofs.Number.Rounding

namespace PageDesign

/-! ## Digits -/

/-- Characters that are decimal digits. -/
def AreDigits (ds : List Char) : Prop := ∀ c ∈ ds, c.isDigit = true

theorem AreDigits.append {ds es : List Char} (hds : AreDigits ds) (hes : AreDigits es) :
    AreDigits (ds ++ es) :=
  List.forall_mem_append.mpr ⟨hds, hes⟩

theorem areDigits_zeros (n : Nat) : AreDigits (Notation.zeros n) := by
  intro c hc
  rw [List.eq_of_mem_replicate hc]
  rfl

theorem areDigits_toDigits (n : Nat) : AreDigits (Nat.toDigits 10 n) :=
  fun _ hc => Nat.isDigit_of_mem_toDigits (by decide) (by decide) hc

theorem areDigits_padded (width n : Nat) : AreDigits (Notation.padded width n) :=
  (areDigits_zeros _).append (areDigits_toDigits n)

theorem head_toDigits_ne_zero {n : Nat} (hn : n ≠ 0) : (Nat.toDigits 10 n).head? ≠ some '0' := by
  induction n using Nat.strongRecOn with
  | _ n ih =>
      rw [Nat.toDigits_eq_if (by decide)]
      split
      next hlt =>
        have hdigits : ∀ k, k < 10 → k ≠ 0 → some k.digitChar ≠ some '0' := by decide
        exact hdigits n hlt hn
      next hle =>
        rw [List.head?_append_of_ne_nil _ Nat.toDigits_ne_nil]
        exact ih (n / 10) (Nat.div_lt_self (by omega) (by decide)) (by omega)

namespace Json

theorem natOfDigits_eq (ds : List Char) : natOfDigits ds = Nat.ofDigitChars 10 ds 0 := by
  rw [natOfDigits, Nat.ofDigitChars_eq_foldl]
  simp only [Nat.mul_comm]
  rfl

theorem natOfDigits_toDigits (n : Nat) : natOfDigits (Nat.toDigits 10 n) = n := by
  rw [natOfDigits_eq, Nat.ofDigitChars_ten_toDigits]

theorem natOfDigits_append_zeros (ds : List Char) (k : Nat) :
    natOfDigits (ds ++ Notation.zeros k) = natOfDigits ds * 10 ^ k := by
  rw [natOfDigits_eq, Nat.ofDigitChars_append, Notation.zeros, Nat.ofDigitChars_replicate_zero,
    natOfDigits_eq, Nat.mul_comm]

theorem natOfDigits_zeros_append (k : Nat) (ds : List Char) :
    natOfDigits (Notation.zeros k ++ ds) = natOfDigits ds := by
  rw [natOfDigits_eq, Nat.ofDigitChars_append, Notation.zeros, Nat.ofDigitChars_replicate_zero,
    Nat.mul_zero, natOfDigits_eq]

theorem natOfDigits_padded (width n : Nat) : natOfDigits (Notation.padded width n) = n := by
  rw [Notation.padded, natOfDigits_zeros_append, natOfDigits_toDigits]

/-! ## The end of a number -/

/-- What follows cannot go on with a number. -/
def EndsNumber (rest : List Char) : Prop :=
  ∀ c, rest.head? = some c → c.isDigit = false ∧ c ≠ '.' ∧ c ≠ 'e' ∧ c ≠ 'E'

theorem spanDigits_append {ds rest : List Char} (hds : AreDigits ds)
    (hrest : ∀ c, rest.head? = some c → c.isDigit = false) :
    spanDigits (ds ++ rest) = (ds, rest) := by
  have hstop : rest.takeWhile Char.isDigit = [] ∧ rest.dropWhile Char.isDigit = rest := by
    cases rest with
    | nil => exact ⟨rfl, rfl⟩
    | cons c cs =>
        have hc : c.isDigit = false := hrest c rfl
        simp [hc]
  rw [spanDigits, List.takeWhile_append_of_pos hds, List.dropWhile_append_of_pos hds, hstop.1,
    hstop.2, List.append_nil]

theorem EndsNumber.readFraction {rest : List Char} (h : EndsNumber rest) :
    readFraction rest = some ([], rest) := by
  cases rest with
  | nil => rfl
  | cons c cs =>
      have hc : c ≠ '.' := (h c rfl).2.1
      rw [Json.readFraction]
      intro cs' heq
      exact hc (List.cons.inj heq).1

theorem EndsNumber.readExponent {rest : List Char} (h : EndsNumber rest) :
    readExponent rest = some (none, rest) := by
  cases rest with
  | nil => rfl
  | cons c cs =>
      obtain ⟨-, -, he, hE⟩ := h c rfl
      rw [Json.readExponent, if_neg (by simp [he, hE])]

/-- The digits in front of a number: there is one, and no zero in front of others. -/
structure Leads (whole : List Char) : Prop where
  digits : AreDigits whole
  nonempty : whole ≠ []
  plain : whole.head? = some '0' → whole.length = 1

theorem leads_zero : Leads ['0'] := ⟨areDigits_zeros 1, by decide, fun _ => rfl⟩

theorem leads_toDigits (n : Nat) : Leads (Nat.toDigits 10 n) := by
  refine ⟨areDigits_toDigits n, Nat.toDigits_ne_nil, fun h => ?_⟩
  by_cases hn : n = 0
  · rw [hn, Nat.toDigits_zero]
    rfl
  · exact absurd h (head_toDigits_ne_zero hn)

/-- A number is read as its digits, its fraction and its exponent. -/
theorem readMagnitude_append {whole tail tail' rest fraction : List Char} {exponent : Option Int}
    (negative : Bool) (hwhole : Leads whole)
    (htail : ∀ c, tail.head? = some c → c.isDigit = false)
    (hfraction : readFraction tail = some (fraction, tail'))
    (hexponent : readExponent tail' = some (exponent, rest)) :
    readMagnitude negative (whole ++ tail) =
      some (number negative whole fraction exponent, rest) := by
  have hplain : ¬ (whole.isEmpty = true ∨ whole.head? = some '0' ∧ whole.length ≠ 1) := by
    rintro (h | ⟨h, hlength⟩)
    · exact hwhole.nonempty (List.isEmpty_iff.mp h)
    · exact hlength (hwhole.plain h)
  rw [readMagnitude, spanDigits_append hwhole.digits htail]
  simp only [if_neg hplain, hfraction, hexponent, Option.bind_eq_bind, Option.bind_some,
    Option.pure_def]

/-! ## Scalars that begin with a digit -/

theorem readScalar_digit (dialect : Dialect) {c : Char} (hc : c.isDigit = true) (cs : List Char) :
    readScalar dialect (c :: cs) = readMagnitude false (c :: cs) := by
  have hne {d : Char} (hd : d.isDigit = false) : c ≠ d := by
    rintro rfl
    simp [hc] at hd
  have hn := hne (d := 'n') rfl
  have ht := hne (d := 't') rfl
  have hf := hne (d := 'f') rfl
  have hminus := hne (d := '-') rfl
  have hN := hne (d := 'N') rfl
  have hI := hne (d := 'I') rfl
  rw [readScalar.eq_def]
  cases dialect <;> split <;> simp_all

theorem readNegative_digit (dialect : Dialect) {c : Char} (hc : c.isDigit = true)
    (cs : List Char) : readNegative dialect (c :: cs) = readMagnitude true (c :: cs) := by
  have hI : c ≠ 'I' := by
    rintro rfl
    simp at hc
  rw [readNegative.eq_def]
  split <;> simp_all

/-- A number with its sign in front is read as its sign and its magnitude. -/
theorem readScalar_signed (dialect : Dialect) (negative : Bool) {cs rest : List Char} {c : Char}
    (hhead : cs.head? = some c) (hc : c.isDigit = true) :
    readScalar dialect (Notation.signed negative cs ++ rest) =
      readMagnitude negative (cs ++ rest) := by
  obtain ⟨cs, rfl⟩ : ∃ cs', cs = c :: cs' := by
    cases cs with
    | nil => cases hhead
    | cons d ds => exact ⟨ds, by rw [Option.some.inj hhead]⟩
  cases negative with
  | false => exact readScalar_digit dialect hc _
  | true => exact readNegative_digit dialect hc _

/-! ## Integers -/

theorem readScalar_integer (dialect : Dialect) (n : Int) {rest : List Char}
    (hrest : EndsNumber rest) :
    readScalar dialect ((Notation.integer n).toList ++ rest) = some (int n, rest) := by
  have hleads := leads_toDigits n.natAbs
  obtain ⟨c, hc⟩ : ∃ c, (Nat.toDigits 10 n.natAbs).head? = some c :=
    Option.isSome_iff_exists.mp (List.isSome_head?.mpr hleads.nonempty)
  have hdigit : c.isDigit = true := hleads.digits c (List.mem_of_mem_head? hc)
  rw [Notation.integer, String.toList_ofList, readScalar_signed dialect _ hc hdigit,
    readMagnitude_append _ hleads (fun c h => (hrest c h).1) hrest.readFraction hrest.readExponent]
  have hvalue : (if decide (n < 0) = true then -(n.natAbs : Int) else n.natAbs) = n := by
    simp only [decide_eq_true_eq]
    split <;> omega
  simp only [number, natOfDigits_toDigits, hvalue, List.isEmpty_nil, Option.isNone_none, and_self,
    if_true]

/-! ## Finite numbers -/

/-- Digits are those that are kept when zeros are taken off the end, and some zeros. -/
theorem exists_zeros_at_end (ds : List Char) :
    ∃ k, ds = (ds.reverse.dropWhile (· == '0')).reverse ++ Notation.zeros k := by
  have hzeros : (ds.reverse.takeWhile (· == '0')).reverse =
      Notation.zeros (ds.reverse.takeWhile (· == '0')).length := by
    refine List.eq_replicate_iff.mpr ⟨List.length_reverse, fun c hc => ?_⟩
    have hzero := List.mem_takeWhile_imp (List.mem_reverse.mp hc)
    exact beq_iff_eq.mp hzero
  refine ⟨(ds.reverse.takeWhile (· == '0')).length, ?_⟩
  rw [← hzeros, ← List.reverse_append, List.takeWhile_append_dropWhile, List.reverse_reverse]

/-- Digits with a value other than zero, as they stand in a written number. -/
structure Significant (ds : List Char) : Prop where
  digits : AreDigits ds
  nonempty : ds ≠ []
  head : ds.head? ≠ some '0'

theorem Significant.leads_append {ds es : List Char} (hds : Significant ds) (hes : AreDigits es) :
    Leads (ds ++ es) := by
  refine ⟨hds.digits.append hes, fun h => ?_, fun h => absurd ?_ hds.head⟩
  · exact hds.nonempty (List.append_eq_nil_iff.mp h).1
  · rw [← h, List.head?_append_of_ne_nil ds hds.nonempty]

theorem Significant.leads_take {ds : List Char} (hds : Significant ds) {k : Nat} (hk : k ≠ 0) :
    Leads (ds.take k) := by
  refine ⟨fun c hc => hds.digits c (List.mem_of_mem_take hc), ?_, fun h => absurd ?_ hds.head⟩
  · simp [List.take_eq_nil_iff, hds.nonempty, hk]
  · rw [← h, List.head?_take, if_neg hk]

/-- The digits of a decimal other than zero have, with their point, the value of the decimal. -/
theorem digitsAndPoint_spec {d : Decimal} (hd : d.mantissa ≠ 0) :
    Significant d.digitsAndPoint.1 ∧
      ∀ negative, Binary64.ofDecimal negative (natOfDigits d.digitsAndPoint.1)
          (d.digitsAndPoint.2 - d.digitsAndPoint.1.length) =
        Binary64.ofDecimal negative d.mantissa d.exponent := by
  obtain ⟨kept, point, hsplit⟩ : ∃ kept point, d.digitsAndPoint = (kept, point) := ⟨_, _, rfl⟩
  have hkept : kept = ((Nat.toDigits 10 d.mantissa).reverse.dropWhile (· == '0')).reverse :=
    (congrArg Prod.fst hsplit).symm
  have hpoint : point = ((Nat.toDigits 10 d.mantissa).length : Int) + d.exponent :=
    (congrArg Prod.snd hsplit).symm
  obtain ⟨k, hall⟩ := exists_zeros_at_end (Nat.toDigits 10 d.mantissa)
  rw [← hkept] at hall
  have hvalue : d.mantissa = natOfDigits kept * 10 ^ k := by
    rw [← natOfDigits_append_zeros, ← hall, natOfDigits_toDigits]
  have hne : kept ≠ [] := by
    rintro rfl
    rw [natOfDigits_eq, Nat.ofDigitChars_nil, Nat.zero_mul] at hvalue
    exact hd hvalue
  rw [hsplit]
  refine ⟨⟨fun c hc => ?_, hne, ?_⟩, fun negative => ?_⟩
  · exact areDigits_toDigits d.mantissa c (hall ▸ List.mem_append_left _ hc)
  · rw [← List.head?_append_of_ne_nil kept hne, ← hall]
    exact head_toDigits_ne_zero hd
  · -- the exponent makes up for the zeros that were taken off
    have hlength : point - kept.length = d.exponent + k := by
      rw [hpoint, hall, List.length_append, Notation.zeros, List.length_replicate]
      omega
    rw [hlength, hvalue, ← Binary64.ofDecimal_scale negative (natOfDigits kept) (d.exponent + k) k,
      Int.add_sub_cancel]

/-- A number with a fraction or an exponent is no integer. -/
theorem number_eq_float {negative : Bool} {whole fraction : List Char} {exponent : Option Int}
    (h : fraction ≠ [] ∨ exponent.isSome) :
    number negative whole fraction exponent =
      float (Binary64.ofDecimal negative (natOfDigits (whole ++ fraction))
        (exponent.getD 0 - fraction.length)) := by
  have hnot : ¬ (fraction.isEmpty = true ∧ exponent.isNone = true) := by
    rintro ⟨hfraction, hexponent⟩
    rcases h with h | h
    · exact h (List.isEmpty_iff.mp hfraction)
    · rw [Option.isNone_iff_eq_none.mp hexponent] at h
      cases h
  rw [number, if_neg hnot]

theorem readFraction_point {fraction rest : List Char} (hdigits : AreDigits fraction)
    (hne : fraction ≠ []) (hrest : ∀ c, rest.head? = some c → c.isDigit = false) :
    readFraction ('.' :: (fraction ++ rest)) = some (fraction, rest) := by
  have hempty : ¬ fraction.isEmpty = true := fun h => hne (List.isEmpty_iff.mp h)
  rw [readFraction, spanDigits_append hdigits hrest]
  simp only [if_neg hempty]

/-- A number with a point in it is its digits before and after the point. -/
theorem readMagnitude_point {whole fraction rest : List Char} (negative : Bool)
    (hwhole : Leads whole) (hdigits : AreDigits fraction) (hne : fraction ≠ [])
    (hrest : EndsNumber rest) :
    readMagnitude negative (whole ++ '.' :: fraction ++ rest) =
      some (float (Binary64.ofDecimal negative (natOfDigits (whole ++ fraction))
        (-fraction.length)), rest) := by
  have hfraction := readFraction_point hdigits hne fun c h => (hrest c h).1
  have hpoint (c : Char) (h : ('.' :: (fraction ++ rest)).head? = some c) : c.isDigit = false := by
    cases h
    rfl
  rw [List.append_assoc, List.cons_append,
    readMagnitude_append negative hwhole hpoint hfraction hrest.readExponent,
    number_eq_float (.inl hne), Option.getD_none, Int.zero_sub]

/-- Digits without an exponent read back with their point where it was. -/
theorem readMagnitude_positional {ds rest : List Char} (negative : Bool) (point : Int)
    (hds : Significant ds) (hrest : EndsNumber rest) :
    readMagnitude negative (Notation.positional true ds point ++ rest) =
      some (float (Binary64.ofDecimal negative (natOfDigits ds) (point - ds.length)), rest) := by
  rw [Notation.positional]
  split
  next hpoint =>
    -- a zero, the point, zeros, the digits
    have hvalue : natOfDigits (['0'] ++ (Notation.zeros (-point).toNat ++ ds)) = natOfDigits ds := by
      change natOfDigits (Notation.zeros 1 ++ _) = _
      rw [natOfDigits_zeros_append, natOfDigits_zeros_append]
    have hlength : -((Notation.zeros (-point).toNat ++ ds).length : Int) = point - ds.length := by
      rw [List.length_append, Notation.zeros, List.length_replicate]
      omega
    have hread := readMagnitude_point negative leads_zero
      ((areDigits_zeros (-point).toNat).append hds.digits)
      (fun h => hds.nonempty (List.append_eq_nil_iff.mp h).2) hrest
    rw [hvalue, hlength] at hread
    exact hread
  next hpoint =>
    dsimp only
    split
    next hle =>
      -- the digits, zeros, the point, a zero
      have hwhole : Leads (ds ++ Notation.zeros (point.toNat - ds.length)) :=
        hds.leads_append (areDigits_zeros _)
      have hvalue : natOfDigits (ds ++ Notation.zeros (point.toNat - ds.length) ++ ['0']) =
          natOfDigits ds * 10 ^ (point.toNat - ds.length + 1) := by
        change natOfDigits (_ ++ Notation.zeros 1) = _
        rw [natOfDigits_append_zeros, natOfDigits_append_zeros, Nat.mul_assoc, ← Nat.pow_add]
      have hexponent : (-(['0'].length : Int)) =
          point - ds.length - (point.toNat - ds.length + 1 : Nat) := by
        rw [List.length_singleton]
        omega
      have hread := readMagnitude_point negative hwhole leads_zero.digits (by decide) hrest
      rw [hvalue, hexponent, Binary64.ofDecimal_scale] at hread
      simpa using hread
    next hlt =>
      -- the point is among the digits
      have hpos : point.toNat ≠ 0 := by omega
      have hsplit : ds.take point.toNat ++ ds.drop point.toNat = ds := List.take_append_drop _ ds
      have hlength : -((ds.drop point.toNat).length : Int) = point - ds.length := by
        rw [List.length_drop]
        omega
      have hread := readMagnitude_point negative (hds.leads_take hpos)
        (fun c hc => hds.digits c (List.mem_of_mem_drop hc))
        (fun h => hlt (List.drop_eq_nil_iff.mp h)) hrest
      rw [hsplit, hlength] at hread
      exact hread

theorem readExponent_padded (width : Nat) (e : Int) {rest : List Char} (hrest : EndsNumber rest) :
    readExponent ('e' :: (if e < 0 then '-' else '+') ::
      (Notation.padded width e.natAbs ++ rest)) = some (some e, rest) := by
  have hspan := spanDigits_append (areDigits_padded width e.natAbs) fun c h => (hrest c h).1
  have hne : ¬ (Notation.padded width e.natAbs).isEmpty = true := by
    intro h
    have := List.isEmpty_iff.mp h
    rw [Notation.padded] at this
    exact Nat.toDigits_ne_nil (List.append_eq_nil_iff.mp this).2
  rw [readExponent, if_pos (.inl rfl)]
  by_cases he : e < 0
  · have habs : -(e.natAbs : Int) = e := by omega
    simp only [he, if_true, readSignedDigits, hspan, hne, natOfDigits_padded, habs]
    rfl
  · have habs : (e.natAbs : Int) = e := by omega
    simp only [he, if_false, readSignedDigits, hspan, hne, natOfDigits_padded, habs]
    rfl

/-- Digits with an exponent read back with their point where it was. -/
theorem readMagnitude_scientific {ds rest : List Char} (negative : Bool) (width : Nat) (point : Int)
    (hds : Significant ds) (hrest : EndsNumber rest) :
    readMagnitude negative (Notation.scientific width ds point ++ rest) =
      some (float (Binary64.ofDecimal negative (natOfDigits ds) (point - ds.length)), rest) := by
  have hlength : 0 < ds.length := List.length_pos_iff.mpr hds.nonempty
  -- what stands behind the first digit
  obtain ⟨tail, htail⟩ : ∃ tail, tail = 'e' :: (if point - 1 < 0 then '-' else '+') ::
      (Notation.padded width (point - 1).natAbs ++ rest) := ⟨_, rfl⟩
  have hexponent : readExponent tail = some (some (point - 1), rest) := by
    rw [htail]
    exact readExponent_padded width (point - 1) hrest
  have htailhead (c : Char) (h : tail.head? = some c) : c.isDigit = false := by
    rw [htail] at h
    cases h
    rfl
  have hwritten : Notation.scientific width ds point ++ rest = ds.take 1 ++
      ((if (ds.drop 1).isEmpty then [] else '.' :: ds.drop 1) ++ tail) := by
    simp only [Notation.scientific, htail, List.append_assoc, List.cons_append]
  have hfraction : readFraction ((if (ds.drop 1).isEmpty then [] else '.' :: ds.drop 1) ++ tail) =
      some (ds.drop 1, tail) := by
    split
    next hempty => rw [List.isEmpty_iff.mp hempty, htail]; rfl
    next hempty =>
      exact readFraction_point (fun c hc => hds.digits c (List.mem_of_mem_drop hc))
        (fun h => hempty (List.isEmpty_iff.mpr h)) htailhead
  have hhead (c : Char)
      (h : ((if (ds.drop 1).isEmpty then [] else '.' :: ds.drop 1) ++ tail).head? = some c) :
      c.isDigit = false := by
    split at h
    next => exact htailhead c h
    next =>
      cases h
      rfl
  have hplaces : (some (point - 1)).getD 0 - ((ds.drop 1).length : Int) = point - ds.length := by
    rw [Option.getD_some, List.length_drop]
    omega
  rw [hwritten, readMagnitude_append negative (hds.leads_take Nat.one_ne_zero) hhead hfraction
    hexponent, number_eq_float (.inr rfl), List.take_append_drop, hplaces]

/-- Digits in a layout that keeps the point read back with their point where it was. -/
theorem readMagnitude_magnitude {ds rest : List Char} {style : Notation.Style} (negative : Bool)
    (point : Int) (hstyle : style.keepPoint = true) (hds : Significant ds)
    (hrest : EndsNumber rest) :
    readMagnitude negative (Notation.magnitude style ds point ++ rest) =
      some (float (Binary64.ofDecimal negative (natOfDigits ds) (point - ds.length)), rest) := by
  have hempty : ¬ ds.isEmpty = true := fun h => hds.nonempty (List.isEmpty_iff.mp h)
  rw [Notation.magnitude, if_neg hempty, hstyle]
  split
  next => exact readMagnitude_positional negative point hds hrest
  next => exact readMagnitude_scientific negative style.exponentWidth point hds hrest

/-- A magnitude begins with a digit. -/
theorem head_magnitude {ds : List Char} (style : Notation.Style) (point : Int)
    (hds : AreDigits ds) :
    ∃ c, (Notation.magnitude style ds point).head? = some c ∧ c.isDigit = true := by
  cases ds with
  | nil => exact ⟨'0', rfl, rfl⟩
  | cons d ds =>
      have hd : d.isDigit = true := hds d (List.mem_cons_self ..)
      rw [Notation.magnitude, if_neg (by simp)]
      split
      next =>
        rw [Notation.positional]
        split
        next => exact ⟨'0', rfl, rfl⟩
        next hpoint =>
          obtain ⟨p, hp⟩ : ∃ p, point.toNat = p + 1 := ⟨point.toNat - 1, by omega⟩
          refine ⟨d, ?_, hd⟩
          simp only [hp, List.take_succ_cons]
          split <;> rfl
      next => exact ⟨d, rfl, hd⟩

/-- The shortest digits of a finite number read back as that number. -/
theorem readScalar_shortest (dialect : Dialect) {style : Notation.Style}
    (hstyle : style.keepPoint = true) (negative : Bool) (c : Fin Binary64.codeCount)
    {rest : List Char} (hrest : EndsNumber rest) :
    readScalar dialect ((Notation.shortest style negative c.val).toList ++ rest) =
      some (float (.finite negative c), rest) := by
  by_cases hzero : c.val = 0
  · have hc : c = ⟨0, by decide⟩ := Fin.ext hzero
    have hwritten : Notation.magnitude style [] 0 = ['0'] ++ '.' :: ['0'] := by
      rw [Notation.magnitude, hstyle]
      rfl
    rw [Notation.shortest, if_pos hzero, String.toList_ofList,
      readScalar_signed dialect negative (c := '0') rfl rfl, hwritten]
    have hread := readMagnitude_point negative leads_zero leads_zero.digits (by decide) hrest
    rw [hc]
    exact hread
  · have hpos := Nat.pos_of_ne_zero hzero
    obtain ⟨hdigits, hvalue⟩ :=
      digitsAndPoint_spec (Decimal.mantissa_shortest_ne_zero c.isLt hpos)
    obtain ⟨d, hd, hdigit⟩ :=
      head_magnitude style (Decimal.shortest c.val).digitsAndPoint.2 hdigits.digits
    have hcode : Binary64.ofCode negative c.val = .finite negative c := by
      rw [Binary64.ofCode, dif_pos c.isLt]
    rw [Notation.shortest, if_neg hzero, String.toList_ofList,
      readScalar_signed dialect negative hd hdigit,
      readMagnitude_magnitude negative _ hstyle hdigits hrest, hvalue,
      Decimal.ofDecimal_shortest negative c.isLt, hcode]

end Json

end PageDesign
