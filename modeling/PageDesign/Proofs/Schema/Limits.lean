/-
# PageDesign.Proofs.Schema.Limits -- what is read from a text can be written to one

A strict text keeps limits: integers have at most so many characters, numbers are finite and no
key comes twice.  What the readers make of such a text keeps them too.  A number in a bounded
field may come from an integer, a number or a text, and each of these has a limit of its own; a
dictionary takes its keys over.  Only times are free: a text may spell an infinite one.
-/
import Mathlib.Data.List.Induction
import PageDesign.Proofs.Component.Record
import PageDesign.Proofs.Json.Number
import PageDesign.Proofs.Number.Rounding

namespace PageDesign

open Json (Dialect Everywhere)

/-! ## Digits -/

theorem Json.natOfDigits_lt {ds : List Char} (hds : AreDigits ds) :
    Json.natOfDigits ds < 10 ^ ds.length := by
  induction ds using List.reverseRecOn with
  | nil => simp [Json.natOfDigits]
  | append_singleton ds c ih =>
      have hdigits : AreDigits ds := fun d hd => hds d (by simp [hd])
      have hc : c.toNat - 48 ≤ 9 := by
        have hdigit : c.isDigit = true := hds c (by simp)
        simp only [Char.isDigit, Bool.and_eq_true, decide_eq_true_eq, ge_iff_le] at hdigit
        have hhigh : c.toNat ≤ 57 := UInt32.le_iff_toNat_le.mp hdigit.2
        omega
      have hsnoc : Json.natOfDigits (ds ++ [c]) = Json.natOfDigits ds * 10 + (c.toNat - 48) := by
        simp [Json.natOfDigits]
      rw [hsnoc, List.length_append, List.length_singleton, Nat.pow_succ]
      have hlt := ih hdigits
      omega

/-- An integer that is not negative is taken if it has no more digits than a text may have. -/
theorem Json.Dialect.takesInt_of_lt {dialect : Dialect} {n : Int} {k : Nat} (hn : 0 ≤ n)
    (hk : 0 < k) (hmax : k ≤ Json.maxIntegerLength) (hlt : n.natAbs < 10 ^ k) :
    dialect.takesInt n = true := by
  have hdigits : Binary64.digitCount n.natAbs ≤ k := (Binary64.digitCount_le_iff hk).mpr hlt
  have hsign : ¬ (n < 0 ∧ dialect = .strict) := by omega
  rw [takesInt, if_neg hsign, decide_eq_true_eq]
  omega

namespace Schema

theorem natAbs_signed (negative : Bool) (m : Nat) :
    (if negative then -(m : Int) else m).natAbs = m := by
  cases negative <;> simp

/-- An integer in a text has no more digits than a reader takes. -/
theorem lt_of_plainInt {cs : List Char} {n : Int} (h : plainInt cs = .value n) :
    n.natAbs < 10 ^ maxDigits := by
  have hpos : 0 < 10 ^ maxDigits := Nat.pow_pos (by decide)
  unfold plainInt at h
  simp only at h
  -- the sign decides nothing about the digits
  split at h
  all_goals
    split at h
    next =>
      split at h
      next =>
        cases h
        exact hpos
      next => cases h
    next =>
      split at h
      next => cases h
      next hlength =>
        split at h
        next => cases h
        next =>
          cases h
          rw [natAbs_signed]
          refine Nat.lt_of_lt_of_le (Json.natOfDigits_lt ?_)
            (Nat.pow_le_pow_right (by decide) (Nat.le_of_not_lt hlength))
          exact fun c hc => List.mem_takeWhile_imp hc

theorem lt_of_readIntText {s : String} {n : Int} (h : readIntText s = .value n) :
    n.natAbs < 10 ^ maxDigits := by
  unfold readIntText at h
  split at h
  next ds _ _ =>
    split at h
    next => cases h
    next => exact lt_of_plainInt h
  next => exact lt_of_plainInt h

/-! ## Integers -/

theorem ensures_takesInt (least : Nat) :
    Ensures Dialect.strict.Takes (intFrom least) fun n => Dialect.strict.Takes (.int n) := by
  intro v hv n hn
  simp only [intFrom, Check.guard_eq_ok_iff, decide_eq_true_eq] at hn
  obtain ⟨hint, hleast⟩ := hn
  have hnonneg : 0 ≤ n := Int.le_trans (Int.natCast_nonneg least) hleast
  cases v with
  | bool b =>
      have hn : n = if b then 1 else 0 := by simpa [int, eq_comm] using hint
      refine Dialect.takesInt_of_lt hnonneg (k := 1) (by decide) (by decide) ?_
      cases b <;> simp [hn]
  | int m =>
      cases hint
      exact hv.here
  | float x =>
      have hfits : fitsSigned n = true := by
        simp only [int] at hint
        split at hint
        next => cases hint
        next =>
          split at hint
          next => cases hint
          next =>
            split at hint
            next hfits =>
              cases hint
              exact (Bool.and_eq_true_iff.mp hfits).1
            next => cases hint
      refine Dialect.takesInt_of_lt hnonneg (k := 20) (by decide) (by decide) ?_
      simp only [fitsSigned, Bool.and_eq_true, decide_eq_true_eq] at hfits
      omega
  | str s =>
      have hread : readIntText s = .value n := by
        simp only [int] at hint
        split at hint
        next hvalue =>
          cases hint
          exact hvalue
        all_goals cases hint
      exact Dialect.takesInt_of_lt hnonneg (k := maxDigits) (by decide) (by decide)
        (lt_of_readIntText hread)
  | null | arr vs | obj ms => cases hint

end Schema

open Schema

namespace Json

theorem Dialect.separates_takes (dialect : Dialect) : Separates dialect.Takes where
  null := trivial
  bool _ := trivial
  text _ := trivial
  list _ := trivial
  object _ h := h
  distinct _ h := h

end Json

/-! ## Components -/

/-- A number that comes neither from a text nor from a boolean is finite. -/
theorem isFinite_of_number {v : Json} {x : Binary64} (hv : Dialect.strict.Takes v)
    (hbool : ∀ b, v ≠ .bool b) (htext : ∀ s, v ≠ .str s) (h : number v = .ok x) :
    x.isFinite = true := by
  cases v with
  | bool b => exact absurd rfl (hbool b)
  | str s => exact absurd rfl (htext s)
  | float y =>
      cases h
      exact hv
  | int n =>
      simp only [number] at h
      split at h
      next hfinite =>
        rw [← Check.ok.inj h]
        exact hfinite
      next => cases h
  | null | arr vs | obj ms => cases h

theorem ensures_takes_prop :
    Ensures Dialect.strict.Takes Draft.readProp fun p =>
      Everywhere Dialect.strict.Takes p.record := by
  intro v hv p hp
  unfold Draft.readProp at hp
  split at hp
  next =>
    cases hp
    exact Dialect.strict.separates_takes.everywhere_null
  next b =>
    cases hp
    exact Dialect.strict.separates_takes.everywhere_bool b
  next s =>
    cases hp
    exact Dialect.strict.separates_takes.everywhere_text s
  next _ hbool htext =>
    split at hp
    next x hx =>
      cases hp
      exact (Json.everywhere_scalar rfl).mpr (isFinite_of_number hv.here hbool htext hx)
    next => cases hp

/-- What is required of the parts of a component for its stored form to keep the limits, apart
from its times. -/
def Requirement.storable : Requirement where
  animation _ := True
  leaf l := Everywhere Dialect.strict.Takes l.dictionary
  frame := Frame.Within (fun n => Dialect.strict.Takes (.int n)) fun n =>
    Dialect.strict.Takes (.int n)

theorem Requirement.storable_ensuredBy : Requirement.storable.EnsuredBy Dialect.strict.Takes where
  animation _ _ _ _ := trivial
  leaf _ _ hms hl := hl.dictionary Dialect.strict.separates_takes ensures_takes_prop hms
  frame _ _ hms hf := by
    have htakes (n : Nat) (hn : n < 10 ^ 2) : Dialect.strict.Takes (.int n) :=
      Dialect.takesInt_of_lt (Int.natCast_nonneg n) (k := 2) (by decide) (by decide)
        (by simpa using hn)
    refine hf.within (ensures_takesInt 1) (ensures_takesInt 0) (htakes 2 (by decide)) ?_ hms
    simp only [List.forall_mem_cons]
    exact ⟨htakes 0 (by decide), htakes 8 (by decide), htakes 16 (by decide), by simp⟩

end PageDesign
