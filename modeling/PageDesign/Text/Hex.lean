/-
# PageDesign.Text.Hex -- base 16

Digests are shown in base 16, in lower case and with a fixed number of digits.
-/

namespace PageDesign.Text

/-- A digit of base 16 in lower case. -/
def hexDigit (n : Nat) : Char :=
  if n < 10 then Char.ofNat (48 + n) else Char.ofNat (87 + n)

/-- The lowest `width` digits of a natural, the highest first. -/
def hexDigits : Nat → Nat → List Char
  | 0, _ => []
  | width + 1, n => hexDigit (n / Nat.pow 16 width % 16) :: hexDigits width n

@[simp] theorem length_hexDigits (width n : Nat) : (hexDigits width n).length = width := by
  induction width with
  | zero => rfl
  | succ w ih => simp [hexDigits, ih]

theorem forall_mem_hexDigits {p : Char → Prop} (h : ∀ k < 16, p (hexDigit k)) (width n : Nat) :
    ∀ c ∈ hexDigits width n, p c := by
  induction width with
  | zero => exact fun _ hc => absurd hc List.not_mem_nil
  | succ w ih => exact List.forall_mem_cons.mpr ⟨h _ (Nat.mod_lt _ (by decide)), ih⟩

end PageDesign.Text
