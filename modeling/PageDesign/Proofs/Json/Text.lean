/-
# PageDesign.Proofs.Json.Text -- written texts read back

A text is written between quotes, with an escape for the quote, the backslash and every control
character.  Character by character the reader takes back what was written, so it finds the
closing quote where it was put and the text in front of it (`readText_quote`).
-/
import Mathlib.Tactic.SplitIfs
import PageDesign.Json.Parser
import PageDesign.Json.Printer

namespace PageDesign.Json

/-- The digits of a control character are read as its number. -/
theorem hexUnit_hexDigits (n : Nat) (hn : n < 32) :
    ∃ a b c d, Text.hexDigits 4 n = [a, b, c, d] ∧ hexUnit? a b c d = some n := by
  refine ⟨_, _, _, _, rfl, ?_⟩
  revert n
  decide

/-- An escape of two characters is read as the character that it stands for. -/
theorem readText_escape {e c : Char} (h : unescape? e = some c) (rest : List Char) :
    readText ('\\' :: e :: rest) = (readText rest).map fun (cs, left) => (c :: cs, left) := by
  rw [readText.eq_def]
  simp only [h]

/-- The written form of a character is read as the character. -/
theorem readText_escapeChar (c : Char) (rest : List Char) :
    readText (escapeChar c ++ rest) = (readText rest).map fun (cs, left) => (c :: cs, left) := by
  rw [escapeChar]
  split_ifs with hquote hbackslash hnewline hreturn htab hbackspace hfeed hcontrol
  · subst hquote
    exact readText_escape rfl rest
  · subst hbackslash
    exact readText_escape rfl rest
  · subst hnewline
    exact readText_escape rfl rest
  · subst hreturn
    exact readText_escape rfl rest
  · subst htab
    exact readText_escape rfl rest
  · have hc : c = Char.ofNat 8 := by rw [← hbackspace, Char.ofNat_toNat]
    subst hc
    exact readText_escape rfl rest
  · have hc : c = Char.ofNat 12 := by rw [← hfeed, Char.ofNat_toNat]
    subst hc
    exact readText_escape rfl rest
  · obtain ⟨x, y, z, w, hdigits, hunit⟩ := hexUnit_hexDigits c.toNat hcontrol
    have hhigh : ¬ (0xD800 ≤ c.toNat ∧ c.toNat < 0xDC00) := by omega
    have hlow : ¬ (0xDC00 ≤ c.toNat ∧ c.toNat < 0xE000) := by omega
    have hescape : unescape? 'u' = none := rfl
    rw [hdigits, List.cons_append, List.cons_append, readText.eq_def]
    simp only [hescape, if_true, List.cons_append, List.nil_append, hunit, if_neg hhigh, if_neg hlow,
      Char.ofNat_toNat]
  · have hplain : ¬ (c = '\\' ∨ c.toNat < 32) := by simp [hbackslash, hcontrol]
    rw [List.singleton_append, readText.eq_def]
    split
    next heq => cases heq
    next heq => exact absurd (List.cons.inj heq).1 hbackslash
    next heq =>
      obtain ⟨rfl, rfl⟩ := List.cons.inj heq
      rw [if_neg hquote, if_neg hplain]

/-- A text between quotes is read up to its closing quote. -/
theorem readText_quote (cs rest : List Char) :
    readText (cs.flatMap escapeChar ++ '\x22' :: rest) = some (cs, rest) := by
  induction cs with
  | nil => simp [readText]
  | cons c cs ih =>
      rw [List.flatMap_cons, List.append_assoc, readText_escapeChar, ih, Option.map_some]

theorem toList_quote (s : String) :
    (quote s).toList = '\x22' :: (s.toList.flatMap escapeChar ++ ['\x22']) := by
  simp [quote]

end PageDesign.Json
