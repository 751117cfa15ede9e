/-
# PageDesign.Proofs.Export.Keys -- exports are kept under keys that keep their fields apart

An export is kept under the digest of a text, in which the target and the stored form of the design
are joined by NUL.  The text tells them apart (`keys_separate`): no target has NUL in its name, and
neither has a value that is written on one line, even if texts in the design have it, since there it
is escaped.  This holds of all designs, also of those that do not come back from their stored form.
-/
import PageDesign.Proofs.Digest.Fields
import PageDesign.Proofs.Export.Cached
import PageDesign.Proofs.Json.Line

namespace PageDesign

instance : LawfulChoice Target := ⟨fun t => by cases t <;> rfl⟩

namespace Exporter

open Digest (Separable joinFields)

/-- What has no control characters has no NUL. -/
theorem nul_notMem_of_uncontrolled {cs : List Char} (h : Uncontrolled cs) : '\x00' ∉ cs := by
  intro hmem
  have hle : 32 ≤ '\x00'.toNat := h _ hmem
  exact absurd hle (by decide)

/-- The fields of a key have no NUL. -/
theorem separable_keyFields (t : Target) (f : Forest Id) :
    Separable (keyFields (Choice.name t) f) := by
  refine ⟨List.cons_ne_nil _ _, fun s hs => ?_⟩
  rw [keyFields, List.mem_cons, List.mem_singleton] at hs
  rcases hs with rfl | rfl
  · exact t.nul_notMem_name
  · exact nul_notMem_of_uncontrolled (Json.uncontrolled_dump _)

theorem joinFields_inj {xs ys : List String} (hxs : Separable xs) (hys : Separable ys) :
    joinFields xs = joinFields ys ↔ xs = ys :=
  Digest.joinFields_injOn.eq_iff hxs hys

/-- The text that is digested for an export belongs to one target and one stored design.  No name of
a target has NUL, and no value that is written on one line has a control character, whatever its
texts hold.  More generally, lists of any lengths of fields without NUL, neither of them empty, are
joined to one text only if they are one list. -/
theorem keys_separate :
    (∀ (t t' : Target) (f g : Forest Id),
      keyText (Choice.name t) f = keyText (Choice.name t') g ↔
        t = t' ∧ (Component.recordAll f).dump = (Component.recordAll g).dump) ∧
      (∀ (c : Cache String) (t : Target) (f : Forest Id),
        c.keyOf (keyFields (Choice.name t) f) =
          Digest.ofText c.algorithm (keyText (Choice.name t) f)) ∧
      (∀ t : Target, '\x00' ∉ (Choice.name t).toList) ∧
      (∀ v : Json, ∀ c ∈ (v.dump 0).toList, 0x20 ≤ c.toNat) ∧
      ∀ xs ys : List String, Separable xs → Separable ys →
        (joinFields xs = joinFields ys ↔ xs = ys) := by
  refine ⟨fun t t' f g => ?_, fun _ _ _ => rfl, Target.nul_notMem_name, Json.uncontrolled_dump,
    fun xs ys => joinFields_inj⟩
  rw [keyText, keyText, joinFields_inj (separable_keyFields t f) (separable_keyFields t' g),
    keyFields, keyFields, List.cons.injEq, List.singleton_inj]
  exact and_congr_left' Choice.name_injective.eq_iff

/-- A text with NUL in a design, and an empty field behind another one. -/
theorem keys_separate_sample :
    let f : Forest Id := [.leaf "a" none (.text { content := "\x00css" })]
    keyText "html" f ≠ keyText "css" f ∧ '\x00' ∉ (Component.recordAll f).dump.toList ∧
      Separable ["html"] ∧ Separable ["html", ""] ∧
        joinFields ["html"] ≠ joinFields ["html", ""] := by
  intro f
  obtain ⟨hkey, -, -, hdump, hjoin⟩ := keys_separate
  have hone : Separable ["html"] := by decide
  have htwo : Separable ["html", ""] := by decide
  refine ⟨fun h => ?_, nul_notMem_of_uncontrolled (hdump _), hone, htwo, fun h => ?_⟩
  · have htarget : Target.html = Target.css := ((hkey .html .css f f).mp h).1
    cases htarget
  · have hlists : ["html"] = ["html", ""] := (hjoin _ _ hone htwo).mp h
    cases hlists

end Exporter

end PageDesign
