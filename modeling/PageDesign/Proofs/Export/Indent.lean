/-
# PageDesign.Proofs.Export.Indent -- the width of a level shows in front of lines only

Two pages of the same design that differ in the width of a level are compared piece by piece: a
piece lies between two line feeds, and the spaces in front of it are left out (`unindented`).  A
line of markup may be several pieces, since texts and custom markup may hold line feeds, and its
pieces may begin with spaces of their own.  Only the first of them is set in, and the spaces that
set it in stand directly at its front, so they are left out with its own.

What is left of a page is therefore told by the texts of its lines (`unindented_render`), and lines
are chosen before the width is known.
-/
import PageDesign.Export.Target
import PageDesign.Proofs.Text.Search

namespace PageDesign

namespace Markup

/-! ## Texts without indentation -/

/-- The pieces of a text between line feeds, without the spaces in front of them. -/
def unindented (s : String) : List (List Char) :=
  (Text.splitAtEach '\n' s.toList).map (·.dropWhile (· == ' '))

theorem unindented_lineFeed (s t : String) :
    unindented (s ++ "\n" ++ t) = unindented s ++ unindented t := by
  have htext : (s ++ "\n" ++ t).toList = s.toList ++ '\n' :: t.toList := by simp
  rw [unindented, htext, Text.splitAtEach_append, List.map_append]
  rfl

theorem unindented_spaces (n : Nat) (s : String) : unindented (spaces n ++ s) = unindented s := by
  induction n with
  | zero => simp [spaces]
  | succ n ih =>
      have htext : (spaces (n + 1) ++ s).toList = ' ' :: (spaces n ++ s).toList := by
        simp [spaces, List.replicate_succ]
      have hblank : ' ' ≠ '\n' := by decide
      obtain ⟨piece, pieces, hpieces, hcons⟩ :=
        Text.splitAtEach_cons hblank (spaces n ++ s).toList
      rw [← ih, unindented, unindented, htext, hcons, hpieces]
      simp

theorem unindented_empty : unindented "" = [[]] := rfl

/-- What is left of lines without their indentation is told by their texts. -/
theorem unindented_render (width : Nat) (ls : List Line) :
    unindented (render width ls) = ls.flatMap (fun l => unindented l.text) ++ [[]] := by
  induction ls with
  | nil => exact unindented_empty
  | cons l ls ih =>
      have hcons : render width (l :: ls) =
          spaces (width * l.level) ++ (l.text ++ "\n" ++ render width ls) := by
        rw [render, List.map_cons, String.join_cons, Line.render, String.append_assoc,
          String.append_assoc, String.append_assoc]
        rfl
      rw [hcons, unindented_spaces, unindented_lineFeed, ih, List.flatMap_cons, List.append_assoc]

end Markup

/-! ## Exports -/

/-- The lines of a page do not depend on the width of a level, and a width that is not given is that
of the kind of markup. -/
theorem ExportPlan.exists_lines {p : ExportPlan} {d : Dialect} (hd : p.dialect? = some d)
    (f : Forest Id) : ∃ ls : List Markup.Line, ∀ w : Option Int,
      ({ p with width := w } : ExportPlan).render f =
        Markup.render (w.getD d.width).toNat ls := by
  refine ⟨d.header ++ d.body f ++ d.footer, fun w => ?_⟩
  have hsame : ({ p with width := w } : ExportPlan).dialect? = some d := hd
  rw [ExportPlan.render, hsame]
  rfl

/-- Exports of the same design under plans that differ in the width of a level are the same text but
for the spaces in front of its pieces.  A width below zero is no indentation, as zero is. -/
theorem ExportPlan.width_only_indents (p : ExportPlan) (f : Forest Id) :
    (∀ w w' : Option Int,
      Markup.unindented (({ p with width := w } : ExportPlan).render f) =
        Markup.unindented (({ p with width := w' } : ExportPlan).render f)) ∧
    ∀ n : Nat, ({ p with width := some (-n) } : ExportPlan).render f =
      ({ p with width := some 0 } : ExportPlan).render f := by
  cases hd : p.dialect? with
  | some d =>
      obtain ⟨ls, hls⟩ := p.exists_lines hd f
      constructor
      · intro w w'
        rw [hls, hls, Markup.unindented_render, Markup.unindented_render]
      · intro n
        have hwidth : (-(n : Int)).toNat = (0 : Int).toNat := by omega
        rw [hls, hls, Option.getD_some, Option.getD_some, hwidth]
  | none =>
      -- what is no markup has no levels
      have hother (w : Option Int) : ({ p with width := w } : ExportPlan).render f =
          ExportPlan.renderOther p.target f := by
        have hsame : ({ p with width := w } : ExportPlan).dialect? = none := hd
        rw [ExportPlan.render, hsame]
      exact ⟨fun w w' => by rw [hother, hother], fun n => by rw [hother, hother]⟩

end PageDesign
