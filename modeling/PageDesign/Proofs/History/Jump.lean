/-
# PageDesign.Proofs.History.Jump -- a jump is a number of steps back

A jump goes to the undo point at a position.  It undoes step by step, and each step parks the
state that the last one arrived at.  On a timeline this is a walk back, and a walk back of some
steps turns over the states that it passes: the last one that it passed comes first in what can
be gone forward to (`Timeline.repeat_back`).  A balanced history walks in the same way
(`Balanced.undoMany_eq`), so a jump loses none of the states, at neither end
(`Balanced.restoreTo_eq`).
-/
import PageDesign.Proofs.History.Balance

namespace PageDesign

variable {σ : Type}

namespace Timeline

/-- A walk back over some states leaves them behind in the opposite order, and behind them the
state where it began. -/
theorem repeat_back (newer : List σ) (s : σ) (older : List σ) (present : σ) (future : List σ) :
    repeat? back? (newer.length + 1) ⟨newer ++ s :: older, present, future⟩ =
      some ⟨older, s, newer.reverse ++ present :: future⟩ := by
  induction newer generalizing present future with
  | nil => rfl
  | cons x newer ih =>
      rw [List.length_cons, List.reverse_cons, List.append_assoc]
      exact ih x (present :: future)

end Timeline

namespace History

/-- As long as no state is dropped, undoing many times is walking back along the timeline. -/
theorem Balanced.undoMany_eq {n : Nat} {h : History σ} (hb : h.Balanced) {present : σ}
    {t : Timeline σ} (ht : repeat? Timeline.back? n (h.timeline present) = some t) :
    undoMany n present h = (t.present, ⟨h.capacity, t.past, t.future⟩) := by
  induction n generalizing h present with
  | zero =>
      cases ht
      rfl
  | succ n ih =>
      obtain ⟨u, hu, ht⟩ := Option.bind_eq_some_iff.mp ht
      cases hstep : h.undo? present with
      | none =>
          rw [undo_eq_none hstep] at hu
          cases hu
      | some sg =>
          obtain ⟨s, g⟩ := sg
          obtain ⟨hg, hback⟩ := hb.undo hstep
          cases hback.symm.trans hu
          rw [undoMany, hstep, ← capacity_undo hstep]
          exact ih hg ht

/-- A walk back to the undo point at a position. -/
theorem repeat_back_timeline {h : History σ} {i : Nat} {s : σ} (hi : h.undone[i]? = some s)
    (present : σ) :
    repeat? Timeline.back? (i + 1) (h.timeline present) =
      some ⟨h.undone.drop (i + 1), s, (h.undone.take i).reverse ++ present :: h.redone⟩ := by
  obtain ⟨hlt, rfl⟩ := List.getElem?_eq_some_iff.mp hi
  have hsplit : h.undone = h.undone.take i ++ h.undone[i] :: h.undone.drop (i + 1) := by
    rw [← List.drop_eq_getElem_cons hlt, List.take_append_drop]
  have hlength : (h.undone.take i).length = i := List.length_take_of_le (Nat.le_of_lt hlt)
  have hwalk := Timeline.repeat_back (h.undone.take i) h.undone[i] (h.undone.drop (i + 1))
    present h.redone
  rwa [hlength, ← hsplit] at hwalk

/-- A jump is made to the state that as many steps back lead to. -/
theorem Balanced.restoreTo_eq {h : History σ} (hb : h.Balanced) {i : Nat}
    (hi : i < h.undone.length) {present : σ} {t : Timeline σ}
    (ht : repeat? Timeline.back? (i + 1) (h.timeline present) = some t) :
    h.restoreTo? i present = some (t.present, ⟨h.capacity, t.past, t.future⟩) := by
  have hinside : ¬ ((i : Int) < 0 ∨ (h.undone.length : Int) ≤ i) := by omega
  rw [restoreTo?, if_neg hinside, Int.toNat_natCast, hb.undoMany_eq ht]

/-- A jump to a position where there is no undo point is not made. -/
theorem restoreTo_eq_none {h : History σ} {index : Int}
    (hout : index < 0 ∨ (h.undone.length : Int) ≤ index) (present : σ) :
    h.restoreTo? index present = none := by
  rw [restoreTo?, if_pos hout]

end History

end PageDesign
