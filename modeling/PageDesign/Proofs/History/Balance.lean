/-
# PageDesign.Proofs.History.Balance -- going back and forth loses no state

Each list of a history drops its oldest state when it is full, and undo and redo put a state on
one of them.  They never meet a full list: whatever is done to a history that began empty, its
two lists hold no more states together than one of them may hold (`balanced_performAll`), and
the state that is put on one list makes room for itself on the other.  So every undo is taken
back by a redo and every redo by an undo, without a difference (`performAll_inverse`).
-/
import PageDesign.Proofs.History.Timeline

namespace PageDesign

namespace Timeline

variable {σ : Type} {t u : Timeline σ}

/-- A step back takes the nearest state before and leaves the present one behind. -/
theorem back_eq_some_iff :
    t.back? = some u ↔ t.past = u.present :: u.past ∧ u.future = t.present :: t.future := by
  obtain ⟨past, present, future⟩ := t
  obtain ⟨past', present', future'⟩ := u
  cases past with
  | nil => simp [back?]
  | cons s past => simp [back?, and_assoc, and_left_comm, eq_comm]

theorem forward_eq_some_iff :
    t.forward? = some u ↔ t.future = u.present :: u.future ∧ u.past = t.present :: t.past := by
  obtain ⟨past, present, future⟩ := t
  obtain ⟨past', present', future'⟩ := u
  cases future with
  | nil => simp [forward?]
  | cons s future => simp [forward?, and_assoc, and_comm, eq_comm]

end Timeline

namespace History

variable {σ : Type} {h g : History σ} {present s : σ}

/-! ## Operations -/

/-- What can be done to a history. -/
inductive Operation (σ : Type) where
  | push (s : σ)
  | undo (present : σ)
  | redo (present : σ)
  | restoreTo (index : Int) (present : σ)
  | clear

/-- The history after an operation.  One that finds no state to go to changes nothing. -/
def perform (h : History σ) : Operation σ → History σ
  | .push s => h.push s
  | .undo present => ((h.undo? present).map (·.2)).getD h
  | .redo present => ((h.redo? present).map (·.2)).getD h
  | .restoreTo index present => ((h.restoreTo? index present).map (·.2)).getD h
  | .clear => h.clear

/-- The history after a sequence of operations. -/
def performAll (h : History σ) (ops : List (Operation σ)) : History σ := ops.foldl perform h

/-- What holds of a history and of every outcome of a step that may fail, holds after it. -/
theorem getD_induction {motive : History σ → Prop} {step : Option (σ × History σ)}
    (hh : motive h) (hstep : ∀ s g, step = some (s, g) → motive g) :
    motive ((step.map (·.2)).getD h) := by
  match step with
  | none => exact hh
  | some (s, g) => exact hstep s g rfl

/-- What recording, undo, redo and clearing keep, every operation keeps. -/
theorem perform_induction {motive : History σ → Prop} (push : ∀ h s, motive h → motive (h.push s))
    (undo : ∀ h s t g, motive h → h.undo? s = some (t, g) → motive g)
    (redo : ∀ h s t g, motive h → h.redo? s = some (t, g) → motive g)
    (clear : ∀ h, motive h → motive h.clear) (hh : motive h) (op : Operation σ) :
    motive (h.perform op) := by
  cases op with
  | push s => exact push h s hh
  | undo present => exact getD_induction hh fun s g hu => undo h present s g hh hu
  | redo present => exact getD_induction hh fun s g hr => redo h present s g hh hr
  | restoreTo index present =>
      refine getD_induction hh fun s g hg => ?_
      exact restoreTo_induction (motive := fun _ h => motive h)
        (fun s h t g hh hu => undo h s t g hh hu) hh hg
  | clear => exact clear h hh

/-! ## Balance -/

theorem Balanced.perform (hb : h.Balanced) (op : Operation σ) : (h.perform op).Balanced :=
  perform_induction (fun _ s _ => .push s) (fun _ _ _ _ hb hu => (hb.undo hu).1)
    (fun _ _ _ _ hb hr => (hb.redo hr).1) (fun h _ => .clear h) hb op

theorem balanced_performAll (hb : h.Balanced) (ops : List (Operation σ)) :
    (h.performAll ops).Balanced := by
  induction ops generalizing h with
  | nil => exact hb
  | cons op ops ih => exact ih (hb.perform op)

theorem capacity_perform (h : History σ) (op : Operation σ) :
    (h.perform op).capacity = h.capacity :=
  perform_induction (motive := fun g => g.capacity = h.capacity) (fun _ _ hg => hg)
    (fun _ _ _ _ hg hu => (capacity_undo hu).trans hg)
    (fun _ _ _ _ hg hr => (capacity_redo hr).trans hg) (fun _ hg => hg) rfl op

theorem capacity_performAll (h : History σ) (ops : List (Operation σ)) :
    (h.performAll ops).capacity = h.capacity := by
  induction ops generalizing h with
  | nil => rfl
  | cons op ops ih => exact (ih (h.perform op)).trans (capacity_perform h op)

/-! ## Steps that lose nothing -/

/-- An undo moves one state to the other list, and nothing is dropped there. -/
theorem Balanced.lists_undo (hb : h.Balanced) (hu : h.undo? present = some (s, g)) :
    h.undone = s :: g.undone ∧ g.redone = present :: h.redone :=
  Timeline.back_eq_some_iff.mp (hb.undo hu).2

theorem Balanced.lists_redo (hb : h.Balanced) (hr : h.redo? present = some (s, g)) :
    h.redone = s :: g.redone ∧ g.undone = present :: h.undone :=
  Timeline.forward_eq_some_iff.mp (hb.redo hr).2

/-- A redo takes back an undo. -/
theorem Balanced.redo_undo (hb : h.Balanced) (hu : h.undo? present = some (s, g)) :
    g.redo? s = some (present, h) := by
  obtain ⟨hundone, hredone⟩ := hb.lists_undo hu
  have hfit : (s :: g.undone).take g.capacity = h.undone := by
    rw [capacity_undo hu, ← hundone]
    apply List.take_of_length_le
    unfold Balanced at hb
    omega
  rw [redo?, hredone]
  show some (present, (⟨g.capacity, (s :: g.undone).take g.capacity, h.redone⟩ : History σ)) = _
  rw [hfit, capacity_undo hu]

/-- An undo takes back a redo. -/
theorem Balanced.undo_redo (hb : h.Balanced) (hr : h.redo? present = some (s, g)) :
    g.undo? s = some (present, h) := by
  obtain ⟨hredone, hundone⟩ := hb.lists_redo hr
  have hfit : (s :: g.redone).take g.capacity = h.redone := by
    rw [capacity_redo hr, ← hredone]
    apply List.take_of_length_le
    unfold Balanced at hb
    omega
  rw [undo?, hundone]
  show some (present, (⟨g.capacity, h.undone, (s :: g.redone).take g.capacity⟩ : History σ)) = _
  rw [hfit, capacity_redo hr]

/-- Whatever was done to a history that began empty, its two lists hold no more states together
than its capacity, an undo or a redo drops none of them, and the one after the other leads back
to the same state and the same history. -/
theorem performAll_inverse (capacity : Nat) (ops : List (Operation σ)) :
    let h := (empty capacity : History σ).performAll ops
    h.undone.length + h.redone.length ≤ capacity ∧
      (∀ c p g, h.undo? c = some (p, g) →
        h.undone = p :: g.undone ∧ g.redone = c :: h.redone ∧ g.redo? p = some (c, h)) ∧
      (∀ c s g, h.redo? c = some (s, g) →
        h.redone = s :: g.redone ∧ g.undone = c :: h.undone ∧ g.undo? s = some (c, h)) := by
  intro h
  have hb : h.Balanced := balanced_performAll (balanced_empty capacity) ops
  refine ⟨?_, ?_, ?_⟩
  · have hcapacity : h.capacity = capacity := capacity_performAll (empty capacity) ops
    rw [← hcapacity]
    exact hb
  · intro c p g hu
    obtain ⟨hundone, hredone⟩ := hb.lists_undo hu
    exact ⟨hundone, hredone, hb.redo_undo hu⟩
  · intro c s g hr
    obtain ⟨hredone, hundone⟩ := hb.lists_redo hr
    exact ⟨hredone, hundone, hb.undo_redo hr⟩

end History

end PageDesign
