/-
# PageDesign.Proofs.Document.Jump -- a jump to an undo point

A document jumps with its history.  It hands in its present state once, and the history passes
its own recorded states on from step to step, while an undo of the document captures the state
anew each time.  What is parked differs in its words alone, so on the timeline of the
components and selections a jump is as many undos (`restoreTo_eq_some`), and as many redos lead
back from it.
-/
import PageDesign.Proofs.Document.UndoRedo
import PageDesign.Proofs.History.Jump

namespace PageDesign

/-! ## Walks on the timeline of a document -/

/-- A walk back on a timeline is seen as a walk back through any view of its states. -/
theorem Timeline.simulates_back {σ τ : Type} (view : σ → τ) :
    Simulates (fun _ => True) (map view) back? back? where
  view_step t _ := (back_map view t).symm
  keep _ _ _ _ := trivial

namespace Document

/-- A jump leads to where the same number of steps back on the timeline lead. -/
theorem restoreTo_eq_some {d : Document} (hd : d.history.Balanced) {i : Nat}
    (hi : i < d.history.undone.length) {t : Timeline (Forest Id × Option Id)}
    (ht : repeat? Timeline.back? (i + 1) d.timeline = some t) :
    ∃ e, d.restoreTo? i = some e ∧ e.timeline = t ∧ e.history.Balanced := by
  obtain ⟨u, hu, hview, -⟩ :=
    (Timeline.simulates_back Snapshot.state).exists_repeat trivial ht
  have hjump := hd.restoreTo_eq hi hu
  refine ⟨d.restore u.present ⟨d.history.capacity, u.past, u.future⟩, ?_, hview, ?_⟩
  · rw [restoreTo?, hjump, Option.map_some]
  · -- the history undoes step by step, and each step keeps the balance
    exact History.restoreTo_induction (motive := fun _ h => h.Balanced)
      (fun s h t g hh hstep => (hh.undo hstep).1) hd hjump

end Document

namespace Session

/-! ## The law -/

/-- In a history that began empty, a jump to a position is made exactly if there is an undo point
there.  It gives that undo point and keeps the older ones; the newer ones can be gone forward
to, the last one that was passed first, then the present state, then what could be gone forward
to before.

In every session that arises, a jump leads to the same components and selection, with as much to
undo and to redo, as undoing once more than its position says; and as many redos lead back. -/
theorem jump_eq_undos :
    (∀ (σ : Type) (capacity : Nat) (ops : List (History.Operation σ)) (present : σ),
      let h := (History.empty capacity).performAll ops
      (∀ index : Int, index < 0 ∨ (h.undone.length : Int) ≤ index →
        h.restoreTo? index present = none ∧ h.perform (.restoreTo index present) = h) ∧
      ∀ (i : Nat) (hi : i < h.undone.length), ∃ g, h.restoreTo? i present = some (h.undone[i], g) ∧
        g.undone = h.undone.drop (i + 1) ∧
        g.redone = (h.undone.take i).reverse ++ present :: h.redone) ∧
    ∀ s : Session, Arises (fun _ _ => True) s → ∀ i, i < s.document.history.undone.length →
      let n := i + 1
      ∃ jumped undone back : Session,
        s.run (.restoreTo i) = (.did true, jumped) ∧
        s.replies (List.replicate n .undo) = List.replicate n (.did true) ∧
        s.runAll (List.replicate n .undo) = undone ∧
        jumped.document.components = undone.document.components ∧
        jumped.document.selected = undone.document.selected ∧
        jumped.document.history.undone.length = undone.document.history.undone.length ∧
        jumped.document.history.redone.length = undone.document.history.redone.length ∧
        jumped.replies (List.replicate n .redo) = List.replicate n (.did true) ∧
        jumped.runAll (List.replicate n .redo) = back ∧
        back.document.components = s.document.components ∧
        back.document.selected = s.document.selected := by
  constructor
  · intro σ capacity ops present h
    have hb : h.Balanced := History.balanced_performAll (History.balanced_empty capacity) ops
    constructor
    · intro index hout
      have hnone := History.restoreTo_eq_none hout present
      refine ⟨hnone, ?_⟩
      rw [History.perform, hnone]
      rfl
    · intro i hi
      have hwalk := History.repeat_back_timeline (List.getElem?_eq_getElem hi) present
      exact ⟨_, hb.restoreTo_eq hi hwalk, rfl, rfl⟩
  · intro s hs i hi n
    have hb := hs.balanced
    have hroom : n ≤ s.document.timeline.past.length := by
      rw [Document.length_past]
      exact hi
    obtain ⟨t, ht⟩ := Timeline.exists_repeat_back hroom
    obtain ⟨d, hd, hjumped, hbalanced⟩ := Document.restoreTo_eq_some hb hi ht
    obtain ⟨e, he, hundone, -⟩ := Document.simulates_undo.exists_repeat hb ht
    -- the walk forward begins where the jump ended
    have hforward := repeat_inverse Timeline.forward_of_back ht
    rw [← hjumped] at hforward
    obtain ⟨f, hf, hback, -⟩ := Document.simulates_redo.exists_repeat hbalanced hforward
    have hundos : s.replies (List.replicate n .undo) = List.replicate n (.did true) ∧
        s.runAll (List.replicate n .undo) = { s with document := e } :=
      run_repeat (fun _ => rfl) he
    have hredos : ({ s with document := d } : Session).replies (List.replicate n .redo) =
          List.replicate n (.did true) ∧
        ({ s with document := d } : Session).runAll (List.replicate n .redo) =
          { s with document := f } :=
      run_repeat (fun _ => rfl) hf
    have hsame : d.timeline = e.timeline := hjumped.trans hundone.symm
    obtain ⟨hcomponents, hselected⟩ := Document.eq_of_timeline_eq hsame
    obtain ⟨hcomponents', hselected'⟩ := Document.eq_of_timeline_eq hback
    refine ⟨{ s with document := d }, _, _, ?_, hundos.1, hundos.2, hcomponents, hselected, ?_, ?_,
      hredos.1, hredos.2, hcomponents', hselected'⟩
    · rw [run, hd]
      rfl
    · show d.history.undone.length = e.history.undone.length
      rw [← Document.length_past, ← Document.length_past, hsame]
    · show d.history.redone.length = e.history.redone.length
      rw [← Document.length_future, ← Document.length_future, hsame]

/-- A history with three undo points, of which the oldest is jumped to; and the sample with its
copy made again, which jumps back to before the card came in. -/
theorem jump_eq_undos_sample :
    (let h : History Nat := (History.empty 5).performAll [.push 1, .push 2, .push 3, .push 4, .undo 5]
      ∃ g, h.restoreTo? 2 9 = some (1, g) ∧ g.undone = [] ∧ g.redone = [2, 3, 9, 5]) ∧
    let s := (sample.run .redo).2
    Arises (fun _ _ => True) s ∧ s.document.history.undone.length = 2 ∧
      ∃ jumped back : Session, s.run (.restoreTo 1) = (.did true, jumped) ∧
        jumped.document.components = [] ∧
        jumped.document.history.redone.length = 2 ∧
        jumped.runAll [.redo, .redo] = back ∧
        back.document.components = s.document.components ∧
        back.document.selected = some "b" := by
  constructor
  · intro h
    exact ((jump_eq_undos.1 Nat 5 [.push 1, .push 2, .push 3, .push 4, .undo 5] 9).2 2 (by decide))
  · intro s
    have hs : Arises (fun _ _ => True) s :=
      (arises_sample trivial trivial trivial trivial).run trivial
    have hlength : s.document.history.undone.length = 2 := by decide +kernel
    obtain ⟨jumped, undone, back, hrun, -, rfl, hcomponents, -, -, hredone, -, hback, hsame,
      hselected⟩ := jump_eq_undos.2 s hs 1 (by omega)
    refine ⟨hs, hlength, jumped, back, hrun, ?_, ?_, hback, hsame, ?_⟩
    · rw [hcomponents]
      exact List.isEmpty_iff.mp (by decide +kernel)
    · rw [hredone]
      decide +kernel
    · rw [hselected]
      decide +kernel

end Session

end PageDesign
