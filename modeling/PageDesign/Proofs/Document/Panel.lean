/-
# PageDesign.Proofs.Document.Panel -- the words of the undo points after a detour

The undo points are shown with the words for the changes that followed them.  An undo parks the
present state without words, and a redo records it as an undo point in that form: a detour of
undos and redos brings back every undo point with its components and its selection, but those
on the way have lost their words (`exists_detour`).  Everything else in the document is as it
was.  So the list that is shown survives a detour exactly if the undo points on the way had no
words in the first place (`panel_detour`).
-/
import PageDesign.Proofs.Document.UndoRedo

namespace PageDesign

/-- A state without the words for the change that followed. -/
def Snapshot.wordless (s : Snapshot) : Snapshot := { s with description := "" }

theorem Snapshot.wordless_eq_self_iff {s : Snapshot} : s.wordless = s ↔ s.description = "" := by
  constructor
  · intro h
    rw [← h]
    rfl
  · intro h
    obtain ⟨components, selected, description⟩ := s
    subst h
    rfl

/-- The first undo points lose their words, the others keep them. -/
def Snapshot.wordlessUpTo (n : Nat) (points : List Snapshot) : List Snapshot :=
  (points.take n).map wordless ++ points.drop n

theorem Snapshot.length_wordlessUpTo (n : Nat) (points : List Snapshot) :
    (wordlessUpTo n points).length = points.length := by
  rw [wordlessUpTo, List.length_append, List.length_map, ← List.length_append,
    List.take_append_drop]

/-- Nothing is lost exactly if there was nothing to lose. -/
theorem Snapshot.wordlessUpTo_eq_self_iff {n : Nat} {points : List Snapshot} :
    wordlessUpTo n points = points ↔ ∀ s ∈ points.take n, s.description = "" := by
  calc wordlessUpTo n points = points
      ↔ (points.take n).map wordless ++ points.drop n = points.take n ++ points.drop n := by
        rw [wordlessUpTo, List.take_append_drop]
    _ ↔ (points.take n).map wordless = (points.take n).map id := by
        rw [List.append_left_inj, List.map_id]
    _ ↔ ∀ s ∈ points.take n, wordless s = s := List.map_inj_left
    _ ↔ ∀ s ∈ points.take n, s.description = "" := by simp only [wordless_eq_self_iff]

namespace Document

/-- A document with other undo points. -/
def withUndone (d : Document) (points : List Snapshot) : Document :=
  { d with history := { d.history with undone := points } }

/-- As many redos as undos lead back to the same document, but for the words of the undo points
on the way. -/
theorem exists_detour {n : Nat} {d : Document} (hd : d.history.Balanced)
    (hn : n ≤ d.history.undone.length) :
    ∃ e, repeat? undo? n d = some e ∧
      repeat? redo? n e = some (d.withUndone (Snapshot.wordlessUpTo n d.history.undone)) := by
  induction n generalizing d with
  | zero => exact ⟨d, rfl, rfl⟩
  | succ n ih =>
      obtain ⟨s, rest, hundone⟩ := List.exists_cons_of_length_pos (Nat.zero_lt_of_lt hn)
      have hbound : rest.length + 1 + d.history.redone.length ≤ d.history.capacity := by
        unfold History.Balanced at hd
        rwa [hundone, List.length_cons] at hd
      have hroom : n ≤ rest.length := by
        rw [hundone, List.length_cons] at hn
        omega
      -- neither list is full when a state is put on it
      have hparked : (d.snapshot :: d.history.redone).take d.history.capacity =
          d.snapshot :: d.history.redone := by
        apply List.take_of_length_le
        rw [List.length_cons]
        omega
      have hrecorded : (s.wordless :: Snapshot.wordlessUpTo n rest).take d.history.capacity =
          s.wordless :: Snapshot.wordlessUpTo n rest := by
        apply List.take_of_length_le
        rw [List.length_cons, Snapshot.length_wordlessUpTo]
        omega
      have hstep := undo_of_cons hundone
      rw [hparked] at hstep
      set next := d.restore s ⟨d.history.capacity, rest, d.snapshot :: d.history.redone⟩
      obtain ⟨e, he, hback⟩ := ih (simulates_undo.keep d next hd hstep) hroom
      refine ⟨e, ?_, ?_⟩
      · rw [repeat?, hstep, Option.bind_some, he]
      · have hredo := redo_of_cons (d := next.withUndone (Snapshot.wordlessUpTo n rest)) rfl
        rw [repeat_succ, hback, Option.bind_some, hundone]
        refine hredo.trans ?_
        show some (d.withUndone ((s.wordless :: Snapshot.wordlessUpTo n rest).take
          d.history.capacity)) = _
        rw [hrecorded]
        rfl

end Document

namespace Session

/-- In every session that arises, some undos and as many redos lead back to the same document,
except that the undo points on the way lose their words.  So the list of undo points is the
same as before exactly if they had none. -/
theorem panel_detour {s : Session} (hs : Arises (fun _ _ => True) s) {n : Nat}
    (hn : n ≤ s.document.history.undone.length) :
    let panel := s.document.history.undone
    let cmds := List.replicate n .undo ++ List.replicate n .redo
    (s.runAll cmds).document = s.document.withUndone (Snapshot.wordlessUpTo n panel) ∧
      ((s.runAll cmds).document.history.undone = panel ↔
        ∀ point ∈ panel.take n, point.description = "") := by
  intro panel cmds
  obtain ⟨e, hundo, hredo⟩ := Document.exists_detour hs.balanced hn
  have hthere : s.runAll (List.replicate n .undo) = { s with document := e } :=
    (run_repeat (fun _ => rfl) hundo).2
  have hback : ({ s with document := e } : Session).runAll (List.replicate n .redo) =
      { s with document := s.document.withUndone (Snapshot.wordlessUpTo n panel) } :=
    (run_repeat (fun _ => rfl) hredo).2
  have hdocument : (s.runAll cmds).document =
      s.document.withUndone (Snapshot.wordlessUpTo n panel) := by
    rw [runAll_append, hthere, hback]
  refine ⟨hdocument, ?_⟩
  rw [hdocument]
  exact Snapshot.wordlessUpTo_eq_self_iff

/-- In the sample, with a second undo point that has no words, a detour of one step changes
nothing. -/
theorem panel_detour_sample :
    let s := (sample.run (.record "")).2
    Arises (fun _ _ => True) s ∧ 1 ≤ s.document.history.undone.length ∧
      (s.runAll [.undo, .redo]).document.history.undone = s.document.history.undone := by
  intro s
  have hs : Arises (fun _ _ => True) s :=
    (arises_sample trivial trivial trivial trivial).run trivial
  have hone : 1 ≤ s.document.history.undone.length := by decide +kernel
  refine ⟨hs, hone, (panel_detour hs hone).2.mpr ?_⟩
  decide +kernel

/-- An undo and a redo take its words from the undo point of a component that was put in. -/
theorem panel_words_lost :
    ∃ s : Session, Arises (fun _ _ => True) s ∧
      s.document.history.undone.map (·.description) = ["Add Component"] ∧
      (s.runAll [.undo, .redo]).document.history.undone.map (·.description) = [""] ∧
      (s.runAll [.undo, .redo]).document.history.undone ≠ s.document.history.undone := by
  have hwords : sample.document.history.undone.map (·.description) = ["Add Component"] := by
    decide +kernel
  have hlost : (sample.runAll [.undo, .redo]).document.history.undone.map (·.description) =
      [""] := by decide +kernel
  refine ⟨sample, arises_sample trivial trivial trivial trivial, hwords, hlost, ?_⟩
  intro hsame
  rw [hsame, hwords] at hlost
  exact absurd hlost (by decide)

end Session

end PageDesign
