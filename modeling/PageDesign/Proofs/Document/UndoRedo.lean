/-
# PageDesign.Proofs.Document.UndoRedo -- undo and redo take each other back

In every document that arises the two lists of the history are balanced, so going back and
forward drops nothing and is a walk along the document's timeline (`simulates_undo`,
`simulates_redo`).  A selection that was made since the last recorded change is part of the
present state and is parked with it, so it returns as well.
-/
import PageDesign.Proofs.Document.Run

namespace PageDesign

namespace Document

/-- Undoing walks back along the timeline. -/
theorem simulates_undo :
    Simulates (fun d => d.history.Balanced) timeline undo? Timeline.back? := by
  constructor
  · -- one undo is one step back
    intro d hd
    rw [timeline, Timeline.back_map]
    cases hu : d.undo? with
    | none =>
        rw [undo?, Option.map_eq_none_iff] at hu
        rw [History.undo_eq_none hu]
        rfl
    | some e =>
        obtain ⟨s, g, hs, rfl⟩ := undo_eq_some hu
        rw [(hd.undo hs).2]
        rfl
  · -- and nothing was dropped on the way
    intro d e hd he
    obtain ⟨s, g, hs, rfl⟩ := undo_eq_some he
    exact (hd.undo hs).1

/-- Redoing walks forward along the timeline. -/
theorem simulates_redo :
    Simulates (fun d => d.history.Balanced) timeline redo? Timeline.forward? := by
  constructor
  · intro d hd
    rw [timeline, Timeline.forward_map]
    cases hr : d.redo? with
    | none =>
        rw [redo?, Option.map_eq_none_iff] at hr
        rw [History.redo_eq_none hr]
        rfl
    | some e =>
        obtain ⟨s, g, hs, rfl⟩ := redo_eq_some hr
        rw [(hd.redo hs).2]
        rfl
  · intro d e hd he
    obtain ⟨s, g, hs, rfl⟩ := redo_eq_some he
    exact (hd.redo hs).1

/-- What an undo leads to when there is an undo point. -/
theorem undo_of_cons {d : Document} {s : Snapshot} {rest : List Snapshot}
    (h : d.history.undone = s :: rest) :
    d.undo? = some (d.restore s ⟨d.history.capacity, rest,
      (d.snapshot :: d.history.redone).take d.history.capacity⟩) := by
  rw [undo?, History.undo?, h]
  rfl

theorem redo_of_cons {d : Document} {s : Snapshot} {rest : List Snapshot}
    (h : d.history.redone = s :: rest) :
    d.redo? = some (d.restore s ⟨d.history.capacity,
      (d.snapshot :: d.history.undone).take d.history.capacity, rest⟩) := by
  rw [redo?, History.redo?, h]
  rfl

theorem length_past (d : Document) : d.timeline.past.length = d.history.undone.length :=
  List.length_map _

theorem length_future (d : Document) : d.timeline.future.length = d.history.redone.length :=
  List.length_map _

/-- As many redos as undos lead back, if there is as much to undo. -/
theorem exists_redo_undone {d : Document} (hd : d.history.Balanced) {n : Nat}
    (hn : n ≤ d.history.undone.length) :
    ∃ e f, repeat? undo? n d = some e ∧ repeat? redo? n e = some f ∧
      f.timeline = d.timeline := by
  rw [← length_past] at hn
  obtain ⟨t, ht⟩ := Timeline.exists_repeat_back hn
  exact simulates_undo.exists_return simulates_redo Timeline.forward_of_back hd ht

/-- As many undos as redos lead back, if there is as much to redo. -/
theorem exists_undo_redone {d : Document} (hd : d.history.Balanced) {n : Nat}
    (hn : n ≤ d.history.redone.length) :
    ∃ e f, repeat? redo? n d = some e ∧ repeat? undo? n e = some f ∧
      f.timeline = d.timeline := by
  rw [← length_future] at hn
  obtain ⟨t, ht⟩ := Timeline.exists_repeat_forward hn
  exact simulates_redo.exists_return simulates_undo Timeline.back_of_forward hd ht

/-- Documents with the same timeline have the same components and selection. -/
theorem eq_of_timeline_eq {d e : Document} (h : d.timeline = e.timeline) :
    d.components = e.components ∧ d.selected = e.selected :=
  Prod.mk.inj (congrArg Timeline.present h)

end Document

namespace Session

/-! ## Runs of one command -/

/-- The replies to a sequence of commands. -/
def replies (s : Session) : List Command → List Reply
  | [] => []
  | cmd :: cmds => (s.run cmd).1 :: replies (s.run cmd).2 cmds

theorem replies_append (s : Session) (xs ys : List Command) :
    s.replies (xs ++ ys) = s.replies xs ++ (s.runAll xs).replies ys := by
  induction xs generalizing s with
  | nil => rfl
  | cons x xs ih => exact congrArg _ (ih _)

theorem runAll_append (s : Session) (xs ys : List Command) :
    s.runAll (xs ++ ys) = (s.runAll xs).runAll ys :=
  List.foldl_append

/-- A command that takes a step of the document, given as often as the step can be taken. -/
theorem run_repeat {cmd : Command} {step : Document → Option Document}
    (hcmd : ∀ s : Session, s.run cmd = s.changed (step s.document)) {n : Nat} {s : Session}
    {e : Document} (he : repeat? step n s.document = some e) :
    s.replies (List.replicate n cmd) = List.replicate n (.did true) ∧
      s.runAll (List.replicate n cmd) = { s with document := e } := by
  induction n generalizing s with
  | zero =>
      cases he
      exact ⟨rfl, rfl⟩
  | succ n ih =>
      obtain ⟨d, hd, he⟩ := Option.bind_eq_some_iff.mp he
      have hrun : s.run cmd = (.did true, { s with document := d }) := by
        rw [hcmd, hd]
        rfl
      obtain ⟨hreplies, hstate⟩ := ih (s := { s with document := d }) he
      constructor
      · rw [List.replicate_succ, replies, hrun, hreplies, List.replicate_succ]
      · rw [List.replicate_succ, runAll, List.foldl_cons, hrun]
        exact hstate

/-- Two commands whose steps lead somewhere and back. -/
theorem run_return {there back : Command} {step stepBack : Document → Option Document}
    (hthere : ∀ s : Session, s.run there = s.changed (step s.document))
    (hback : ∀ s : Session, s.run back = s.changed (stepBack s.document)) {n : Nat} {s : Session}
    (h : ∃ e f, repeat? step n s.document = some e ∧ repeat? stepBack n e = some f ∧
      f.timeline = s.document.timeline) :
    let cmds := List.replicate n there ++ List.replicate n back
    s.replies cmds = List.replicate (n + n) (.did true) ∧
      (s.runAll cmds).document.components = s.document.components ∧
      (s.runAll cmds).document.selected = s.document.selected := by
  obtain ⟨e, f, he, hf, htimeline⟩ := h
  obtain ⟨hreplies, hstate⟩ := run_repeat hthere he
  obtain ⟨hrepliesBack, hstateBack⟩ := run_repeat hback (s := { s with document := e }) hf
  intro cmds
  refine ⟨?_, ?_⟩
  · rw [replies_append, hreplies, hstate, hrepliesBack, List.replicate_append_replicate]
  · rw [runAll_append, hstate, hstateBack]
    exact Document.eq_of_timeline_eq htimeline

/-! ## The law -/

/-- In every session that arises, by whatever commands, undoing as often as possible or less
often and then redoing as often, or the other way round, succeeds at every step and leads back
to the same components and the same selection. -/
theorem undo_redo_inverse {s : Session} (hs : Arises (fun _ _ => True) s) (n : Nat) :
    (n ≤ s.document.history.undone.length →
      let cmds := List.replicate n .undo ++ List.replicate n .redo
      s.replies cmds = List.replicate (n + n) (.did true) ∧
        (s.runAll cmds).document.components = s.document.components ∧
        (s.runAll cmds).document.selected = s.document.selected) ∧
    (n ≤ s.document.history.redone.length →
      let cmds := List.replicate n .redo ++ List.replicate n .undo
      s.replies cmds = List.replicate (n + n) (.did true) ∧
        (s.runAll cmds).document.components = s.document.components ∧
        (s.runAll cmds).document.selected = s.document.selected) := by
  constructor
  · intro hn
    exact run_return (fun _ => rfl) (fun _ => rfl)
      (Document.exists_redo_undone hs.balanced hn)
  · intro hn
    exact run_return (fun _ => rfl) (fun _ => rfl)
      (Document.exists_undo_redone hs.balanced hn)

/-- The sample can be undone and redone, in either order. -/
theorem undo_redo_sample :
    Arises (fun _ _ => True) sample ∧
      (sample.replies [.undo, .redo] = [.did true, .did true] ∧
        (sample.runAll [.undo, .redo]).document.components = sample.document.components ∧
        (sample.runAll [.undo, .redo]).document.selected = sample.document.selected) ∧
      (sample.replies [.redo, .undo] = [.did true, .did true] ∧
        (sample.runAll [.redo, .undo]).document.components = sample.document.components ∧
        (sample.runAll [.redo, .undo]).document.selected = sample.document.selected) := by
  have hsample : Arises (fun _ _ => True) sample :=
    arises_sample trivial trivial trivial trivial
  have hlaw := undo_redo_inverse hsample 1
  exact ⟨hsample, hlaw.1 (by decide +kernel), hlaw.2 (by decide +kernel)⟩

end Session

end PageDesign
