/-
# PageDesign.Proofs.Document.Retrace -- undo retraces what was recorded

A run of mutations, with selections in between, leaves the states before the mutations as its
undo points, the newest first and as many as the history has room for
(`Recording.state_undone`).  Each mutation takes its undo point at a moment of its own, but
`run_mutation` says that it always is the state before the command, so the induction over the
run does not look at the commands.  Going back visits the undo points one after the other
(`exists_repeat_undo`), and stops where they end.
-/
import PageDesign.Proofs.Document.UndoRedo

namespace PageDesign

/-! ## Going back -/

namespace Document

/-- As often as there are undo points, one can go back, each time to the next of them. -/
theorem exists_repeat_undo {n : Nat} {d : Document} (hn : n ≤ d.history.undone.length) :
    ∃ e, repeat? undo? n d = some e ∧ e.history.undone = d.history.undone.drop n ∧
      ((d.components, d.selected) :: d.history.undone.map Snapshot.state)[n]? =
        some (e.components, e.selected) := by
  induction n generalizing d with
  | zero => exact ⟨d, rfl, rfl, rfl⟩
  | succ n ih =>
      obtain ⟨s, rest, hundone⟩ := List.exists_cons_of_length_pos (Nat.zero_lt_of_lt hn)
      have hroom : n ≤ rest.length := by
        rw [hundone, List.length_cons] at hn
        omega
      have hstep := undo_of_cons hundone
      obtain ⟨e, he, hdrop, hstate⟩ := ih (d := d.restore s ⟨_, rest, _⟩) hroom
      refine ⟨e, ?_, ?_, ?_⟩
      · rw [repeat?, hstep, Option.bind_some, he]
      · rw [hundone, List.drop_succ_cons]
        exact hdrop
      · rw [hundone, List.map_cons, List.getElem?_cons_succ]
        exact hstate

end Document

namespace Session

/-! ## Runs of mutations and selections -/

/-- What a run of mutations and selections leads to, with the states just before the mutations
that did something, the newest first.  Identities may be drawn in between. -/
inductive Recording (s : Session) : List (Forest Id × Option Id) → Session → Prop
  | start : Recording s [] s
  | mutate {points : List (Forest Id × Option Id)} {t : Session} {cmd : Command} :
      Recording s points t → cmd.Mutates → ¬ t.Declines cmd →
      Recording s ((t.document.components, t.document.selected) :: points) (t.run cmd).2
  | decline {points : List (Forest Id × Option Id)} {t : Session} {cmd : Command} :
      Recording s points t → cmd.Mutates → t.Declines cmd → Recording s points (t.run cmd).2
  | select {points : List (Forest Id × Option Id)} {t : Session} (id : Option Id) :
      Recording s points t → Recording s points (t.run (.select id)).2
  | draw {points : List (Forest Id × Option Id)} {t : Session} {n : Minted} :
      Recording s points t → t.minted ≤ n → Recording s points { t with minted := n }

variable {s t : Session} {cmd : Command} {points : List (Forest Id × Option Id)}

/-- A mutation that does something puts the state before it in front of the undo points. -/
theorem state_undone_run (hcmd : cmd.Mutates) (hdone : ¬ t.Declines cmd) :
    (t.run cmd).2.document.history.capacity = t.document.history.capacity ∧
      (t.run cmd).2.document.history.undone.map Snapshot.state =
        ((t.document.components, t.document.selected) ::
          t.document.history.undone.map Snapshot.state).take t.document.history.capacity := by
  rcases run_mutation (s := t) hcmd with ⟨hdeclines, -⟩ | ⟨-, f, selected, -, description, h⟩
  · exact absurd hdeclines hdone
  · rw [h]
    exact ⟨rfl, List.map_take⟩

theorem document_of_declines (hcmd : cmd.Mutates) (h : t.Declines cmd) :
    (t.run cmd).2.document = t.document := by
  rcases run_mutation (s := t) hcmd with ⟨-, hsame⟩ | ⟨hdone, -⟩
  · exact hsame
  · exact absurd h hdone

theorem history_run_select (t : Session) (id : Option Id) :
    (t.run (.select id)).2.document.history = t.document.history :=
  changed_induction (motive := fun d => d.history = t.document.history) rfl fun e he => by
    obtain ⟨rfl, -⟩ := Document.select_eq_some he
    rfl

/-- Dropping what is over before a new first item or after it makes no difference. -/
theorem take_cons_take {α : Type} (x : α) (l : List α) (n : Nat) :
    (x :: l.take n).take n = (x :: l).take n := by
  cases n with
  | zero => rfl
  | succ n => rw [List.take_succ_cons, List.take_succ_cons, List.take_take,
      Nat.min_eq_left (Nat.le_succ n)]

/-- After a run that began without undo points, these are the states before its mutations, as
many of the newest as there is room for. -/
theorem Recording.state_undone (h : s.Recording points t)
    (hempty : s.document.history.undone = []) :
    t.document.history.capacity = s.document.history.capacity ∧
      t.document.history.undone.map Snapshot.state =
        points.take s.document.history.capacity := by
  induction h with
  | start =>
      rw [hempty]
      exact ⟨rfl, List.take_nil.symm⟩
  | @mutate points t cmd _ hcmd hdone ih =>
      obtain ⟨hcapacity, hundone⟩ := ih
      obtain ⟨hcapacity', hundone'⟩ := state_undone_run hcmd hdone
      refine ⟨hcapacity'.trans hcapacity, ?_⟩
      rw [hundone', hundone, hcapacity, take_cons_take]
  | decline _ hcmd hdeclines ih =>
      rw [document_of_declines hcmd hdeclines]
      exact ih
  | select id _ ih =>
      rw [history_run_select]
      exact ih
  | draw _ _ ih => exact ih

/-! ## The law -/

/-- After a run of mutations and selections in a session without undo points, undo succeeds
exactly as often as there were mutations, or as the history has room if there were more.  Each
undo leads to the components and the selection just before the next mutation back, and the undo
after the last of them says that it does nothing and does nothing. -/
theorem undo_retraces (hempty : s.document.history.undone = []) (h : s.Recording points t) :
    let n := min points.length s.document.history.capacity
    t.replies (List.replicate n .undo) = List.replicate n (.did true) ∧
      (∀ j < n, points[j]? = some
        ((t.runAll (List.replicate (j + 1) .undo)).document.components,
          (t.runAll (List.replicate (j + 1) .undo)).document.selected)) ∧
      (t.runAll (List.replicate n .undo)).run .undo =
        (.did false, t.runAll (List.replicate n .undo)) := by
  intro n
  obtain ⟨-, hundone⟩ := h.state_undone hempty
  have hlength : t.document.history.undone.length = n := by
    have hlengths := congrArg List.length hundone
    rw [List.length_map, List.length_take] at hlengths
    omega
  -- what some undos lead to, as commands of the session
  have hruns {m : Nat} {e : Document} (he : repeat? Document.undo? m t.document = some e) :
      t.replies (List.replicate m .undo) = List.replicate m (.did true) ∧
        t.runAll (List.replicate m .undo) = { t with document := e } :=
    run_repeat (fun _ => rfl) he
  obtain ⟨last, hlast, hdrop, -⟩ := Document.exists_repeat_undo (Nat.le_of_eq hlength.symm)
  refine ⟨(hruns hlast).1, ?_, ?_⟩
  · intro j hj
    obtain ⟨e, he, -, hstate⟩ :=
      Document.exists_repeat_undo (d := t.document) (n := j + 1) (by omega)
    rw [List.getElem?_cons_succ, hundone, List.getElem?_take_of_lt (by omega)] at hstate
    rw [(hruns he).2]
    exact hstate
  · have hnothing : last.history.undone = [] := by
      rw [hdrop, ← hlength, List.drop_length]
    have hstop : last.undo? = none := by
      rw [Document.undo?, History.undo?, hnothing]
      rfl
    rw [(hruns hlast).2, run, hstop]
    rfl

/-- A history with room for two undo points: of three mutations with selections in between, the
last two are retraced. -/
theorem undo_retraces_sample :
    let s : Session := ⟨.empty 2, 0⟩
    let t := s.runAll [.addRoot sampleCard, .select (some "b"), .duplicate "a",
      .select none, .remove "b"]
    ∃ points, s.document.history.undone = [] ∧ s.Recording points t ∧ points.length = 3 ∧
      t.replies [.undo, .undo] = [.did true, .did true] ∧
      points[0]? = some ((t.run .undo).2.document.components,
        (t.run .undo).2.document.selected) ∧
      (t.runAll [.undo, .undo]).document.selected = some "b" ∧
      (t.runAll [.undo, .undo]).run .undo = (.did false, t.runAll [.undo, .undo]) := by
  intro s t
  have hdid {t : Session} {cmd : Command} (hreply : ¬ (t.run cmd).1.Declines)
      (hclear : cmd ≠ .clear) : ¬ t.Declines cmd := by
    rintro (h | ⟨h, -⟩)
    · exact hreply h
    · exact hclear h
  have hadd := Recording.start.mutate (s := s) (show (Command.addRoot sampleCard).Mutates from
    trivial) (hdid (by decide +kernel) nofun)
  have hcopy := (hadd.select (some "b")).mutate (show (Command.duplicate "a").Mutates from
    trivial) (hdid (by decide +kernel) nofun)
  have hremove := (hcopy.select none).mutate (show (Command.remove "b").Mutates from
    trivial) (hdid (by decide +kernel) nofun)
  obtain ⟨hreplies, hpoints, hstop⟩ := undo_retraces rfl hremove
  exact ⟨_, rfl, hremove, rfl, hreplies, hpoints 0 (by decide), by decide +kernel, hstop⟩

end Session

end PageDesign
