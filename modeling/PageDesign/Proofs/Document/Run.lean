/-
# PageDesign.Proofs.Document.Run -- sessions over whole runs

A session arises from a document without components or from one that was read, by any sequence
of commands, each under a condition on the session in which it is given.  Between commands
identities may be drawn for other purposes, so the counter may move on.

Two rules reduce statements about all sessions that arise to statements about one command.
What the four operations of a history keep is kept by every command (`run_history`), and a
state that a session knows after a command was known before or is the outcome of an edit
(`mem_states_run`).
-/
import PageDesign.Proofs.Document.Change

namespace PageDesign

namespace Document

/-! ## Documents at their beginning -/

/-- A document that was not edited yet: sound, its selection present, its history empty. -/
def Unedited (d : Document) : Prop :=
  ∃ f selected capacity, 0 < capacity ∧ Forest.Sound f ∧
    (∀ i, selected = some i → i ∈ Forest.ids f) ∧ d = ⟨f, selected, .empty capacity⟩

theorem ofForest_eq_ok {f : Forest Id} {selected : Option Id} {capacity : Option Int}
    {d : Document} (h : ofForest f selected capacity = .ok d) :
    ∃ capacity, 0 < capacity ∧ d = ⟨f, selected, .empty capacity⟩ := by
  obtain ⟨g, hg, rfl⟩ := map_eq_ok.mp h
  obtain ⟨capacity, hpos, rfl⟩ := History.ofCapacity_eq_ok hg
  exact ⟨capacity, hpos, rfl⟩

theorem unedited_empty {capacity : Option Int} {d : Document}
    (h : ofForest [] none capacity = .ok d) : d.Unedited := by
  obtain ⟨capacity, hpos, rfl⟩ := ofForest_eq_ok h
  exact ⟨[], none, capacity, hpos, Forest.sound_nil, by simp, rfl⟩

/-- A document that is read was checked, and lost a selection that does not occur. -/
theorem unedited_ofJson {v : Json} {capacity : Option Int} {m n : Minted} {d : Document}
    (h : ofJson v capacity m = .ok (d, n)) : d.Unedited := by
  rw [ofJson] at h
  split at h
  next => cases h
  next drafts selected _ =>
    dsimp only at h
    split at h
    next => cases h
    next hvalid =>
      split at h
      next d' hd =>
        cases h
        obtain ⟨capacity, hpos, rfl⟩ := ofForest_eq_ok hd
        refine ⟨_, _, capacity, hpos, Forest.validate_iff.mp hvalid, ?_, rfl⟩
        intro i hi
        exact Forest.contains_iff.mp (Option.filter_eq_some_iff.mp hi).2
      next => cases h

theorem unedited_ofText {t : String} {capacity : Option Int} {m n : Minted} {d : Document}
    (h : ofText t capacity m = .ok (d, n)) : d.Unedited := by
  rw [ofText] at h
  split at h
  next => cases h
  next => exact unedited_ofJson h

/-! ## States along a change -/

theorem mem_states {d : Document} {x : Forest Id × Option Id} :
    x ∈ d.states ↔ ∃ s ∈ (d.history.timeline d.snapshot).states, s.state = x := by
  rw [states, timeline, Timeline.states_map, List.mem_map]

theorem present_mem_states (d : Document) : (d.components, d.selected) ∈ d.states :=
  List.mem_cons_self

/-- A document that takes over a state knows the states that go with it. -/
theorem mem_states_restore {d : Document} {s : Snapshot} {g : History Snapshot}
    {x : Forest Id × Option Id} (hx : x ∈ (d.restore s g).states) :
    ∃ t ∈ (g.timeline s).states, t.state = x := by
  have htimeline : (d.restore s g).timeline = (g.timeline s).map Snapshot.state := rfl
  rwa [states, htimeline, Timeline.states_map, List.mem_map] at hx

theorem mem_states_recorded {d e : Document} {f : Forest Id} {selected : Option Id}
    {x : Forest Id × Option Id} (he : d.Recorded e f selected) (hx : x ∈ e.states) :
    x = (f, selected) ∨ x ∈ d.states := by
  obtain ⟨description, rfl⟩ := he
  obtain ⟨s, hs, rfl⟩ := mem_states.mp hx
  rcases History.mem_states_push hs with rfl | hs
  · exact .inl rfl
  · right
    rcases Timeline.mem_states.mp hs with rfl | hs
    · exact present_mem_states d
    · exact mem_states.mpr ⟨s, Timeline.mem_states.mpr (.inr hs), rfl⟩

/-- A document with the history of another knows its own state and the recorded ones. -/
theorem mem_states_present {d e : Document} {x : Forest Id × Option Id}
    (h : e.history = d.history) (hx : x ∈ e.states) :
    x = (e.components, e.selected) ∨ x ∈ d.states := by
  obtain ⟨s, hs, rfl⟩ := mem_states.mp hx
  rw [h] at hs
  rcases Timeline.mem_states.mp hs with rfl | hs
  · exact .inl rfl
  · exact .inr (mem_states.mpr ⟨s, Timeline.mem_states.mpr (.inr hs), rfl⟩)

theorem mem_states_undo {d e : Document} {x : Forest Id × Option Id} (he : d.undo? = some e)
    (hx : x ∈ e.states) : x ∈ d.states := by
  obtain ⟨s, g, hs, rfl⟩ := undo_eq_some he
  obtain ⟨t, ht, rfl⟩ := mem_states_restore hx
  exact mem_states.mpr ⟨t, History.mem_states_undo hs ht, rfl⟩

theorem mem_states_redo {d e : Document} {x : Forest Id × Option Id} (he : d.redo? = some e)
    (hx : x ∈ e.states) : x ∈ d.states := by
  obtain ⟨s, g, hs, rfl⟩ := redo_eq_some he
  obtain ⟨t, ht, rfl⟩ := mem_states_restore hx
  exact mem_states.mpr ⟨t, History.mem_states_redo hs ht, rfl⟩

theorem mem_states_restoreTo {d e : Document} {index : Int} {x : Forest Id × Option Id}
    (he : d.restoreTo? index = some e) (hx : x ∈ e.states) : x ∈ d.states := by
  obtain ⟨⟨s, g⟩, hs, rfl⟩ := Option.map_eq_some_iff.mp he
  obtain ⟨t, ht, rfl⟩ := mem_states_restore hx
  have hknown : ∀ y ∈ (g.timeline s).states, y ∈ (d.history.timeline d.snapshot).states := by
    -- a return is a number of undos, and each of them makes no new state
    refine History.restoreTo_induction (motive := fun s g => ∀ y ∈ (g.timeline s).states,
      y ∈ (d.history.timeline d.snapshot).states) ?_ (fun y hy => hy) hs
    intro s h t g hkeep hu y hy
    exact hkeep y (History.mem_states_undo hu hy)
  exact mem_states.mpr ⟨t, hknown t ht, rfl⟩

theorem select_eq_some {d e : Document} {id : Option Id} (h : d.select? id = some e) :
    e = { d with selected := id } ∧ ∀ i, id = some i → i ∈ d.components.ids := by
  cases id with
  | none =>
      cases h
      simp
  | some i =>
      rw [select?] at h
      split at h
      next hi =>
        cases h
        refine ⟨rfl, ?_⟩
        rintro _ ⟨⟩
        exact Forest.contains_iff.mp hi
      next => cases h

end Document

namespace Session

/-! ## One command -/

/-- What holds of the document before and of a change, holds after a change that may not
happen. -/
theorem changed_induction {motive : Document → Prop} {s : Session} {d : Option Document}
    (hs : motive s.document) (hd : ∀ e, d = some e → motive e) :
    motive (s.changed d).2.document := by
  cases d with
  | none => exact hs
  | some e => exact hd e rfl

/-- What the operations of a history keep, every command keeps. -/
theorem run_history {P : History Snapshot → Prop} (push : ∀ h s, P h → P (h.push s))
    (undo : ∀ h s t g, P h → h.undo? s = some (t, g) → P g)
    (redo : ∀ h s t g, P h → h.redo? s = some (t, g) → P g) (clear : ∀ h, P h → P h.clear)
    {s : Session} (hs : P s.document.history) (cmd : Command) :
    P (s.run cmd).2.document.history := by
  by_cases hm : cmd.Mutates
  · rcases run_mutation (s := s) hm with ⟨-, hsame⟩ | ⟨-, f, selected, -, description, hrecorded⟩
    · rwa [hsame]
    · rw [hrecorded]
      exact push _ _ hs
  · cases cmd with
    | addRootUnrecorded c => exact hs
    | addChildUnrecorded parent c =>
        refine changed_induction (motive := fun d => P d.history) hs fun e he => ?_
        obtain ⟨f, -, rfl⟩ := Option.map_eq_some_iff.mp he
        exact hs
    | select id =>
        refine changed_induction (motive := fun d => P d.history) hs fun e he => ?_
        obtain ⟨rfl, -⟩ := Document.select_eq_some he
        exact hs
    | undo =>
        refine changed_induction (motive := fun d => P d.history) hs fun e he => ?_
        obtain ⟨t, g, hg, rfl⟩ := Document.undo_eq_some he
        exact undo _ _ _ _ hs hg
    | redo =>
        refine changed_induction (motive := fun d => P d.history) hs fun e he => ?_
        obtain ⟨t, g, hg, rfl⟩ := Document.redo_eq_some he
        exact redo _ _ _ _ hs hg
    | restoreTo index =>
        refine changed_induction (motive := fun d => P d.history) hs fun e he => ?_
        obtain ⟨⟨t, g⟩, hg, rfl⟩ := Option.map_eq_some_iff.mp he
        exact History.restoreTo_induction (motive := fun _ h => P h)
          (fun s h t g hh hu => undo h s t g hh hu) hs hg
    | record description => exact push _ _ hs
    | clearHistory => exact clear _ hs
    | _ => exact absurd trivial hm

/-- A state that is known after a command was known before or is the outcome of an edit. -/
theorem mem_states_run {s : Session} {cmd : Command} {x : Forest Id × Option Id}
    (hx : x ∈ (s.run cmd).2.document.states) :
    x ∈ s.document.states ∨ s.Edit cmd x.1 x.2 := by
  by_cases hm : cmd.Mutates
  · rcases run_mutation (s := s) hm with ⟨-, hsame⟩ | ⟨-, f, selected, hedit, hrecorded⟩
    · rw [hsame] at hx
      exact .inl hx
    · rcases Document.mem_states_recorded hrecorded hx with rfl | hx
      · exact .inr hedit
      · exact .inl hx
  · revert hx
    cases cmd with
    | addRootUnrecorded c =>
        intro hx
        have hsame : (s.run (.addRootUnrecorded c)).2.document.history = s.document.history := rfl
        rcases Document.mem_states_present hsame hx with rfl | hx
        · exact .inr (.unchecked id (Forest.Comprises.append _ _))
        · exact .inl hx
    | addChildUnrecorded parent c =>
        refine changed_induction (motive := fun d => x ∈ d.states → _) .inl fun e he hx => ?_
        obtain ⟨f, hf, rfl⟩ := Option.map_eq_some_iff.mp he
        have hsame : { s.document with components := f }.history = s.document.history := rfl
        rcases Document.mem_states_present hsame hx with rfl | hx
        · exact .inr (.unchecked id (Forest.comprises_addChild hf))
        · exact .inl hx
    | select id =>
        refine changed_induction (motive := fun d => x ∈ d.states → _) .inl fun e he hx => ?_
        obtain ⟨rfl, hid⟩ := Document.select_eq_some he
        have hsame : { s.document with selected := id }.history = s.document.history := rfl
        rcases Document.mem_states_present hsame hx with rfl | hx
        · exact .inr (.select hid)
        · exact .inl hx
    | undo =>
        refine changed_induction (motive := fun d => x ∈ d.states → _) .inl fun e he hx => ?_
        exact .inl (Document.mem_states_undo he hx)
    | redo =>
        refine changed_induction (motive := fun d => x ∈ d.states → _) .inl fun e he hx => ?_
        exact .inl (Document.mem_states_redo he hx)
    | restoreTo index =>
        refine changed_induction (motive := fun d => x ∈ d.states → _) .inl fun e he hx => ?_
        exact .inl (Document.mem_states_restoreTo he hx)
    | record description =>
        -- the present state is recorded and stays the present one
        intro hx
        rcases Document.mem_states_recorded ⟨description, rfl⟩ hx with rfl | hx
        · exact .inl (Document.present_mem_states _)
        · exact .inl hx
    | clearHistory =>
        intro hx
        obtain ⟨t, ht, rfl⟩ := Document.mem_states.mp hx
        rcases Timeline.mem_states.mp ht with rfl | ht | ht
        · exact .inl (Document.present_mem_states _)
        · cases ht
        · cases ht
    | _ => exact absurd trivial hm

/-! ## Runs -/

/-- The sessions that arise from a document without components or one that was read, by commands
that each satisfy a condition when they are given.  Identities may be drawn in between. -/
inductive Arises (P : Session → Command → Prop) : Session → Prop
  | empty {capacity : Option Int} {d : Document} {n : Minted} :
      Document.ofForest [] none capacity = .ok d → Arises P ⟨d, n⟩
  | value {v : Json} {capacity : Option Int} {d : Document} {m n : Minted} :
      Document.ofJson v capacity m = .ok (d, n) → Arises P ⟨d, n⟩
  | text {t : String} {capacity : Option Int} {d : Document} {m n : Minted} :
      Document.ofText t capacity m = .ok (d, n) → Arises P ⟨d, n⟩
  | draw {s : Session} {n : Minted} :
      Arises P s → s.minted ≤ n → Arises P { s with minted := n }
  | run {s : Session} {cmd : Command} : Arises P s → P s cmd → Arises P (s.run cmd).2

namespace Arises

variable {P : Session → Command → Prop} {s : Session}

/-- What holds of the first histories and is kept by the operations of a history, holds of the
history of every session that arises. -/
theorem history {Q : History Snapshot → Prop} (hs : Arises P s)
    (empty : ∀ capacity, 0 < capacity → Q (.empty capacity)) (push : ∀ h s, Q h → Q (h.push s))
    (undo : ∀ h s t g, Q h → h.undo? s = some (t, g) → Q g)
    (redo : ∀ h s t g, Q h → h.redo? s = some (t, g) → Q g) (clear : ∀ h, Q h → Q h.clear) :
    Q s.document.history := by
  have fresh {d : Document} (hd : d.Unedited) : Q d.history := by
    obtain ⟨f, selected, capacity, hpos, -, -, rfl⟩ := hd
    exact empty capacity hpos
  induction hs with
  | empty h => exact fresh (Document.unedited_empty h)
  | value h => exact fresh (Document.unedited_ofJson h)
  | text h => exact fresh (Document.unedited_ofText h)
  | draw _ _ ih => exact ih
  | run _ _ ih => exact run_history push undo redo clear ih _

/-- The two lists of the history of every session that arises are balanced. -/
theorem balanced (hs : Arises P s) : s.document.history.Balanced :=
  hs.history (fun capacity _ => History.balanced_empty capacity) (fun _ s _ => .push s)
    (fun _ _ _ _ h hu => (h.undo hu).1) (fun _ _ _ _ h hr => (h.redo hr).1)
    (fun h _ => .clear h)

/-- There is room for an undo point in every session that arises. -/
theorem capacity_pos (hs : Arises P s) : 0 < s.document.history.capacity := by
  refine hs.history (Q := fun h => 0 < h.capacity) (fun _ h => h) (fun _ _ h => h) ?_ ?_
    (fun _ h => h)
  · intro h s t g hpos hu
    rw [History.capacity_undo hu]
    exact hpos
  · intro h s t g hpos hr
    rw [History.capacity_redo hr]
    exact hpos

/-- What holds of the states in which documents begin, and of every edit of a session in which
it holds of all states, holds of all states of every session that arises. -/
theorem states {Q : Forest Id × Option Id → Prop} (hs : Arises P s)
    (first : ∀ f selected, f.Sound → (∀ i, selected = some i → i ∈ f.ids) → Q (f, selected))
    (edit : ∀ s cmd f selected, P s cmd → (∀ x ∈ s.document.states, Q x) →
      s.Edit cmd f selected → Q (f, selected)) :
    ∀ x ∈ s.document.states, Q x := by
  have fresh {d : Document} (hd : d.Unedited) : ∀ x ∈ d.states, Q x := by
    obtain ⟨f, selected, capacity, -, hf, hselected, rfl⟩ := hd
    intro x hx
    obtain rfl : x = (f, selected) := List.mem_singleton.mp hx
    exact first f selected hf hselected
  induction hs with
  | empty h => exact fresh (Document.unedited_empty h)
  | value h => exact fresh (Document.unedited_ofJson h)
  | text h => exact fresh (Document.unedited_ofText h)
  | draw _ _ ih => exact ih
  | run _ hP ih =>
      intro x hx
      rcases mem_states_run hx with hx | hx
      · exact ih x hx
      · exact edit _ _ _ _ hP ih hx

end Arises

/-- A card with a button in it. -/
def sampleCard : Component Id := .branch "a" none (.card {}) [.leaf "b" none (.button {})]

/-- A session in which a card was put in, its button selected, the card copied, and the copy taken
back. -/
def sample : Session :=
  Session.runAll ⟨.empty, 0⟩ [.addRoot sampleCard, .select (some "b"), .duplicate "a", .undo]

/-- The sample arises under every condition that holds of its commands. -/
theorem arises_sample {P : Session → Command → Prop} (hadd : P ⟨.empty, 0⟩ (.addRoot sampleCard))
    (hselect : P (Session.runAll ⟨.empty, 0⟩ [.addRoot sampleCard]) (.select (some "b")))
    (hcopy : P (Session.runAll ⟨.empty, 0⟩ [.addRoot sampleCard, .select (some "b")])
      (.duplicate "a"))
    (hundo : P (Session.runAll ⟨.empty, 0⟩
      [.addRoot sampleCard, .select (some "b"), .duplicate "a"]) .undo) :
    Arises P sample := by
  have hempty : Document.ofForest [] none none = .ok .empty := rfl
  exact ((((Arises.empty hempty).run hadd).run hselect).run hcopy).run hundo

end Session

end PageDesign
