/-
# PageDesign.Proofs.Document.Change -- what a command can do

Every command either leaves the document as it is, or does one of a few things: it makes a new
present state, with or without an undo point, it goes to a recorded state, or it only touches
the history.  `Edit` lists the ways in which a new present state comes about, each with the
checks that were passed on the way, and `run_mutation` says that a mutation either declines or
records the old state and makes an edit.  Statements about all commands split on these cases
and do not look at the commands again.
-/
import PageDesign.Document.Command
import PageDesign.Proofs.Component.Fresh
import PageDesign.Proofs.History.Timeline

namespace PageDesign

open Forest (Comprises)

/-! ## States and timelines of documents -/

/-- The forest and the selection of a snapshot. -/
def Snapshot.state (s : Snapshot) : Forest Id × Option Id := (s.components, s.selected)

namespace Document

/-- The forests and selections of a document over time, without the words for the changes. -/
def timeline (d : Document) : Timeline (Forest Id × Option Id) :=
  (d.history.timeline d.snapshot).map Snapshot.state

/-- The forest and the selection of a document, now and at every recorded time. -/
def states (d : Document) : List (Forest Id × Option Id) := d.timeline.states

/-- A document that has recorded its state and has a new one. -/
def Recorded (d e : Document) (f : Forest Id) (selected : Option Id) : Prop :=
  ∃ description, e = { d.record description with components := f, selected := selected }

theorem undo_eq_some {d e : Document} (h : d.undo? = some e) :
    ∃ s g, d.history.undo? d.snapshot = some (s, g) ∧ e = d.restore s g := by
  obtain ⟨⟨s, g⟩, hs, rfl⟩ := Option.map_eq_some_iff.mp h
  exact ⟨s, g, hs, rfl⟩

theorem redo_eq_some {d e : Document} (h : d.redo? = some e) :
    ∃ s g, d.history.redo? d.snapshot = some (s, g) ∧ e = d.restore s g := by
  obtain ⟨⟨s, g⟩, hs, rfl⟩ := Option.map_eq_some_iff.mp h
  exact ⟨s, g, hs, rfl⟩

end Document

/-! ## Checks of what comes in -/

namespace Document

/-- A tree may come in if its components obey their rules and its identities are distinct, and
if those that occur in the document occur in the tree that it replaces. -/
theorem checkIncoming_iff {d : Document} {c : Component Id} {replacing : Option Id} :
    d.checkIncoming c replacing = .ok () ↔ Forest.Sound [c] ∧ ∀ i ∈ Forest.ids [c],
      i ∈ d.components.ids →
        ∃ old, replacing.bind d.components.get? = some old ∧ i ∈ Forest.ids [old] := by
  -- an identity is free if it does not occur or occurs in the tree that is replaced
  have hfree (i : Id) : i ∉ d.components.ids.filter (fun i => !(((replacing.bind
      d.components.get?).map fun old => Forest.ids [old]).getD []).contains i) ↔
      (i ∈ d.components.ids →
        ∃ old, replacing.bind d.components.get? = some old ∧ i ∈ Forest.ids [old]) := by
    cases replacing.bind d.components.get? <;> simp [List.mem_filter]
  rw [checkIncoming, check_bind_eq_ok, Component.validate_iff, Component.checkUnique_iff]
  simp only [hfree]
  constructor
  · rintro ⟨hobeys, hdistinct, hdisjoint⟩
    exact ⟨⟨hobeys, hdistinct⟩, hdisjoint⟩
  · rintro ⟨⟨hobeys, hdistinct⟩, hdisjoint⟩
    exact ⟨hobeys, hdistinct, hdisjoint⟩

end Document

/-! ## Mutations of documents -/

namespace Document

variable {d e : Document} {c : Component Id}

theorem addRoot_eq_ok (h : d.addRoot c = .ok e) :
    d.checkIncoming c = .ok () ∧ d.Recorded e (d.components.addRoot c) d.selected := by
  obtain ⟨hcheck, he⟩ := check_bind_eq_ok.mp h
  cases he
  exact ⟨hcheck, _, rfl⟩

theorem addChild_eq_ok {parent : Id} (h : d.addChild parent c = .ok (some e)) :
    d.checkIncoming c = .ok () ∧
      ∃ f, d.components.addChild? parent c = some f ∧ d.Recorded e f d.selected := by
  obtain ⟨hcheck, he⟩ := check_bind_eq_ok.mp h
  obtain ⟨f, hf, rfl⟩ := Option.map_eq_some_iff.mp (Except.ok.inj he)
  exact ⟨hcheck, f, hf, _, rfl⟩

theorem commit_eq_ok {id : Id} {description : String}
    (h : d.commit id c description = .ok (some e)) :
    d.checkIncoming (c.withId id) (some id) = .ok () ∧
      ∃ f, d.components.replace? id (c.withId id) = some f ∧ d.Recorded e f d.selected := by
  obtain ⟨hcheck, he⟩ := check_bind_eq_ok.mp h
  obtain ⟨f, hf, rfl⟩ := Option.map_eq_some_iff.mp (Except.ok.inj he)
  exact ⟨hcheck, f, hf, _, rfl⟩

/-- The selection after a removal: given up if it was inside, unless it is the empty text. -/
def selectedAfter (d : Document) (removed : Component Id) : Option Id :=
  if ((d.selection?.map (Forest.contains [removed])).getD false) then none else d.selected

theorem remove_eq_some {id : Id} (h : d.remove? id = some e) :
    ∃ removed f, d.components.remove? id = some (removed, f) ∧
      d.Recorded e f (d.selectedAfter removed) := by
  obtain ⟨⟨removed, f⟩, hr, rfl⟩ := Option.map_eq_some_iff.mp h
  exact ⟨removed, f, hr, _, rfl⟩

theorem move_eq_some {id : Id} {offset : Int} (h : d.move? id offset = some e) :
    ∃ f, d.components.move? id offset = some f ∧ d.Recorded e f d.selected := by
  obtain ⟨f, hf, rfl⟩ := Option.map_eq_some_iff.mp h
  exact ⟨f, hf, _, rfl⟩

theorem moveTo_eq_some {id : Id} {parent : Option Id} {index : Int}
    (h : d.moveTo? id parent index = some e) :
    ∃ f, d.components.moveTo? id parent index = some f ∧ d.Recorded e f d.selected := by
  obtain ⟨f, hf, rfl⟩ := Option.map_eq_some_iff.mp h
  exact ⟨f, hf, _, rfl⟩

/-- The copy comes next to its source, or nowhere if the place is not found again. -/
theorem duplicate_eq_some {id copy : Id} {m n : Minted}
    (h : d.duplicate? id m = some (copy, e, n)) :
    ∃ source f, d.components.get? id = some source ∧ (source.remint m).2 = n ∧
      d.Recorded e f d.selected ∧
      (Comprises f [(source.remint m).1] d.components ∨ f = d.components) := by
  obtain ⟨source, hsource, h⟩ := Option.bind_eq_some_iff.mp h
  obtain ⟨path, -, h⟩ := Option.bind_eq_some_iff.mp h
  obtain ⟨last, -, h⟩ := Option.bind_eq_some_iff.mp h
  cases h
  refine ⟨source, _, hsource, rfl, ⟨_, rfl⟩, ?_⟩
  cases hf : d.components.insertChildAt? ((path.dropLast.getLast?).map (·.id))
      ((last.index : Int) + 1) (source.remint m).1 with
  | none => exact .inr rfl
  | some f => exact .inl (Forest.comprises_insertChildAt hf)

theorem foldl_addRootUnrecorded (d : Document) (cs : Forest Id) :
    cs.foldl addRootUnrecorded d = { d with components := d.components ++ cs } := by
  induction cs generalizing d with
  | nil => simp
  | cons c cs ih => simp [ih, addRootUnrecorded, Forest.addRoot]

theorem applyTemplate_eq (d : Document) (t : Template) (n : Minted) :
    d.Recorded (d.applyTemplate t n).2.1 (d.components ++ (t.instantiate n).1) d.selected ∧
      (d.applyTemplate t n).2.2 = (t.instantiate n).2 := by
  refine ⟨⟨_, foldl_addRootUnrecorded _ _⟩, rfl⟩

/-- What a paste does with the tree that it has read: it comes in like any other. -/
def putIn (d : Document) (c : Component Id) : Option Id → Except Offence (Id × Document)
  | none => (d.addRoot c).map (c.id, ·)
  | some parent =>
    match d.addChild parent c with
    | .error e => .error e
    | .ok none => .error (cannotHold parent)
    | .ok (some e) => .ok (c.id, e)

theorem paste_of_readCopy {payload : String} {m n : Minted} (d : Document) (parent : Option Id)
    (h : readCopy payload m = .ok (c, n)) :
    d.paste payload parent m = .ok (d.putIn c parent, n) := by
  unfold paste
  rw [h]
  cases parent <;> rfl

theorem putIn_eq_ok {parent : Option Id} {id : Id} (h : d.putIn c parent = .ok (id, e)) :
    d.checkIncoming c = .ok () ∧
      ∃ f, Comprises f [c] d.components ∧ d.Recorded e f d.selected := by
  cases parent with
  | none =>
      obtain ⟨e', hadd, heq⟩ := map_eq_ok.mp h
      cases heq
      obtain ⟨hcheck, hrecorded⟩ := addRoot_eq_ok hadd
      exact ⟨hcheck, _, Comprises.append _ _, hrecorded⟩
  | some parent =>
      rw [putIn] at h
      split at h
      next => cases h
      next => cases h
      next e' hadd =>
        cases h
        obtain ⟨hcheck, f, hf, hrecorded⟩ := addChild_eq_ok hadd
        exact ⟨hcheck, f, Forest.comprises_addChild hf, hrecorded⟩

/-- What is pasted is read from the text and comes in like any other tree. -/
theorem paste_eq_ok {payload : String} {parent : Option Id} {id : Id} {m n : Minted}
    (h : d.paste payload parent m = .ok (.ok (id, e), n)) :
    ∃ c k f, readCopy payload m = .ok (c, k) ∧ d.checkIncoming c = .ok () ∧
      Comprises f [c] d.components ∧ d.Recorded e f d.selected := by
  cases hcopy : readCopy payload m with
  | error e' =>
      rw [paste, hcopy] at h
      cases h
  | ok copied =>
      obtain ⟨c, k⟩ := copied
      rw [paste_of_readCopy d parent hcopy] at h
      obtain ⟨hplaced, -⟩ := Prod.mk.inj (Except.ok.inj h)
      obtain ⟨hcheck, f, hf, hrecorded⟩ := putIn_eq_ok hplaced
      exact ⟨c, k, f, rfl, hcheck, hf, hrecorded⟩

theorem clear_recorded {d : Document} (h : d.components ≠ []) : d.Recorded d.clear [] none := by
  refine ⟨"Clear Canvas", ?_⟩
  rw [clear, if_neg (by simpa using h)]

end Document

/-! ## Commands -/

namespace Command

/-- The commands that change the design and leave an undo point. -/
def Mutates : Command → Prop
  | .addRoot _ | .addChild _ _ | .remove _ | .replace _ _ | .update _ _ | .patch _ _
  | .move _ _ | .moveTo _ _ _ | .duplicate _ | .applyTemplate _ | .paste _ _ | .clear => True
  | _ => False

/-- The commands that let a component in only after a check. -/
def Checked : Command → Prop
  | .addRootUnrecorded _ | .addChildUnrecorded _ _ => False
  | _ => True

end Command

/-- A reply that says that nothing was changed. -/
def Reply.Declines : Reply → Prop
  | .did b | .accepted b => b = false
  | .named id => id = none
  | .refused _ | .unreadable _ => True
  | .done | .added _ | .addedAll _ => False

instance (r : Reply) : Decidable r.Declines :=
  match r with
  | .did b => inferInstanceAs (Decidable (b = false))
  | .accepted b => inferInstanceAs (Decidable (b = false))
  | .named i => inferInstanceAs (Decidable (i = none))
  | .refused _ => isTrue trivial
  | .unreadable _ => isTrue trivial
  | .done => isFalse id
  | .added _ => isFalse id
  | .addedAll _ => isFalse id

namespace Session

/-- A command says that it changes nothing.  The one without words for it is a clearing, which
changes nothing exactly if there is nothing. -/
def Declines (s : Session) (cmd : Command) : Prop :=
  (s.run cmd).1.Declines ∨ cmd = .clear ∧ s.document.components = []

/-- The tree that a command asks to put in the place of another, and the identity for both. -/
def exchange? (s : Session) : Command → Option (Id × Component Id)
  | .replace id c => if s.document.components.contains id then some (id, c) else none
  | .update id change => (s.document.components.get? id).map fun c => (id, change c)
  | .patch id fields => (s.document.components.get? id).bind fun c =>
    (Patch.apply fields c s.minted).toOption.map fun new => (id, new.1)
  | _ => none

/-- The tree that a command asks to put in beside the others. -/
def arrival? (s : Session) : Command → Option (Component Id)
  | .addRoot c | .addChild _ c => some c
  | .paste payload _ => (Document.readCopy payload s.minted).toOption.map (·.1)
  | _ => none

/-- The ways in which a command makes a new present state. -/
inductive Edit (s : Session) (cmd : Command) : Forest Id → Option Id → Prop
  /-- A tree that passes the checks comes in. -/
  | come {c : Component Id} {f : Forest Id} :
      s.arrival? cmd = some c → s.document.checkIncoming c = .ok () → Comprises f [c] s.document.components →
      Edit s cmd f s.document.selected
  /-- A tree that passes the checks takes the place and the identity of another. -/
  | exchange {id : Id} {c old : Component Id} {rest f : Forest Id} :
      s.exchange? cmd = some (id, c) →
      s.document.checkIncoming (c.withId id) (some id) = .ok () →
      s.document.components.remove? id = some (old, rest) → Comprises f [c.withId id] rest →
      Edit s cmd f s.document.selected
  /-- A tree is removed. -/
  | leave {id : Id} {removed : Component Id} {rest : Forest Id} :
      cmd = .remove id → s.document.components.remove? id = some (removed, rest) →
      Edit s cmd rest (s.document.selectedAfter removed)
  /-- Nothing comes and nothing leaves. -/
  | rearrange {f : Forest Id} :
      Comprises f [] s.document.components → Edit s cmd f s.document.selected
  /-- A copy of a tree comes in. -/
  | copy {id : Id} {source : Component Id} {f : Forest Id} :
      s.document.components.get? id = some source →
      (s.run cmd).2.minted = (source.remint s.minted).2 →
      Comprises f [(source.remint s.minted).1] s.document.components →
      Edit s cmd f s.document.selected
  /-- A copy of a template comes in. -/
  | template {t : Template} :
      cmd = .applyTemplate t →
      Edit s cmd (s.document.components ++ (t.instantiate s.minted).1) s.document.selected
  /-- Everything is removed. -/
  | clear : Edit s cmd [] none
  /-- A component is selected, or none. -/
  | select {id : Option Id} :
      (∀ i, id = some i → i ∈ s.document.components.ids) → Edit s cmd s.document.components id
  /-- A tree comes in without a check. -/
  | unchecked {c : Component Id} {f : Forest Id} :
      ¬ cmd.Checked → Comprises f [c] s.document.components → Edit s cmd f s.document.selected

/-- A command declines and leaves the document alone, or it records the old state and makes an
edit. -/
def Outcome (s : Session) (cmd : Command) : Prop :=
  (s.Declines cmd ∧ (s.run cmd).2.document = s.document) ∨
    (¬ s.Declines cmd ∧ ∃ f selected, s.Edit cmd f selected ∧
      s.document.Recorded (s.run cmd).2.document f selected)

section Outcome

variable {s t : Session} {cmd : Command}

/-- The outcome of a change that may not happen. -/
theorem outcome_changed {d : Option Document} (hrun : s.run cmd = s.changed d)
    (hclear : cmd ≠ .clear)
    (hedit : ∀ e, d = some e → ∃ f selected, s.Edit cmd f selected ∧
      s.document.Recorded e f selected) : s.Outcome cmd := by
  cases d with
  | none =>
      left
      simp [Declines, hrun, changed, Reply.Declines]
  | some e =>
      right
      obtain ⟨f, selected, hf, he⟩ := hedit e rfl
      refine ⟨by simp [Declines, hrun, changed, Reply.Declines, hclear], f, selected, hf, ?_⟩
      rw [hrun]
      exact he

/-- The outcome of a checked change that may not happen. -/
theorem outcome_checked {r : Except Offence (Option Document)} (hrun : s.run cmd = t.checked r)
    (ht : t.document = s.document) (hclear : cmd ≠ .clear)
    (hedit : ∀ e, r = .ok (some e) → ∃ f selected, s.Edit cmd f selected ∧
      s.document.Recorded e f selected) : s.Outcome cmd := by
  match r with
  | .error e =>
      left
      simp [Declines, hrun, checked, Reply.Declines, ht]
  | .ok none =>
      left
      simp [Declines, hrun, checked, Reply.Declines, ht]
  | .ok (some e) =>
      right
      obtain ⟨f, selected, hf, he⟩ := hedit e rfl
      refine ⟨by simp [Declines, hrun, checked, Reply.Declines, hclear], f, selected, hf, ?_⟩
      rw [hrun]
      exact he

/-- A command that puts a tree in the place of another commits it. -/
theorem run_of_exchange {id : Id} {c : Component Id} (h : s.exchange? cmd = some (id, c)) :
    ∃ n description, s.run cmd =
      checked { s with minted := n } (s.document.commit id c description) := by
  cases cmd with
  | replace id c =>
      rw [exchange?] at h
      split at h
      next hid =>
        cases h
        exact ⟨s.minted, _, by rw [run, Document.replace, if_pos hid]⟩
      next => cases h
  | update id change =>
      obtain ⟨old, hget, heq⟩ := Option.map_eq_some_iff.mp h
      cases heq
      exact ⟨s.minted, _, by rw [run, Document.update, hget]⟩
  | patch id fields =>
      obtain ⟨old, hget, h⟩ := Option.bind_eq_some_iff.mp h
      cases happly : Patch.apply fields old s.minted with
      | fail issues =>
          rw [happly] at h
          cases h
      | ok new =>
          rw [happly] at h
          cases h
          exact ⟨new.2, "Update Component", by simp only [run, patch, hget, happly, Document.update]⟩
  | _ => cases h

/-- The outcome of a command that puts a tree in the place of another. -/
theorem outcome_exchange {id : Id} {c : Component Id} (h : s.exchange? cmd = some (id, c)) :
    s.Outcome cmd := by
  obtain ⟨n, description, hrun⟩ := run_of_exchange h
  have hclear : cmd ≠ .clear := by
    rintro rfl
    cases h
  refine outcome_checked hrun rfl hclear fun e he => ?_
  obtain ⟨hcheck, f, hf, hrecorded⟩ := Document.commit_eq_ok he
  obtain ⟨old, rest, hremove⟩ := Forest.exists_remove_of_replace hf
  exact ⟨f, _, .exchange h hcheck hremove (Forest.comprises_replace hremove hf), hrecorded⟩

theorem outcome_addRoot (c : Component Id) : s.Outcome (.addRoot c) := by
  cases hadd : s.document.addRoot c with
  | error e =>
      left
      simp [Declines, run, hadd, incoming, Reply.Declines]
  | ok d =>
      right
      obtain ⟨hcheck, hrecorded⟩ := Document.addRoot_eq_ok hadd
      refine ⟨by simp [Declines, run, hadd, incoming, Reply.Declines], _, _,
        .come rfl hcheck (Comprises.append _ _), ?_⟩
      rw [run, hadd]
      exact hrecorded

theorem outcome_duplicate (id : Id) : s.Outcome (.duplicate id) := by
  cases hdup : s.document.duplicate? id s.minted with
  | none =>
      left
      simp [Declines, run, hdup, Reply.Declines]
  | some copied =>
      right
      obtain ⟨copy, e, n⟩ := copied
      obtain ⟨source, f, hsource, hn, hrecorded, hf⟩ := Document.duplicate_eq_some hdup
      have hrun : s.run (.duplicate id) = (.named (some copy), ⟨e, n⟩) := by rw [run, hdup]
      refine ⟨by simp [Declines, hrun, Reply.Declines], f, _, ?_, by rw [hrun]; exact hrecorded⟩
      rcases hf with hf | rfl
      · exact .copy hsource (by rw [hrun, hn]) hf
      · exact .rearrange (Comprises.of_perm (List.Perm.refl _))

theorem outcome_paste (payload : String) (parent : Option Id) :
    s.Outcome (.paste payload parent) := by
  match hpaste : s.document.paste payload parent s.minted with
  | .error e =>
      left
      simp [Declines, run, hpaste, Reply.Declines]
  | .ok (.error e, n) =>
      left
      simp [Declines, run, hpaste, Reply.Declines]
  | .ok (.ok (copy, d), n) =>
      right
      obtain ⟨c, k, f, hcopy, hcheck, hf, hrecorded⟩ := Document.paste_eq_ok hpaste
      have harrival : s.arrival? (.paste payload parent) = some c := by
        rw [arrival?, hcopy]
        rfl
      refine ⟨by simp [Declines, run, hpaste, Reply.Declines], f, _,
        .come harrival hcheck hf, ?_⟩
      rw [run, hpaste]
      exact hrecorded

/-- The reply to a clearing is the same in all cases, only the document tells them apart. -/
theorem outcome_clear : s.Outcome .clear := by
  by_cases hnil : s.document.components = []
  · left
    simp [Declines, run, hnil, Document.clear]
  · right
    exact ⟨by simp [Declines, run, Reply.Declines, hnil], _, _, .clear,
      Document.clear_recorded hnil⟩

/-- A mutation declines and leaves the document alone, or records the old state and makes an
edit. -/
theorem run_mutation (h : cmd.Mutates) : s.Outcome cmd := by
  cases cmd with
  | addRoot c => exact outcome_addRoot c
  | addChild parent c =>
      refine outcome_checked rfl rfl (by simp) fun e he => ?_
      obtain ⟨hcheck, f, hf, hrecorded⟩ := Document.addChild_eq_ok he
      exact ⟨f, _, .come rfl hcheck (Forest.comprises_addChild hf), hrecorded⟩
  | remove id =>
      refine outcome_changed rfl (by simp) fun e he => ?_
      obtain ⟨removed, f, hf, hrecorded⟩ := Document.remove_eq_some he
      exact ⟨f, _, .leave rfl hf, hrecorded⟩
  | replace id c =>
      by_cases hid : s.document.components.contains id = true
      · exact outcome_exchange (by rw [exchange?, if_pos hid])
      · left
        simp [Declines, run, Document.replace, hid, checked, Reply.Declines]
  | update id change =>
      cases hget : s.document.components.get? id with
      | none =>
          left
          simp [Declines, run, Document.update, hget, checked, Reply.Declines]
      | some c => exact outcome_exchange (by rw [exchange?, hget]; rfl)
  | patch id fields =>
      cases hget : s.document.components.get? id with
      | none =>
          left
          simp [Declines, run, patch, hget, Reply.Declines]
      | some c =>
          cases happly : Patch.apply fields c s.minted with
          | fail issues =>
              left
              simp [Declines, run, patch, hget, happly, Reply.Declines]
          | ok new => exact outcome_exchange (by rw [exchange?, hget, Option.bind_some, happly]; rfl)
  | move id offset =>
      refine outcome_changed rfl (by simp) fun e he => ?_
      obtain ⟨f, hf, hrecorded⟩ := Document.move_eq_some he
      exact ⟨f, _, .rearrange (Forest.comprises_move hf), hrecorded⟩
  | moveTo id parent index =>
      refine outcome_changed rfl (by simp) fun e he => ?_
      obtain ⟨f, hf, hrecorded⟩ := Document.moveTo_eq_some he
      exact ⟨f, _, .rearrange (Forest.comprises_moveTo hf), hrecorded⟩
  | duplicate id => exact outcome_duplicate id
  | applyTemplate t =>
      right
      exact ⟨by simp [Declines, run, Reply.Declines], _, _, .template rfl,
        (s.document.applyTemplate_eq t s.minted).1⟩
  | paste payload parent => exact outcome_paste payload parent
  | clear => exact outcome_clear
  | _ => exact absurd h id

end Outcome

end Session

end PageDesign
