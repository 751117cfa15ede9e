/-
# PageDesign.Proofs.Document.Integrity -- every known state of a document is sound

Components come into a document in three ways.  A tree from outside is checked against its rules
and against the identities that are there, a copy takes its rules from its source and its
identities from the counter, and a state from the history was sound when it was recorded.  So
in every document that arises, each component obeys its rule and no identity occurs twice, now
and in every state that can be gone back or forward to (`integrity`).

The document cannot know which identities others use, so `Regular` asks that what a command
draws does not occur in the document, and that templates obey the rules.  For the identities
alone the rules of templates do not matter (`KeepsApart`, `Arises.distinct`).
-/
import PageDesign.Proofs.Document.Run

namespace PageDesign.Session

open Component (forget_remintForest ids_remintForest obeys_of_forget_eq)

variable {s : Session} {cmd : Command} {f : Forest Id} {selected : Option Id}

/-- The identities that a command draws do not occur in the document. -/
def DrawsFresh (s : Session) (cmd : Command) : Prop :=
  ∀ i ∈ Id.drawn s.minted (s.run cmd).2.minted, i ∉ s.document.components.ids

instance (s : Session) (cmd : Command) : Decidable (s.DrawsFresh cmd) :=
  inferInstanceAs (Decidable (∀ i ∈ Id.drawn _ _, _))

/-- A command that checks what comes in, uses a template that obeys the rules, if any, and draws
identities that do not occur. -/
structure Regular (s : Session) (cmd : Command) : Prop where
  checked : cmd.Checked
  template : ∀ t, cmd = .applyTemplate t → ∀ c ∈ t.components, c.validate = .ok ()
  fresh : s.DrawsFresh cmd

/-! ## Edits -/

/-- What passes the checks without a tree to replace has no identity of the document. -/
theorem disjoint_of_come {c : Component Id} (h : s.document.checkIncoming c = .ok ()) :
    ∀ i ∈ Forest.ids [c], i ∉ s.document.components.ids := by
  intro i hi hmem
  obtain ⟨old, hold, -⟩ := (Document.checkIncoming_iff.mp h).2 i hi hmem
  cases hold

/-- What passes the checks in the place of a tree has no identity of the rest. -/
theorem disjoint_of_exchange {id : Id} {c old : Component Id} {rest : Forest Id}
    (hs : s.document.components.ids.Nodup) (h : s.document.checkIncoming c (some id) = .ok ())
    (hr : s.document.components.remove? id = some (old, rest)) :
    ∀ i ∈ Forest.ids [c], i ∉ rest.ids := by
  have hsplit := Forest.comprises_remove hr
  have hget : s.document.components.get? id = some old := Forest.get_of_remove hr
  intro i hi hmem
  -- what is in the rest is in the document, so it would have to be in the old tree as well
  obtain ⟨old', hold, hi'⟩ :=
    (Document.checkIncoming_iff.mp h).2 i hi (hsplit.mem_ids.mpr (.inr hmem))
  rw [Option.bind_some, hget] at hold
  cases hold
  exact (hsplit.nodup_iff.mp hs).2.2 i hi' hmem

theorem obeys_of_validate {ι : Type} {f : Forest ι} (h : ∀ c ∈ f, c.validate = .ok ()) :
    f.Obeys := by
  induction f with
  | nil => exact Forest.obeys_nil
  | cons c cs ih =>
      obtain ⟨hc, hcs⟩ := List.forall_mem_cons.mp h
      have hone := Forest.obeys_cons_iff.mp (Component.validate_iff.mp hc)
      exact Forest.obeys_cons_iff.mpr ⟨hone.1, hone.2.1, ih hcs⟩

/-- An edit of a design without a repeated identity makes no identity come twice. -/
theorem Edit.distinct (h : s.Edit cmd f selected) (hchecked : cmd.Checked)
    (hfresh : s.DrawsFresh cmd) (hs : s.document.components.ids.Nodup) : f.ids.Nodup := by
  cases h with
  | come _ hcheck hf =>
      have hc := (Document.checkIncoming_iff.mp hcheck).1
      exact hf.nodup_iff.mpr ⟨hc.distinct, hs, disjoint_of_come hcheck⟩
  | exchange _ hcheck hr hf =>
      have hc := (Document.checkIncoming_iff.mp hcheck).1
      have hrest := ((Forest.comprises_remove hr).nodup_iff.mp hs).2.1
      exact hf.nodup_iff.mpr ⟨hc.distinct, hrest, disjoint_of_exchange hs hcheck hr⟩
  | leave _ hr => exact ((Forest.comprises_remove hr).nodup_iff.mp hs).2.1
  | rearrange hf => exact hf.nodup_iff.mpr ⟨by simp, hs, by simp⟩
  | @copy _ source _ _ hminted hf =>
      have hids := ids_remintForest [source] s.minted
      refine hf.nodup_iff.mpr ⟨hids.nodup_iff.mpr (Id.nodup_drawn _ _), hs, fun i hi => ?_⟩
      refine hfresh i ?_
      rw [hminted]
      exact hids.mem_iff.mp hi
  | @template t ht =>
      have hids := Template.ids_remintAll t.components s.minted
      refine (Forest.Comprises.append _ _).nodup_iff.mpr
        ⟨hids.nodup_iff.mpr (Id.nodup_drawn _ _), hs, fun i hi => ?_⟩
      refine hfresh i ?_
      rw [ht]
      exact hids.mem_iff.mp hi
  | clear => simp
  | select => exact hs
  | unchecked hunchecked => exact absurd hchecked hunchecked

/-- An edit of a design that obeys the rules makes one that obeys them. -/
theorem Edit.obeys (h : s.Edit cmd f selected) (hchecked : cmd.Checked)
    (htemplate : ∀ t, cmd = .applyTemplate t → Forest.Obeys t.components)
    (hs : s.document.components.Obeys) : f.Obeys := by
  cases h with
  | come _ hcheck hf =>
      exact hf.obeys_iff.mpr ⟨(Document.checkIncoming_iff.mp hcheck).1.obeys, hs⟩
  | exchange _ hcheck hr hf =>
      have hrest := ((Forest.comprises_remove hr).obeys_iff.mp hs).2
      exact hf.obeys_iff.mpr ⟨(Document.checkIncoming_iff.mp hcheck).1.obeys, hrest⟩
  | leave _ hr => exact ((Forest.comprises_remove hr).obeys_iff.mp hs).2
  | rearrange hf => exact hf.obeys_iff.mpr ⟨Forest.obeys_nil, hs⟩
  | @copy _ source _ hsource _ hf =>
      -- a copy obeys the rules because its source does
      obtain ⟨rest, hrest⟩ := Forest.exists_comprises_of_get hsource
      exact hf.obeys_iff.mpr ⟨obeys_of_forget_eq (forget_remintForest [source] s.minted).symm
        (hrest.obeys_iff.mp hs).1, hs⟩
  | @template t ht =>
      exact (Forest.Comprises.append _ _).obeys_iff.mpr
        ⟨obeys_of_forget_eq (Template.forget_remintAll t.components s.minted).symm
          (htemplate t ht), hs⟩
  | clear => exact Forest.obeys_nil
  | select => exact hs
  | unchecked hunchecked => exact absurd hchecked hunchecked

/-- An edit of a sound design makes a sound design. -/
theorem Edit.sound (h : s.Edit cmd f selected) (hcmd : s.Regular cmd)
    (hs : s.document.components.Sound) : f.Sound where
  obeys := h.obeys hcmd.checked (fun t ht => obeys_of_validate (hcmd.template t ht)) hs.obeys
  distinct := h.distinct hcmd.checked hcmd.fresh hs.distinct

/-! ## Runs -/

/-- A command that checks what comes in and draws identities that do not occur, whatever the
templates are that it uses. -/
structure KeepsApart (s : Session) (cmd : Command) : Prop where
  checked : cmd.Checked
  fresh : s.DrawsFresh cmd

/-- No identity occurs twice in a document that arises by such commands. -/
theorem Arises.distinct (hs : Arises KeepsApart s) : s.document.components.ids.Nodup := by
  have hstates : ∀ x ∈ s.document.states, x.1.ids.Nodup := by
    refine hs.states (fun f _ hf _ => hf.distinct) ?_
    intro s cmd f selected hcmd hknown hedit
    exact hedit.distinct hcmd.checked hcmd.fresh (hknown _ s.document.present_mem_states)
  exact hstates _ s.document.present_mem_states

theorem keepsApart_sample : Arises KeepsApart sample := by
  apply arises_sample
  all_goals exact ⟨trivial, by decide +kernel⟩

/-- The forests of a document, now and in the states that can be gone back or forward to. -/
theorem forests_eq (d : Document) :
    d.components :: (d.history.undone ++ d.history.redone).map (·.components) =
      d.states.map Prod.fst := by
  rw [Document.states, Document.timeline, Timeline.states_map, List.map_map]
  rfl

/-- In every document that arises the whole design passes its check, now and in every state that
can be gone back or forward to: each component at each depth obeys the rule for its kind, and
no identity occurs twice. -/
theorem integrity (hs : Arises Regular s) :
    ∀ f ∈ s.document.components ::
        (s.document.history.undone ++ s.document.history.redone).map (·.components),
      f.validate = .ok () ∧ (∀ c ∈ f.nodes, Rule.checkNode c = .ok ()) ∧ f.ids.Nodup := by
  have hstates : ∀ x ∈ s.document.states, x.1.Sound := by
    refine hs.states (fun f _ hf _ => hf) ?_
    intro s cmd f selected hcmd hknown hedit
    exact hedit.sound hcmd (hknown _ s.document.present_mem_states)
  intro f hf
  rw [forests_eq] at hf
  obtain ⟨x, hx, rfl⟩ := List.mem_map.mp hf
  have hsound := hstates x hx
  exact ⟨Forest.validate_iff.mpr hsound, hsound.obeys, hsound.distinct⟩

/-- The states of the sample, in which a copy was made, are sound. -/
theorem integrity_sample :
    Arises Regular sample ∧
      ∀ f ∈ sample.document.components ::
          (sample.document.history.undone ++ sample.document.history.redone).map (·.components),
        f.validate = .ok () ∧ (∀ c ∈ f.nodes, Rule.checkNode c = .ok ()) ∧ f.ids.Nodup := by
  have hsample : Arises Regular sample := by
    apply arises_sample
    all_goals exact ⟨trivial, by simp, by decide +kernel⟩
  exact ⟨hsample, integrity hsample⟩

end PageDesign.Session
