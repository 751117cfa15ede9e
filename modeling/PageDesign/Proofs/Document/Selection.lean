/-
# PageDesign.Proofs.Document.Selection -- when the selected component is there

Most commands keep the selected component in the design or give the selection up.  Two do not.
A tree that takes the place of another is put in without a look at the selection, which may
have been inside the old tree.  And a removal takes the empty text for no selection at all, so a
selected component under that identity is removed and stays selected.

`Strands` says exactly when this happens.  As long as it has not happened, the selected identity
occurs, and a command keeps it so exactly if it does not strand it (`selection_present_iff`).
-/
import PageDesign.Proofs.Document.Run

namespace PageDesign

/-- The selected identity, if there is one, occurs. -/
def SelectionPresent (f : Forest Id) (selected : Option Id) : Prop :=
  ∀ i, selected = some i → i ∈ f.ids

instance (f : Forest Id) (selected : Option Id) : Decidable (SelectionPresent f selected) :=
  inferInstanceAs (Decidable (∀ i ∈ selected, i ∈ f.ids))

namespace Session

variable {s : Session} {cmd : Command} {f : Forest Id} {selected : Option Id}

/-- A command takes the selected component out of the design and leaves it selected. -/
inductive Strands (s : Session) : Command → Prop
  /-- The selected component has the empty text for its identity and is removed. -/
  | leave {id : Id} {removed : Component Id} {rest : Forest Id} :
      s.document.selected = some "" →
      s.document.components.remove? id = some (removed, rest) → "" ∉ rest.ids →
      Strands s (.remove id)
  /-- The selected component is in a tree that another takes the place of, and not in that. -/
  | exchange {cmd : Command} {i id : Id} {c old : Component Id} {rest : Forest Id} :
      s.document.selected = some i → s.exchange? cmd = some (id, c) →
      s.document.checkIncoming (c.withId id) (some id) = .ok () →
      s.document.components.remove? id = some (old, rest) →
      i ∉ rest.ids → i ∉ Forest.ids [c.withId id] → Strands s cmd

/-! ## Commands that do not strand the selection -/

/-- A removal gives up a selection inside, unless it is the empty text. -/
theorem selectedAfter_eq_some {d : Document} {removed : Component Id} {i : Id}
    (h : d.selectedAfter removed = some i) :
    d.selected = some i ∧ (i = "" ∨ i ∉ Forest.ids [removed]) := by
  rw [Document.selectedAfter] at h
  split at h
  next => cases h
  next hinside =>
    refine ⟨h, ?_⟩
    by_cases hi : i = ""
    · exact .inl hi
    · right
      intro hmem
      apply hinside
      have hselection : d.selection? = some i := by
        rw [Document.selection?, h]
        simp [Option.filter, hi]
      rw [hselection]
      exact Forest.contains_iff.mpr hmem

/-- An edit keeps the selected component in the design, unless the command strands it. -/
theorem Edit.present (h : s.Edit cmd f selected) (hcmd : ¬ s.Strands cmd)
    (hs : SelectionPresent s.document.components s.document.selected) :
    SelectionPresent f selected := by
  cases h with
  | come _ _ hf => exact fun i hi => hf.mem_ids.mpr (.inr (hs i hi))
  | exchange hexchange hcheck hr hf =>
      -- gone from the rest and from the new tree is what stranding means
      intro i hi
      rw [hf.mem_ids]
      by_contra hgone
      obtain ⟨hnew, hrest⟩ := not_or.mp hgone
      exact hcmd (.exchange hi hexchange hcheck hr hrest hnew)
  | leave heq hr =>
      subst heq
      intro i hi
      obtain ⟨hselected, hkept⟩ := selectedAfter_eq_some hi
      rcases hkept with rfl | hout
      · by_contra hrest
        exact hcmd (.leave hselected hr hrest)
      · have hmem := (Forest.comprises_remove hr).mem_ids.mp (hs i hselected)
        exact hmem.resolve_left hout
  | rearrange hf => exact fun i hi => hf.mem_ids.mpr (.inr (hs i hi))
  | copy _ _ hf => exact fun i hi => hf.mem_ids.mpr (.inr (hs i hi))
  | template _ =>
      exact fun i hi => (Forest.Comprises.append _ _).mem_ids.mpr (.inr (hs i hi))
  | clear => exact fun i hi => nomatch hi
  | select hid => exact hid
  | unchecked _ hf => exact fun i hi => hf.mem_ids.mpr (.inr (hs i hi))

/-! ## Commands that do -/

/-- A removal leaves the empty text selected. -/
theorem selectedAfter_empty {d : Document} (h : d.selected = some "")
    (removed : Component Id) : d.selectedAfter removed = some "" := by
  have hselection : d.selection? = none := by
    rw [Document.selection?, h]
    rfl
  rw [Document.selectedAfter, hselection]
  exact h

/-- A command that strands the selection leaves an identity selected that does not occur. -/
theorem Strands.absent (h : s.Strands cmd) :
    ¬ SelectionPresent (s.run cmd).2.document.components (s.run cmd).2.document.selected := by
  cases h with
  | @leave id removed rest hselected hr hrest =>
      intro hpresent
      have hremove : s.document.remove? id = some { s.document.record "Remove Component" with
          components := rest, selected := s.document.selectedAfter removed } := by
        rw [Document.remove?, hr]
        rfl
      rw [run, hremove] at hpresent
      exact hrest (hpresent "" (selectedAfter_empty hselected removed))
  | @exchange _ i id c old rest hselected hexchange hcheck hr hrest hnew =>
      intro hpresent
      obtain ⟨n, description, hrun⟩ := run_of_exchange hexchange
      obtain ⟨g, hg⟩ := Forest.exists_replace_of_remove hr (c.withId id)
      have hcommit : s.document.commit id c description =
          .ok (some { s.document.record description with components := g }) := by
        rw [Document.commit, check_bind_eq_ok]
        exact ⟨hcheck, by rw [hg]; rfl⟩
      rw [hrun, hcommit] at hpresent
      rcases (Forest.comprises_replace hr hg).mem_ids.mp (hpresent i hselected) with h | h
      · exact hnew h
      · exact hrest h

/-! ## Runs -/

/-- In every session that arises by commands that do not strand the selection, the selected
identity occurs, and a further command keeps it so exactly if it does not strand it either. -/
theorem selection_present_iff (hs : Arises (fun s cmd => ¬ s.Strands cmd) s) :
    SelectionPresent s.document.components s.document.selected ∧
      ∀ cmd, SelectionPresent (s.run cmd).2.document.components (s.run cmd).2.document.selected ↔
        ¬ s.Strands cmd := by
  -- an undo may bring back any recorded state, so the selection has to occur in all of them
  have hstates {t : Session} (ht : Arises (fun s cmd => ¬ s.Strands cmd) t) :
      SelectionPresent t.document.components t.document.selected := by
    refine ht.states (Q := fun x => SelectionPresent x.1 x.2) (fun f selected _ h => h) ?_ _
      t.document.present_mem_states
    intro s cmd f selected hcmd hknown hedit
    exact hedit.present hcmd (hknown _ s.document.present_mem_states)
  refine ⟨hstates hs, fun cmd => ⟨?_, ?_⟩⟩
  · intro hpresent hstrands
    exact hstrands.absent hpresent
  · intro hcmd
    exact hstates (hs.run hcmd)

/-- In the sample a button is selected, and every command keeps it unless it strands it. -/
theorem selection_present_sample :
    Arises (fun s cmd => ¬ s.Strands cmd) sample ∧ sample.document.selected = some "b" ∧
      SelectionPresent sample.document.components sample.document.selected ∧
      ∀ cmd, SelectionPresent (sample.run cmd).2.document.components
        (sample.run cmd).2.document.selected ↔ ¬ sample.Strands cmd := by
  have hsample : Arises (fun s cmd => ¬ s.Strands cmd) sample := by
    apply arises_sample
    all_goals
      intro h
      cases h with
      | exchange _ hexchange => cases hexchange
  exact ⟨hsample, by decide +kernel, selection_present_iff hsample⟩

/-- The selection is lost when a text takes the place of the sample's card, and when a selected
button under the empty text is removed. -/
theorem selection_absent :
    (∃ s, s = (sample.run (.replace "a" (.leaf "c" none (.text {})))).2 ∧
      Arises (fun _ cmd => cmd.Checked) s ∧
      ¬ SelectionPresent s.document.components s.document.selected) ∧
    (∃ s, s = Session.runAll ⟨.empty, 0⟩
        [.addRoot (.leaf "" none (.button {})), .select (some ""), .remove ""] ∧
      Arises (fun _ cmd => cmd.Checked) s ∧
      ¬ SelectionPresent s.document.components s.document.selected) := by
  have hempty : Document.ofForest [] none none = .ok .empty := rfl
  constructor
  · refine ⟨_, rfl, ?_, by decide +kernel⟩
    have hsample : Arises (fun _ cmd => cmd.Checked) sample :=
      arises_sample trivial trivial trivial trivial
    exact hsample.run trivial
  · refine ⟨_, rfl, ?_, by decide +kernel⟩
    exact (((Arises.empty hempty).run trivial).run trivial).run trivial

end Session

end PageDesign
