/-
# PageDesign.Proofs.Document.Removal -- the selection when a component is removed

A removal looks for the selected identity in the tree that it took out.  Where no identity occurs
twice, it is found there exactly if the selected component is the one that was removed or below
it (`Forest.mem_ids_iff_mem_nodes`), so the selection is given up exactly then.  The undo point was
taken before, so it has the old selection along with the tree.

The empty text is taken for no selection at all, before anything is looked for.  A component
under that identity stays selected after it has left (`removal_keeps_blank_selection`), and is
the only one that does (`remove_selection`).
-/
import PageDesign.Proofs.Document.Selection
import PageDesign.Proofs.Document.UndoRedo

namespace PageDesign

theorem Forest.mem_nodes_of_remove {ι : Type} [DecidableEq ι] {f r : Forest ι} {id : ι}
    {c : Component ι} (h : f.remove? id = some (c, r)) : c ∈ f.nodes :=
  mem_nodes_of_get (get_of_remove h)

/-! ## One removal -/

namespace Document

variable {d e : Document}

/-- The selection after a removal: the identity stays selected if it is the empty text or was not
in the tree. -/
theorem selectedAfter_of_selected {i : Id} (h : d.selected = some i) (removed : Component Id) :
    d.selectedAfter removed = if i ≠ "" ∧ i ∈ Forest.ids [removed] then none else some i := by
  by_cases hblank : i = ""
  · subst hblank
    rw [Session.selectedAfter_empty h, if_neg (by simp)]
  · have hselection : d.selection? = some i := by
      rw [selection?, h]
      simp [Option.filter, hblank]
    rw [selectedAfter, hselection, h]
    show (if Forest.contains [removed] i = true then none else some i) = _
    simp only [Forest.contains_iff, ne_eq, hblank, not_false_eq_true, true_and]

/-- A change that was recorded is taken back by the next undo, if there is room for an undo
point. -/
theorem undo_of_recorded {f : Forest Id} {selected : Option Id} (hroom : 0 < d.history.capacity)
    (h : d.Recorded e f selected) :
    ∃ u, e.undo? = some u ∧ u.components = d.components ∧ u.selected = d.selected := by
  obtain ⟨description, rfl⟩ := h
  obtain ⟨room, hcapacity⟩ := Nat.exists_eq_succ_of_ne_zero (Nat.ne_of_gt hroom)
  have hundone : (d.record description).history.undone =
      d.snapshot description :: d.history.undone.take room := by
    show (d.snapshot description :: d.history.undone).take d.history.capacity = _
    rw [hcapacity, List.take_succ_cons]
  exact ⟨_, undo_of_cons hundone, rfl, rfl⟩

end Document

/-! ## The law -/

namespace Session

/-- In a document without a repeated identity, a component that occurs is removed with the tree
below it.  A selected component outside of that tree stays selected; one inside does not, unless
its identity is the empty text.  The next undo brings back the tree and the selection. -/
theorem remove_selection {s : Session} (hdistinct : s.document.components.ids.Nodup)
    (hroom : 0 < s.document.history.capacity) {id : Id} (hid : id ∈ s.document.components.ids) :
    ∃ removed rest t, s.document.components.remove? id = some (removed, rest) ∧
      s.run (.remove id) = (.did true, t) ∧ t.document.components = rest ∧
      (s.document.selected = none → t.document.selected = none) ∧
      (∀ n ∈ s.document.components.nodes, s.document.selected = some n.id →
        (n ∉ Forest.nodes [removed] → t.document.selected = some n.id) ∧
        (n ∈ Forest.nodes [removed] →
          t.document.selected = if n.id = "" then some "" else none)) ∧
      (t.run .undo).1 = .did true ∧
      (t.run .undo).2.document.components = s.document.components ∧
      (t.run .undo).2.document.selected = s.document.selected := by
  obtain ⟨removed, rest, hremove, -⟩ := Forest.exists_remove hid
  let after : Document := { s.document.record "Remove Component" with
    components := rest, selected := s.document.selectedAfter removed }
  have hafter : s.document.remove? id = some after := by
    rw [Document.remove?, hremove]
    rfl
  have hrun : s.run (.remove id) = (.did true, { s with document := after }) := by
    rw [run, hafter]
    rfl
  obtain ⟨u, hundo, hcomponents, hselected⟩ :=
    Document.undo_of_recorded (d := s.document) (e := after) hroom ⟨_, rfl⟩
  refine ⟨removed, rest, _, hremove, hrun, rfl, ?_, ?_, ?_⟩
  · intro hnone
    show s.document.selectedAfter removed = none
    rw [Document.selectedAfter, hnone]
    exact ite_self none
  · intro n hn hsel
    have hinside :=
      Forest.mem_ids_iff_mem_nodes hdistinct (Forest.mem_nodes_of_remove hremove) hn
    have hselection := Document.selectedAfter_of_selected hsel removed
    constructor
    · intro hout
      exact hselection.trans (if_neg fun h => hout (hinside.mp h.2))
    · intro hin
      refine hselection.trans ?_
      by_cases hblank : n.id = ""
      · rw [if_neg fun h => h.1 hblank, if_pos hblank, hblank]
      · rw [if_pos ⟨hblank, hinside.mpr hin⟩, if_neg hblank]
  · rw [run, hundo]
    exact ⟨rfl, hcomponents, hselected⟩

/-- The sample's card is removed with the selected button in it, and an undo selects the button
again. -/
theorem remove_selection_sample :
    sample.document.components.ids.Nodup ∧ sample.document.selected = some "b" ∧
      ∃ t, sample.run (.remove "a") = (.did true, t) ∧ t.document.selected = none ∧
        (t.run .undo).2.document.components = sample.document.components ∧
        (t.run .undo).2.document.selected = some "b" := by
  have hdistinct : sample.document.components.ids.Nodup := by decide +kernel
  have hselected : sample.document.selected = some "b" := by decide +kernel
  obtain ⟨removed, rest, t, hremove, hrun, -, -, hselection, -, hcomponents, hback⟩ :=
    remove_selection hdistinct (by decide +kernel) (show "a" ∈ _ by decide +kernel)
  refine ⟨hdistinct, hselected, t, hrun, ?_, hcomponents, hback.trans hselected⟩
  -- the button occurs, and it leaves with the card
  obtain ⟨n, hn, hid⟩ := List.mem_map.mp
    (show "b" ∈ sample.document.components.ids by decide +kernel)
  have hremoved : ((sample.document.components.remove? "a").map fun x => Forest.ids [x.1]) =
      some ["a", "b"] := by decide +kernel
  rw [hremove, Option.map_some] at hremoved
  have hin : n.id ∈ Forest.ids [removed] := by
    rw [Option.some.inj hremoved, hid]
    decide
  rw [Forest.mem_ids_iff_mem_nodes hdistinct (Forest.mem_nodes_of_remove hremove) hn] at hin
  rw [(hselection n hn (by rw [hid, hselected])).2 hin, hid]
  decide

/-- A card is removed with a selected button in it whose identity is the empty text, and the
button stays selected. -/
theorem removal_keeps_blank_selection :
    let card : Component Id := .branch "a" none (.card {}) [.leaf "" none (.button {})]
    let s := Session.runAll ⟨.empty, 0⟩ [.addRoot card, .select (some "")]
    Arises (fun _ cmd => cmd.Checked) s ∧ s.document.components.ids = ["a", ""] ∧
      s.document.selected = some "" ∧ (s.run (.remove "a")).1 = .did true ∧
      (s.run (.remove "a")).2.document.components.ids = [] ∧
      (s.run (.remove "a")).2.document.selected = some "" := by
  intro card s
  have hempty : Document.ofForest [] none none = .ok .empty := rfl
  have hs : Arises (fun _ cmd => cmd.Checked) s := ((Arises.empty hempty).run trivial).run trivial
  have hdone : (s.document.remove? "a").isSome = true := by decide +kernel
  refine ⟨hs, by decide +kernel, by decide +kernel, ?_, by decide +kernel, by decide +kernel⟩
  exact congrArg Reply.did hdone

end Session

end PageDesign
