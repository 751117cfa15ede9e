/-
# PageDesign.Proofs.Document.Beside -- a copy stands next to its source

A copy is put in by the way to its source: the last step but one names the parent, and the last
step tells the position.  The document does not ask whether that worked.  Where no identity
occurs twice it always does (`duplicate_eq`), at every depth and among the roots, so the copy
stands right behind its source and everything else is as it was (`duplicate_beside`).
-/
import PageDesign.Proofs.Document.Integrity
import PageDesign.Proofs.Forest.Trail

namespace PageDesign

open Forest (Exchanged)

namespace Component

variable {ι κ : Type}

theorem kind_map (g : ι → κ) (c : Component ι) : (c.map g).kind = c.kind := by
  cases c <;> rfl

theorem displayName_map (g : ι → κ) (c : Component ι) : (c.map g).displayName = c.displayName := by
  cases c <;> rfl

/-- A copy under other identities is passed on a way like its source. -/
theorem crumb_of_forget_eq {c n : Component ι} (h : forget [c] = forget [n]) (i : Nat) :
    Crumb.ofComponent c i = { Crumb.ofComponent n i with id := c.id } := by
  have hmap : c.map (fun _ => ()) = n.map fun _ => () := (List.cons.inj h).1
  have hkind : c.kind = n.kind := by
    rw [← kind_map fun _ => (), hmap, kind_map]
  have hname : c.displayName = n.displayName := by
    rw [← displayName_map fun _ => (), hmap, displayName_map]
  rw [Crumb.ofComponent, hkind, hname]
  rfl

end Component

namespace Document

/-- A copy of what does not occur is not made. -/
theorem duplicate_of_notMem {d : Document} {id : Id} (h : id ∉ d.components.ids) (m : Minted) :
    d.duplicate? id m = none := by
  have hget : d.components.get? id = none := by
    rw [← Option.not_isSome_iff_eq_none, Forest.get_isSome_iff]
    exact h
  rw [duplicate?, hget]
  rfl

/-- Where no identity occurs twice, a copy finds its place by the way to its source. -/
theorem duplicate_eq {d : Document} (hd : d.components.ids.Nodup) {id : Id} {a : Address}
    {n : Component Id} (hn : d.components.places.find? (·.2.id = id) = some (a, n)) (m : Minted) :
    let c := (n.remint m).1
    ∃ steps g e, d.duplicate? id m = some (c.id, e, (n.remint m).2) ∧ e.components = g ∧
      Forest.Comprises g [c] d.components ∧ Exchanged n [n, c] a d.components g ∧
      d.components.crumbs? id = some (steps ++ [Crumb.ofComponent n a.index]) ∧
      (g.ids.Nodup → g.places.find? (·.2.id = c.id) = some (⟨a.owner, a.index + 1⟩, c) ∧
        g.crumbs? c.id = some (steps ++ [Crumb.ofComponent c (a.index + 1)])) := by
  intro c
  have hget := (Forest.means_of_find hn).get
  obtain ⟨-, hplace, rfl⟩ := Forest.locate_of_find_places hn
  obtain ⟨steps, g, hcrumbs, hinsert, hexchanged, hfound⟩ :=
    Forest.exists_insertBehind hd hplace c
  refine ⟨steps, g, { d.record "Duplicate Component" with components := g }, ?_, rfl,
    Forest.comprises_insertChildAt hinsert, hexchanged, hcrumbs, hfound⟩
  simp only [duplicate?, hget, hcrumbs, Option.bind_eq_bind, Option.bind_some,
    List.getLast?_concat, List.dropLast_concat]
  rw [show (Crumb.ofComponent n a.index).index = a.index from rfl, hinsert]
  rfl

end Document

namespace Session

/-- In a session that arises by commands that keep the identities apart, a copy of a component
under fresh identities comes in right behind it, among the same siblings, and nothing else
changes.  The way to the copy is the way to the component, but for the identity and the position
of the last step.  What does not occur is not copied, and nothing changes. -/
theorem duplicate_beside {s : Session} (hs : Arises KeepsApart s) (id : Id) :
    (id ∉ s.document.components.ids → s.run (.duplicate id) = (.named none, s)) ∧
    (id ∈ s.document.components.ids → s.DrawsFresh (.duplicate id) →
      ∃ a n c t steps last, s.document.components.Means id a n ∧
        s.run (.duplicate id) = (.named (some c.id), t) ∧
        Component.forget [c] = Component.forget [n] ∧
        (Forest.ids [c]).Perm (Id.drawn s.minted t.minted) ∧
        Exchanged n [n, c] a s.document.components t.document.components ∧
        t.document.components.Means c.id ⟨a.owner, a.index + 1⟩ c ∧
        s.document.components.crumbs? id = some (steps ++ [last]) ∧
        t.document.components.crumbs? c.id =
          some (steps ++ [{ last with id := c.id, index := last.index + 1 }])) := by
  constructor
  · intro hid
    rw [run, Document.duplicate_of_notMem hid]
  · intro hid hfresh
    have hdistinct := hs.distinct
    obtain ⟨a, n, ha, hplace, -⟩ := Forest.exists_locate hid
    have hn := Forest.find_places_of_locate ha hplace
    obtain ⟨steps, g, e, hdup, rfl, hcomprises, hexchanged, hcrumbs, hfound⟩ :=
      Document.duplicate_eq hdistinct hn s.minted
    have hrun : s.run (.duplicate id) =
        (.named (some (n.remint s.minted).1.id), ⟨e, (n.remint s.minted).2⟩) := by
      rw [run, hdup]
    have hforget := Component.forget_remintForest [n] s.minted
    have hids := Component.ids_remintForest [n] s.minted
    rw [Component.remintForest_singleton] at hforget hids
    -- what was drawn is new, so still no identity occurs twice
    have hafter : e.components.ids.Nodup := by
      refine hcomprises.nodup_iff.mpr
        ⟨hids.nodup_iff.mpr (Id.nodup_drawn _ _), hdistinct, fun i hi => hfresh i ?_⟩
      rw [hrun]
      exact hids.mem_iff.mp hi
    obtain ⟨hplaced, hway⟩ := hfound hafter
    refine ⟨a, n, (n.remint s.minted).1, ⟨e, (n.remint s.minted).2⟩, steps,
      Crumb.ofComponent n a.index, Forest.means_of_find hn, hrun, hforget, hids, hexchanged,
      Forest.means_of_find hplaced, hcrumbs, ?_⟩
    rw [hway, Component.crumb_of_forget_eq hforget]
    rfl

/-- In the sample the button in the card is copied, and the copy stands behind it in the card. -/
theorem duplicate_beside_sample :
    Arises KeepsApart sample ∧ "b" ∈ sample.document.components.ids ∧
      sample.DrawsFresh (.duplicate "b") ∧
      ∃ (a : Address) (n c : Component Id) (t : Session) (steps : List (Crumb Id))
        (last : Crumb Id),
        sample.run (.duplicate "b") = (.named (some c.id), t) ∧
        Exchanged n [n, c] a sample.document.components t.document.components ∧
        sample.document.components.crumbs? "b" = some (steps ++ [last]) ∧
        t.document.components.crumbs? c.id =
          some (steps ++ [{ last with id := c.id, index := last.index + 1 }]) := by
  have hid : "b" ∈ sample.document.components.ids := by decide +kernel
  have hfresh : sample.DrawsFresh (.duplicate "b") := by decide +kernel
  obtain ⟨a, n, c, t, steps, last, -, hrun, -, -, hexchanged, -, hcrumbs, hway⟩ :=
    (duplicate_beside keepsApart_sample "b").2 hid hfresh
  exact ⟨keepsApart_sample, hid, hfresh, a, n, c, t, steps, last, hrun, hexchanged, hcrumbs, hway⟩

end Session

end PageDesign
