/-
# PageDesign.Proofs.Document.Assembly -- designs put together root by root

A design is checked in two ways.  A stored one is checked as a whole, with all identities in one
pass.  One that is put together is checked root by root, each for its rules first and then against
the identities that are there.  Both accept the same designs (`assembly_iff_validate`), since both
accept exactly the sound ones, and soundness of a longer design is soundness of the shorter one
and of what comes behind it, with identities apart (`Forest.sound_append_iff`).  So a design that
was put together can be stored and opened, and one that was opened can be put together.
-/
import PageDesign.Proofs.Document.Reopen
import PageDesign.Proofs.Document.UndoRedo

namespace PageDesign

namespace Document

/-- A tree passes the checks if the design with it at the end of the roots is sound. -/
theorem checkIncoming_iff_sound {d : Document} (hd : d.components.Sound) {c : Component Id} :
    d.checkIncoming c = .ok () ↔ Forest.Sound (d.components ++ [c]) := by
  rw [checkIncoming_iff, Forest.sound_append_iff]
  constructor
  · rintro ⟨hc, hfree⟩
    refine ⟨hd, hc, fun i hi hmem => ?_⟩
    -- nothing is replaced, so no identity is given free
    obtain ⟨old, hold, -⟩ := hfree i hi hmem
    cases hold
  · rintro ⟨-, hc, hapart⟩
    exact ⟨hc, fun i hi hmem => absurd hmem (hapart i hi)⟩

end Document

namespace Session

variable {s : Session}

theorem run_addRoot_ok {c : Component Id} (hs : s.document.components.Sound)
    (hc : Forest.Sound (s.document.components ++ [c])) :
    ∃ d, s.run (.addRoot c) = (.added c.id, { s with document := d }) ∧
      d.components = s.document.components ++ [c] := by
  have hcheck := (Document.checkIncoming_iff_sound hs).mpr hc
  refine ⟨{ s.document.record "Add Component" with
    components := s.document.components.addRoot c }, ?_, rfl⟩
  rw [run, Document.addRoot, hcheck]
  rfl

theorem run_addRoot_error {c : Component Id} (hs : s.document.components.Sound)
    (hc : ¬ Forest.Sound (s.document.components ++ [c])) :
    ∃ e, s.run (.addRoot c) = (.refused e, s) := by
  rw [← Document.checkIncoming_iff_sound hs] at hc
  rw [run, Document.addRoot]
  cases hcheck : s.document.checkIncoming c with
  | error e => exact ⟨e, rfl⟩
  | ok u => exact absurd hcheck hc

/-- Trees come in one after the other exactly if the design with all of them is sound. -/
theorem replies_addRoot_iff (hs : s.document.components.Sound) (rs : Forest Id) :
    s.replies (rs.map .addRoot) = rs.map (fun c => .added c.id) ↔
      Forest.Sound (s.document.components ++ rs) := by
  induction rs generalizing s with
  | nil => simpa [replies] using hs
  | cons c rs ih =>
      have hsplit : s.document.components ++ c :: rs = s.document.components ++ [c] ++ rs := by
        simp
      rw [hsplit, List.map_cons, List.map_cons, replies]
      by_cases hc : Forest.Sound (s.document.components ++ [c])
      · obtain ⟨d, hrun, hd⟩ := run_addRoot_ok hs hc
        have hrest := ih (s := { s with document := d }) (by rwa [hd])
        rw [hrun, List.cons.injEq, and_iff_right rfl, hrest, hd]
      · -- the first tree is refused, and no longer design is sound
        obtain ⟨e, hrun⟩ := run_addRoot_error hs hc
        rw [hrun]
        refine iff_of_false (by simp) fun hsound => ?_
        exact hc (Forest.sound_append_iff.mp hsound).1

theorem components_runAll_addRoot {rs : Forest Id}
    (h : Forest.Sound (s.document.components ++ rs)) :
    (s.runAll (rs.map .addRoot)).document.components = s.document.components ++ rs := by
  induction rs generalizing s with
  | nil => simp [runAll]
  | cons c rs ih =>
      have hsplit : s.document.components ++ c :: rs = s.document.components ++ [c] ++ rs := by
        simp
      rw [hsplit] at h ⊢
      have hc := (Forest.sound_append_iff.mp h).1
      obtain ⟨d, hrun, hd⟩ := run_addRoot_ok (Forest.sound_append_iff.mp hc).1 hc
      have hrest := ih (s := { s with document := d }) (by rwa [hd])
      rw [hd] at hrest
      rw [List.map_cons, runAll, List.foldl_cons, hrun]
      exact hrest

/-- A design passes its check exactly if its roots come in one by one, in order, into a document
without components, and then they are the design.  If its numbers are within their bounds, the
outcome can be stored and opened; and every design that was opened can be put together. -/
theorem assembly_iff_validate (rs : Forest Id) (capacity : Nat) (n : Minted) :
    let s : Session := ⟨.empty capacity, n⟩
    let built := (s.runAll (rs.map .addRoot)).document
    (rs.validate = .ok () ↔ s.replies (rs.map .addRoot) = rs.map fun c => .added c.id) ∧
      (rs.validate = .ok () → built.components = rs) ∧
      (rs.validate = .ok () → Requirement.inRange.Met rs →
        ∃ again, Document.ofJson built.toJson none n = .ok (again, n) ∧ again.components = rs) ∧
      ∀ v limit m k again, Document.ofJson v limit m = .ok (again, k) → again.components = rs →
        s.replies (rs.map .addRoot) = rs.map fun c => .added c.id := by
  intro s built
  have hreplies : s.replies (rs.map .addRoot) = rs.map (fun c => .added c.id) ↔ rs.Sound :=
    replies_addRoot_iff (s := s) Forest.sound_nil rs
  have hbuilt (hrs : rs.Sound) : built.components = rs := components_runAll_addRoot (s := s) hrs
  rw [Forest.validate_iff, hreplies]
  refine ⟨Iff.rfl, hbuilt, ?_, ?_⟩
  · intro hrs hrange
    have hopen := Document.ofJson_toJson (d := built) (by rwa [hbuilt hrs]) (by rwa [hbuilt hrs]) n
    exact ⟨_, hopen, hbuilt hrs⟩
  · rintro v limit m k again hopen rfl
    -- whatever was opened passed the check on the way
    obtain ⟨f, selected, _, -, hsound, -, rfl⟩ := Document.unedited_ofJson hopen
    exact hsound

/-- A card with a button in it, and a text behind it. -/
def sampleDesign : Forest Id := [sampleCard, .leaf "c" none (.text {})]

/-- The sample is put together, stored and opened. -/
theorem assembly_sample :
    sampleDesign.validate = .ok () ∧
      Session.replies ⟨.empty, 0⟩ (sampleDesign.map .addRoot) = [.added "a", .added "c"] ∧
      ∃ again, Document.ofJson
          (Session.runAll ⟨.empty, 0⟩ (sampleDesign.map .addRoot)).document.toJson none 0 =
        .ok (again, 0) ∧ again.components = sampleDesign := by
  have hvalid : sampleDesign.validate = .ok () := by decide +kernel
  have hrange : Requirement.inRange.Met sampleDesign := by
    simp [sampleDesign, sampleCard, Requirement.met_cons_iff, Requirement.met_nil,
      Requirement.Node, Requirement.inRange, Frame.InRange, Frame.Within, Component.children]
  obtain ⟨hreplies, -, hopen, -⟩ := assembly_iff_validate sampleDesign History.defaultCapacity 0
  exact ⟨hvalid, hreplies.mp hvalid, hopen hvalid hrange⟩

end Session

end PageDesign
