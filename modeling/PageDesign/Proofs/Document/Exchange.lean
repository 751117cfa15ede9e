/-
# PageDesign.Proofs.Document.Exchange -- which trees may take the place of another

A tree that is to take the place of another is checked against the identities of the document,
less those of the old tree.  Where no identity occurs twice, these are the identities outside of
the old tree (`checkIncoming_exchange_iff`).  So the new tree may have the old identities in any
order, and the identity that it takes over only at its root, but none from elsewhere in the
document.

A replacement and an update pass through the same check and make the same change; they differ in
the words of the undo point alone (`commit_words`).
-/
import PageDesign.Proofs.Document.Integrity
import PageDesign.Proofs.Forest.Relocate

namespace PageDesign

open Forest (Exchanged)

/-- A tree may stand in a document with some other trees: its components obey their rules, and its
identities are distinct and do not occur in the others. -/
structure FitsBeside (c : Component Id) (rest : Forest Id) : Prop where
  obeys : ∀ d ∈ Forest.nodes [c], Rule.checkNode d = .ok ()
  distinct : (Forest.ids [c]).Nodup
  apart : ∀ i ∈ Forest.ids [c], i ∉ rest.ids

/-- Where no identity occurs twice, a tree comes to stand where another stood, and is found
there. -/
theorem Forest.replaceAt_means {f : Forest Id} {id : Id} {a : Address} {c old : Component Id}
    (hold : f.Holds a old) (hid : c.id = id) (hf : (f.replaceAt a c).ids.Nodup) :
    (f.replaceAt a c).Means id a c := by
  have hplace : (f.replaceAt a c).Holds a c := by
    rw [hold.replaceAt_eq]
    exact hold.holds_exchangeAt c
  rw [← hid]
  exact means_of_find (hplace.find_places hf)

/-- The states that are known after a change was recorded do not show its words. -/
theorem Document.timeline_of_recorded {d e : Document} {f : Forest Id} {selected : Option Id}
    (h : d.Recorded e f selected) :
    e.timeline = ⟨((d.components, d.selected) :: d.timeline.past).take d.history.capacity,
      (f, selected), []⟩ := by
  obtain ⟨description, rfl⟩ := h
  show Timeline.mk (((d.snapshot description :: d.history.undone).take
    d.history.capacity).map Snapshot.state) _ _ = _
  rw [List.map_take]
  rfl

namespace Session

variable {s : Session} {id : Id} {c old : Component Id} {rest : Forest Id}

/-! ## The check -/

/-- A tree passes the check in the place of another exactly if it fits beside the rest. -/
theorem checkIncoming_exchange_iff (hs : s.document.components.ids.Nodup)
    (hr : s.document.components.remove? id = some (old, rest)) :
    s.document.checkIncoming c (some id) = .ok () ↔ FitsBeside c rest := by
  constructor
  · intro h
    have hsound := (Document.checkIncoming_iff.mp h).1
    exact ⟨hsound.obeys, hsound.distinct, disjoint_of_exchange hs h hr⟩
  · rintro ⟨hobeys, hdistinct, hapart⟩
    refine Document.checkIncoming_iff.mpr ⟨⟨hobeys, hdistinct⟩, fun i hi hmem => ?_⟩
    -- what occurs in the document and not in the rest occurs in the old tree
    refine ⟨old, Forest.get_of_remove hr, ?_⟩
    exact ((Forest.comprises_remove hr).mem_ids.mp hmem).resolve_right (hapart i hi)

/-! ## The change -/

/-- The document after a tree has taken the place of another. -/
def exchanged (s : Session) (a : Address) (c : Component Id) (description : String) : Session :=
  { s with document := { s.document.record description with
      components := s.document.components.replaceAt a c } }

theorem checked_commit_ok {a : Address} (ha : s.document.components.locate? id = some a)
    (h : s.document.checkIncoming (c.withId id) (some id) = .ok ()) (description : String) :
    s.checked (s.document.commit id c description) =
      (.accepted true, s.exchanged a (c.withId id) description) := by
  have hreplace : s.document.components.replace? id (c.withId id) =
      some (s.document.components.replaceAt a (c.withId id)) := by
    rw [Forest.replace?, ha]
    rfl
  have hcommit : s.document.commit id c description = .ok (some
      { s.document.record description with
        components := s.document.components.replaceAt a (c.withId id) }) := by
    rw [Document.commit, check_bind_eq_ok]
    exact ⟨h, by rw [hreplace]; rfl⟩
  rw [hcommit]
  rfl

theorem checked_commit_error {e : Offence}
    (h : s.document.checkIncoming (c.withId id) (some id) = .error e) (description : String) :
    s.checked (s.document.commit id c description) = (.refused e, s) := by
  have hcommit : s.document.commit id c description = .error e := by
    rw [Document.commit, h]
    rfl
  rw [hcommit]
  rfl

/-- The words for a change have no say in whether it is made, nor in what becomes of the
components, the selection and the recorded states. -/
theorem commit_words {a : Address} (ha : s.document.components.locate? id = some a)
    (first second : String) :
    (s.checked (s.document.commit id c first)).1 =
        (s.checked (s.document.commit id c second)).1 ∧
      (s.checked (s.document.commit id c first)).2.document.timeline =
        (s.checked (s.document.commit id c second)).2.document.timeline := by
  cases h : s.document.checkIncoming (c.withId id) (some id) with
  | error e =>
      rw [checked_commit_error h, checked_commit_error h]
      exact ⟨rfl, rfl⟩
  | ok u =>
      rw [checked_commit_ok ha h, checked_commit_ok ha h]
      have htimeline (words : String) : (s.exchanged a (c.withId id) words).document.timeline = _ :=
        Document.timeline_of_recorded ⟨words, rfl⟩
      exact ⟨rfl, (htimeline first).trans (htimeline second).symm⟩

/-! ## The law -/

/-- In a session that arises by commands that keep the identities apart, a tree is accepted in the
place of a component that occurs exactly if, under its identity, it fits beside what is outside
of the old tree.  Then it stands where that stood, with everything outside as it was, and it is
found under the identity; otherwise it is refused and nothing changes.  An update does the same
as a replacement by what it makes of the component. -/
theorem replace_accepts (hs : Arises KeepsApart s) (hid : id ∈ s.document.components.ids) :
    ∃ a old rest, s.document.components.Means id a old ∧
      s.document.components.remove? id = some (old, rest) ∧
      Exchanged old [] a s.document.components rest ∧
      ∀ c,
        (FitsBeside (c.withId id) rest → ∃ t, s.run (.replace id c) = (.accepted true, t) ∧
          Exchanged old [c.withId id] a s.document.components t.document.components ∧
          t.document.components.Means id a (c.withId id)) ∧
        (¬ FitsBeside (c.withId id) rest → ∃ e, s.run (.replace id c) = (.refused e, s)) ∧
        ∀ change, change old = c →
          (s.run (.update id change)).1 = (s.run (.replace id c)).1 ∧
          (s.run (.update id change)).2.document.components =
            (s.run (.replace id c)).2.document.components ∧
          (s.run (.update id change)).2.document.timeline =
            (s.run (.replace id c)).2.document.timeline := by
  have hdistinct := hs.distinct
  obtain ⟨a, old, ha, hplace, -⟩ := Forest.exists_locate hid
  have hmeans := Forest.means_of_find (Forest.find_places_of_locate ha hplace)
  obtain ⟨rest, hremove, houtside⟩ := hmeans.remove
  refine ⟨a, old, rest, hmeans, hremove, houtside, fun c => ?_⟩
  have hreplace : s.run (.replace id c) =
      s.checked (s.document.commit id c "Replace Component") := by
    rw [run, Document.replace, if_pos hmeans.contains]
  refine ⟨fun hfits => ?_, fun hunfit => ?_, ?_⟩
  · have hcheck := (checkIncoming_exchange_iff hdistinct hremove).mpr hfits
    rw [hreplace, checked_commit_ok ha hcheck]
    -- the new identities are apart from the rest, so still no identity occurs twice
    obtain ⟨g, hg⟩ := Forest.exists_replace_of_remove hremove (c.withId id)
    have hrest := ((Forest.comprises_remove hremove).nodup_iff.mp hdistinct).2.1
    have hafter : g.ids.Nodup := (Forest.comprises_replace hremove hg).nodup_iff.mpr
      ⟨hfits.distinct, hrest, hfits.apart⟩
    rw [Forest.replace?, ha] at hg
    cases hg
    exact ⟨_, rfl, hplace.exchanged_replaceAt _,
      Forest.replaceAt_means hplace (Component.id_withId id c) hafter⟩
  · rw [← checkIncoming_exchange_iff hdistinct hremove] at hunfit
    cases h : s.document.checkIncoming (c.withId id) (some id) with
    | error e => exact ⟨e, by rw [hreplace, checked_commit_error h]⟩
    | ok u => exact absurd h hunfit
  · rintro change rfl
    have hupdate : s.run (.update id change) =
        s.checked (s.document.commit id (change old) "Update Component") := by
      rw [run, Document.update, hmeans.get]
    obtain ⟨hreply, htimeline⟩ := commit_words (c := change old) ha "Update Component"
      "Replace Component"
    rw [hreplace, hupdate]
    exact ⟨hreply, congrArg (fun t => t.present.1) htimeline, htimeline⟩

/-- In the sample a card with a text comes in for the button, and it keeps the button's identity;
a card whose text takes the identity of the card around it does not. -/
theorem replace_accepts_sample :
    let fitting : Component Id := .branch "z" none (.card {}) [.leaf "c" none (.text {})]
    let stealing : Component Id := .branch "z" none (.card {}) [.leaf "a" none (.text {})]
    Arises KeepsApart sample ∧ "b" ∈ sample.document.components.ids ∧
      (∃ t, sample.run (.replace "b" fitting) = (.accepted true, t) ∧
        t.document.components.get? "b" = some (fitting.withId "b") ∧
        (sample.run (.update "b" fun _ => fitting)).1 = .accepted true) ∧
      ∃ e, sample.run (.replace "b" stealing) = (.refused e, sample) := by
  intro fitting stealing
  have hid : "b" ∈ sample.document.components.ids := by decide +kernel
  obtain ⟨a, old, rest, -, hremove, -, hlaw⟩ := replace_accepts keepsApart_sample hid
  have hrest : (sample.document.components.remove? "b").map (fun x => Forest.ids x.2) =
      some ["a"] := by decide +kernel
  rw [hremove, Option.map_some] at hrest
  have houtside : rest.ids = ["a"] := Option.some.inj hrest
  have hfits : FitsBeside (fitting.withId "b") rest := by
    refine ⟨by decide +kernel, by decide +kernel, ?_⟩
    rw [houtside]
    decide +kernel
  have hsteals : ¬ FitsBeside (stealing.withId "b") rest := by
    intro h
    refine h.apart "a" (by decide +kernel) ?_
    rw [houtside]
    decide
  obtain ⟨t, hrun, -, hmeans⟩ := (hlaw fitting).1 hfits
  obtain ⟨hreply, -⟩ := (hlaw fitting).2.2 (fun _ => fitting) rfl
  refine ⟨keepsApart_sample, hid, ⟨t, hrun, hmeans.get, ?_⟩, (hlaw stealing).2.1 hsteals⟩
  rw [hreply, hrun]

end Session

end PageDesign
