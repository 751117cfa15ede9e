/-
# PageDesign.Proofs.Document.Clipboard -- a copy is pasted as it was copied

A component is copied as a text and pasted from it.  The text is read back as the component that
was written, so what comes in differs from it in its identities alone (`readCopy_dump`), and
these are drawn: the component may still be there, and may even be the target.  It comes to the
end of the roots or of the children of the target, and everything else stays as it is
(`Forest.Appended`).

What is pasted is checked like anything else that comes in.  The check passes if the component
obeys the rules, which it does unless a template that breaks them was applied
(`paste_copy`, `paste_refused`).
-/
import PageDesign.Proofs.Document.Supplied
import PageDesign.Proofs.Forest.Places

namespace PageDesign

open Json (Dialect Everywhere NumbersFit)
open Requirement (acceptable)

/-! ## Forests with a tree more -/

/-- Trees may be put in at a target: at the end of the roots, or of the children of a branch. -/
def Forest.IsTarget {ι : Type} (f : Forest ι) (target : Option ι) : Prop :=
  ∀ t, target = some t → ∃ b ∈ f.nodes, b.id = t ∧ b.isBranch = true

/-- A tree comes to the end of the roots, or to the end of the children of a branch with the
identity of the target; everything else stays as it is. -/
def Forest.Appended {ι : Type} (c : Component ι) (target : Option ι) (f g : Forest ι) : Prop :=
  match target with
  | none => g = f ++ [c]
  | some t => ∃ a b, (a, b) ∈ f.places ∧ b.id = t ∧ b.isBranch = true ∧
      Edited b.children (b.children ++ [c]) a.path f g

theorem Forest.exists_appended {f : Forest Id} (hf : f.ids.Nodup) {t : Id} {b : Component Id}
    (hb : b ∈ f.nodes) (hid : b.id = t) (hbranch : b.isBranch = true) (c : Component Id) :
    ∃ g, f.addChild? t c = some g ∧ Appended c (some t) f g := by
  obtain ⟨a, hplace, hmeans⟩ := exists_means hf hb
  have hadd := hmeans.addChild c
  rw [if_pos hbranch, hid] at hadd
  obtain ⟨g, hg, hedited⟩ := hadd
  exact ⟨g, hg, a, b, hplace, hid, hbranch, hedited⟩

/-! ## Texts of components -/

namespace Document

variable {d : Document} {c : Component Id} {target : Option Id}

theorem copy_of_get {id : Id} (h : d.components.get? id = some c) :
    d.copy? id = some c.record.dump := by
  rw [copy?, h]
  rfl

/-- The text of an acceptable component whose numbers fit is read as that component, and a copy
is made of it. -/
theorem readCopy_dump (hc : acceptable.Met [c])
    (hfit : (Requirement.stored NumbersFit).Met [c]) (m : Minted) :
    readCopy c.record.dump m = .ok (c.remint m) := by
  obtain ⟨ms, hms⟩ : ∃ ms, c.record = .obj ms := by
    cases c with
    | leaf i a l => exact ⟨_, rfl⟩
    | branch i a f cs => exact ⟨_, rfl⟩
  have htakes : Everywhere Dialect.strict.Takes (.obj ms) := by
    rw [← hms]
    exact (Requirement.takes_recordAll hc hfit).item List.mem_cons_self
  have htext : Json.extractObject (Json.obj ms).dump true = .ok ms := by
    have hblank : Text.isBlankText "" = true := rfl
    have h := Json.extractObject_of_takes htakes 0 hblank hblank true
    rwa [String.empty_append, String.append_empty] at h
  have hload : Component.loadOne (.obj ms) m = .ok (c, m) := by
    rw [Component.loadOne, ← hms, Draft.read_record (Requirement.inRange_of_acceptable hc)]
    -- every identity was written, so none is drawn before the copy is made
    exact congrArg Schema.Check.ok (Component.fill_some c m)
  rw [hms, readCopy, htext]
  dsimp only
  rw [hload]

/-! ## What is put in -/

/-- What does not obey the rules is not put in. -/
theorem putIn_of_validate_error {e : Offence} (hrule : c.validate = .error e)
    (target : Option Id) : d.putIn c target = .error e := by
  have hcheck : d.checkIncoming c = .error e := by
    rw [checkIncoming, hrule]
    rfl
  cases target with
  | none =>
      rw [putIn, addRoot, hcheck]
      rfl
  | some t =>
      rw [putIn, addChild, hcheck]
      rfl

/-- What passes the checks comes to the end of the roots, or of the children of a branch. -/
theorem exists_putIn (hd : d.components.ids.Nodup) (hcheck : d.checkIncoming c = .ok ())
    (htarget : d.components.IsTarget target) :
    ∃ e, d.putIn c target = .ok (c.id, e) ∧
      Forest.Appended c target d.components e.components := by
  cases target with
  | none =>
      refine ⟨{ d.record "Add Component" with components := d.components.addRoot c }, ?_, rfl⟩
      rw [putIn, addRoot, hcheck]
      rfl
  | some t =>
      obtain ⟨b, hb, hid, hbranch⟩ := htarget t rfl
      obtain ⟨f, hf, happended⟩ := Forest.exists_appended hd hb hid hbranch c
      refine ⟨{ d.record "Add Child Component" with components := f }, ?_, happended⟩
      have hadd : d.addChild t c =
          .ok (some { d.record "Add Child Component" with components := f }) := by
        rw [addChild, hcheck]
        show Except.ok ((d.components.addChild? t c).map _) = _
        rw [hf]
        rfl
      rw [putIn, hadd]

end Document

/-! ## Copy and paste -/

namespace Session

variable {ts : List Template} {s : Session} {payload : String} {target : Option Id}
variable {source c : Component Id} {n : Minted}

/-- A paste draws what the copy needs, whether the copy is let in or not. -/
theorem minted_run_paste (target : Option Id)
    (hcopy : Document.readCopy payload s.minted = .ok (c, n)) :
    (s.run (.paste payload target)).2.minted = n := by
  rw [run, Document.paste_of_readCopy _ target hcopy]
  cases s.document.putIn c target <;> rfl

/-- A session has a tree more than another: in all but its identities it is a given one, and its
identities were drawn in between. -/
structure Pasted (source : Component Id) (target : Option Id) (new : Component Id)
    (s t : Session) : Prop where
  appended : Forest.Appended new target s.document.components t.document.components
  same : Component.forget [new] = Component.forget [source]
  drawn : (Forest.ids [new]).Perm (Id.drawn s.minted t.minted)

theorem exists_pasted (hs : s.document.components.ids.Nodup)
    (hcopy : Document.readCopy payload s.minted = .ok (source.remint s.minted))
    (hrule : source.validate = .ok ())
    (htarget : s.document.components.IsTarget target)
    (hfresh : s.DrawsFresh (.paste payload target)) :
    ∃ new t, s.run (.paste payload target) = (.added new.id, t) ∧ Pasted source target new s t := by
  have hids : (Forest.ids [(source.remint s.minted).1]).Perm
      (Id.drawn s.minted (source.remint s.minted).2) :=
    Component.ids_remintForest [source] s.minted
  have hcheck : s.document.checkIncoming (source.remint s.minted).1 = .ok () := by
    have hsound := Component.sound_remintForest (Component.validate_iff.mp hrule) s.minted
    refine Document.checkIncoming_iff.mpr ⟨hsound, fun i hi hmem => ?_⟩
    -- what is drawn does not occur, so nothing has to be given free
    refine absurd hmem (hfresh i ?_)
    rw [minted_run_paste target hcopy]
    exact hids.mem_iff.mp hi
  obtain ⟨e, hputIn, happended⟩ := Document.exists_putIn hs hcheck htarget
  refine ⟨(source.remint s.minted).1, ⟨e, (source.remint s.minted).2⟩, ?_, ?_⟩
  · rw [run, Document.paste_of_readCopy _ target hcopy, hputIn]
  · exact ⟨happended, Component.forget_remintForest [source] s.minted, hids⟩

theorem run_paste_of_validate_error {e : Offence}
    (hcopy : Document.readCopy payload s.minted = .ok (source.remint s.minted))
    (hrule : source.validate = .error e) (target : Option Id) :
    s.run (.paste payload target) =
      (.refused e, { s with minted := (source.remint s.minted).2 }) := by
  have hforget : Component.forget [(source.remint s.minted).1] = Component.forget [source] :=
    Component.forget_remintForest [source] s.minted
  rw [← Component.validate_of_forget_eq hforget] at hrule
  rw [run, Document.paste_of_readCopy _ target hcopy, Document.putIn_of_validate_error hrule]

/-- In a supplied session the text of a component whose numbers fit is pasted as it was copied,
unless the component does not obey the rules.  Then the paste is refused with the offence that
the check of the component finds, and the document stays as it is.  Every component obeys the
rules if the templates do that were applied. -/
theorem paste_copy (hs : Supplied ts s) {id : Id} (hid : id ∈ s.document.components.ids)
    (htarget : s.document.components.IsTarget target)
    (hfit : ∀ source, s.document.components.get? id = some source →
      (Requirement.stored NumbersFit).Met [source])
    (hfresh : ∀ payload, s.document.copy? id = some payload →
      s.DrawsFresh (.paste payload target)) :
    ∃ source payload, s.document.components.get? id = some source ∧
      s.document.copy? id = some payload ∧
      ((∀ t ∈ ts, ∀ c ∈ t.components, c.validate = .ok ()) → source.validate = .ok ()) ∧
      (source.validate = .ok () →
        ∃ new t, s.run (.paste payload target) = (.added new.id, t) ∧
          Pasted source target new s t) ∧
      ∀ e, source.validate = .error e →
        ∃ n, s.run (.paste payload target) = (.refused e, { s with minted := n }) := by
  obtain ⟨source, hsource⟩ := Option.isSome_iff_exists.mp (Forest.get_isSome_iff.mpr hid)
  have hpayload := Document.copy_of_get hsource
  have hkept := hs.states _ s.document.present_mem_states
  have hcopy := Document.readCopy_dump (Requirement.met_of_get hkept.acceptable hsource)
    (hfit source hsource) s.minted
  refine ⟨source, source.record.dump, hsource, hpayload, ?_, ?_, ?_⟩
  · intro htemplates
    -- the design obeys the rules, so every portion of it does
    obtain ⟨rest, hrest⟩ := Forest.exists_comprises_of_get hsource
    exact Component.validate_iff.mpr (hrest.obeys_iff.mp (hkept.obeys htemplates)).1
  · intro hrule
    exact exists_pasted hkept.distinct hcopy hrule htarget (hfresh _ hpayload)
  · intro e hrule
    exact ⟨_, run_paste_of_validate_error hcopy hrule target⟩

/-! ## A card and a blank button -/

/-- A session with a card in it. -/
def carded : Session :=
  ⟨{ Document.empty.record "Add Component" with components := [sampleCard] }, 0⟩

/-- A template with a button that says nothing. -/
def blankTemplate : Template where
  id := "t"
  name := "T"
  description := ""
  category := .custom
  components := [.leaf () none (.button { label := "" })]

/-- The button that the template brings in first. -/
def blankButton : Component Id := .leaf (Id.ofCount 1) none (.button { label := "" })

/-- A session with that button in it. -/
def stained : Session :=
  ⟨{ Document.empty.record "Apply Template: T" with components := [blankButton] }, 1⟩

/-- A button without bindings is acceptable and has no numbers. -/
theorem met_button {ι : Type} (i : ι) (label : String) :
    acceptable.Met [Component.leaf i none (.button { label := label })] ∧
      (Requirement.stored NumbersFit).Met [Component.leaf i none (.button { label := label })] := by
  constructor
  · refine Requirement.met_cons_iff.mpr ⟨⟨by simp, ?_⟩, Requirement.met_nil, Requirement.met_nil⟩
    exact (Json.everywhere_scalar rfl).mpr List.nodup_nil
  · refine Requirement.met_cons_iff.mpr ⟨⟨by simp, ?_⟩, Requirement.met_nil, Requirement.met_nil⟩
    exact (Json.everywhere_scalar rfl).mpr trivial

theorem met_sampleCard :
    acceptable.Met [sampleCard] ∧ (Requirement.stored NumbersFit).Met [sampleCard] := by
  obtain ⟨hacceptable, hfit⟩ := met_button "b" "Button"
  constructor
  · refine Requirement.met_cons_iff.mpr ⟨⟨by simp, ?_⟩, hacceptable, Requirement.met_nil⟩
    simp [acceptable, Frame.InRange, Frame.Within]
  · refine Requirement.met_cons_iff.mpr ⟨⟨by simp, ?_⟩, hfit, Requirement.met_nil⟩
    simp [Requirement.stored, Frame.Within, NumbersFit, Json.fitsWord]

theorem supplied_carded : Supplied [] carded := by
  have hempty : Document.ofForest [] none none = .ok .empty := rfl
  have hcheck : Document.empty.checkIncoming sampleCard = .ok () := by decide +kernel
  have hadd : Document.empty.addRoot sampleCard = .ok carded.document := by
    rw [Document.addRoot, hcheck]
    rfl
  have hadmissible : Session.Admissible ⟨.empty, 0⟩ (.addRoot sampleCard) :=
    ⟨trivial, by decide +kernel, met_sampleCard.1⟩
  have hs := (Supplied.empty hempty).run hadmissible
  rw [run, hadd] at hs
  exact hs

theorem supplied_stained : Supplied [blankTemplate] stained := by
  have hempty : Document.ofForest [] none none = .ok .empty := rfl
  have hadmissible : Session.Admissible ⟨.empty, 0⟩ (.applyTemplate blankTemplate) :=
    ⟨trivial, by decide +kernel, (met_button () "").1⟩
  exact (Supplied.empty hempty).run hadmissible

/-- A paste of a copy is fresh if a copy of the component under new identities is. -/
theorem drawsFresh_paste (hc : acceptable.Met [source])
    (hfit : (Requirement.stored NumbersFit).Met [source]) (target : Option Id)
    (hfresh : ∀ i ∈ Id.drawn s.minted (source.remint s.minted).2,
      i ∉ s.document.components.ids) :
    s.DrawsFresh (.paste source.record.dump target) := by
  rw [DrawsFresh, minted_run_paste target (Document.readCopy_dump hc hfit s.minted)]
  exact hfresh

/-- A card is pasted into itself. -/
theorem paste_copy_sample :
    Supplied [] carded ∧ ∃ payload new t, carded.document.copy? "a" = some payload ∧
      carded.run (.paste payload (some "a")) = (.added new.id, t) ∧
      Pasted sampleCard (some "a") new carded t := by
  obtain ⟨hacceptable, hnumbers⟩ := met_sampleCard
  have hget : carded.document.components.get? "a" = some sampleCard :=
    Forest.get_cons_self sampleCard []
  have htarget : carded.document.components.IsTarget (some "a") := by
    rintro t ⟨⟩
    refine ⟨sampleCard, ?_, rfl, rfl⟩
    show sampleCard ∈ Forest.nodes [sampleCard]
    rw [Forest.nodes_cons]
    exact List.mem_cons_self
  have hfit : ∀ source, carded.document.components.get? "a" = some source →
      (Requirement.stored NumbersFit).Met [source] := by
    intro source hsource
    rw [hget] at hsource
    cases hsource
    exact hnumbers
  have hfresh : ∀ payload, carded.document.copy? "a" = some payload →
      carded.DrawsFresh (.paste payload (some "a")) := by
    intro payload hpayload
    cases (Document.copy_of_get hget).symm.trans hpayload
    exact drawsFresh_paste hacceptable hnumbers _ (by decide +kernel)
  obtain ⟨source, payload, hsource, hpayload, hrule, hpasted, -⟩ :=
    paste_copy supplied_carded (by decide +kernel) htarget hfit hfresh
  obtain ⟨new, t, hrun, hnew⟩ := hpasted (hrule (by simp))
  cases hget.symm.trans hsource
  exact ⟨supplied_carded, payload, new, t, hpayload, hrun, hnew⟩

/-- A button that a template brought in although it says nothing is copied, but not pasted. -/
theorem paste_refused :
    Supplied [blankTemplate] stained ∧ (Requirement.stored NumbersFit).Met [blankButton] ∧
      stained.document.components.get? blankButton.id = some blankButton ∧
      ∃ payload, stained.document.copy? blankButton.id = some payload ∧
        stained.DrawsFresh (.paste payload none) ∧
        stained.run (.paste payload none) =
          (.refused (.invalidProperty "label" "label cannot be empty"),
            { stained with minted := 2 }) := by
  obtain ⟨hacceptable, hnumbers⟩ :
      acceptable.Met [blankButton] ∧ (Requirement.stored NumbersFit).Met [blankButton] :=
    met_button (Id.ofCount 1) ""
  have hget : stained.document.components.get? blankButton.id = some blankButton :=
    Forest.get_cons_self blankButton []
  have hpayload := Document.copy_of_get hget
  have hcopy : Document.readCopy blankButton.record.dump stained.minted =
      .ok (blankButton.remint stained.minted) :=
    Document.readCopy_dump hacceptable hnumbers _
  have hrule : blankButton.validate =
      .error (.invalidProperty "label" "label cannot be empty") := by decide +kernel
  have hfresh : stained.DrawsFresh (.paste blankButton.record.dump none) :=
    drawsFresh_paste hacceptable hnumbers none (by decide +kernel)
  exact ⟨supplied_stained, hnumbers, hget, _, hpayload, hfresh,
    run_paste_of_validate_error hcopy hrule none⟩

end Session

end PageDesign
