/-
# PageDesign.Proofs.Document.Batch -- a template comes in as one batch

A template is applied by putting a copy of each of its components at the end of the roots.  The
undo point is taken before the first of them comes in, and none after it, so there is one for the
whole batch (`Application.faithful`).

The copies are made one after the other, each beside its source, and the next copy begins with the
identities that are left (`RedrawnAll`).  The sources stay as they are, so the next use of the
template begins with the same.

No command takes the counter of identities back (`Session.le_minted_run`).  So whatever happens
between two applications, and to whatever documents they are, the later one draws identities that
the earlier one did not (`Application.Before`).
-/
import PageDesign.Proofs.Component.Redraw
import PageDesign.Proofs.Document.Clipboard
import PageDesign.Proofs.Document.UndoRedo

namespace PageDesign

variable {ι κ σ : Type}

/-! ## Copies one after the other -/

/-- Trees are copied one after the other: each stays as it is when its copy is made, and the next
copy begins with what is left of the supply. -/
inductive RedrawnAll (mint : σ → ι × σ) : σ → Forest ι → Forest ι → σ → Prop
  | nil {s : σ} : RedrawnAll mint s [] [] s
  | cons {s t : σ} {c copy : Component ι} {cs copies : Forest ι} (hfirst : Redrawn mint s c copy)
      (hrest : RedrawnAll mint (draws mint c.size s).2 cs copies t) :
      RedrawnAll mint s (c :: cs) (copy :: copies) t

namespace Component

theorem forget_unit (f : Forest Unit) : forget f = f := by
  induction f using Forest.induction with
  | nil => rfl
  | cons c cs ihc ihcs =>
      have hc : c.map (fun _ => ()) = c := by
        cases c with
        | leaf i a l => rfl
        | branch i a fr ds => exact congrArg (Component.branch () a fr) ihc
      rw [forget, mapForest, hc]
      exact congrArg _ ihcs

theorem length_forget (f : Forest ι) : (forget f).length = f.length := by
  induction f with
  | nil => rfl
  | cons c cs ih => exact congrArg (· + 1) ih

/-- What is drawn for a copy does not depend on the identities of its source. -/
theorem remintForest_mapForest (g : ι → κ) (f : Forest ι) (n : Nat) :
    remintForest (mapForest g f) n = remintForest f n := by
  induction f using Forest.induction generalizing n with
  | nil => rfl
  | cons c cs ihc ihcs =>
      have hc (m : Nat) : (c.map g).remint m = c.remint m := by
        cases c with
        | leaf i a l => rfl
        | branch i a fr ds =>
            have hds : remintForest (mapForest g ds) (m + 1) = remintForest ds (m + 1) :=
              ihc (m + 1)
            simp only [map, remint, Id.mint, hds]
      rw [mapForest, remintForest_cons, ihcs, hc, remintForest_cons]

end Component

namespace Template

open Component (mapForest forget)

theorem remintAll_mapForest (g : ι → κ) (f : Forest ι) (n : Nat) :
    remintAll (mapForest g f) n = remintAll f n := by
  induction f generalizing n with
  | nil => rfl
  | cons c cs ih =>
      have hc := Component.remintForest_mapForest g [c] n
      have hfirst : (c.map g).remint n = c.remint n :=
        Prod.ext (List.cons.inj (Prod.mk.inj hc).1).1 (Prod.mk.inj hc).2
      rw [mapForest, remintAll_cons, hfirst, ih, remintAll_cons]

/-- The copies of a template are those of its components under any identities. -/
theorem instantiate_eq {t : Template} {f : Forest ι} (h : forget f = t.components) (n : Nat) :
    t.instantiate n = remintAll f n := by
  rw [instantiate, ← h, forget, remintAll_mapForest]

theorem redrawnAll_remintAll (f : Forest Id) (n : Minted) :
    RedrawnAll Id.mint n f (remintAll f n).1 (remintAll f n).2 := by
  induction f generalizing n with
  | nil => exact .nil
  | cons c cs ih =>
      have hleft : (c.remint n).2 = (draws Id.mint c.size n).2 := by
        have hdraws := congrArg Prod.snd (Forest.ids_turnsFrom_remint Id.mint 1 [c] n)
        rw [Component.sizeForest, Component.sizeForest, Nat.add_zero] at hdraws
        rw [Component.remint_eq]
        exact hdraws
      have hfirst := redrawn_remintWith Id.mint c n
      rw [← Component.remint_eq] at hfirst
      rw [remintAll_cons]
      refine .cons hfirst ?_
      rw [← hleft]
      exact ih _

end Template

/-! ## The counter -/

theorem Component.le_minted_fillForest (f : Forest (Option Id)) (n : Nat) :
    n ≤ (fillForest f n).2 := by
  induction f using Forest.induction generalizing n with
  | nil => exact Nat.le_refl n
  | cons c cs ihc ihcs =>
      have hid (i : Option Id) : n ≤ (fillId i n).2 := by
        cases i with
        | none => exact Nat.le_succ n
        | some i => exact Nat.le_refl n
      have hc : n ≤ (c.fill n).2 := by
        cases c with
        | leaf i a l => exact hid i
        | branch i a fr ds => exact Nat.le_trans (hid i) (ihc _)
      rw [fillForest_cons]
      exact Nat.le_trans hc (ihcs _)

theorem Component.le_minted_fill (c : Component (Option Id)) (n : Nat) : n ≤ (c.fill n).2 :=
  le_minted_fillForest [c] n

theorem Patch.le_minted_apply {fields : Json.Members} {c new : Component Id} {m n : Nat}
    (h : apply fields c m = .ok (new, n)) : m ≤ n := by
  obtain ⟨d, -, hfill⟩ := Schema.Check.map_eq_ok_iff.mp h
  cases hfill
  exact d.le_minted_fill m

theorem Document.le_minted_readCopy {payload : String} {c : Component Id} {m n : Nat}
    (h : readCopy payload m = .ok (c, n)) : m ≤ n := by
  rw [readCopy] at h
  split at h
  next => cases h
  next ms _ =>
    split at h
    next => cases h
    next source k hload =>
      obtain ⟨d, -, hfill⟩ := Schema.Check.map_eq_ok_iff.mp hload
      have hloaded : m ≤ k := le_of_le_of_eq (d.le_minted_fill m) (congrArg Prod.snd hfill)
      have hcopy := Component.le_minted_remintForest [source] k
      rw [Component.remintForest_singleton, Except.ok.inj h] at hcopy
      exact Nat.le_trans hloaded hcopy

/-- No command takes the counter back. -/
theorem Session.le_minted_run (s : Session) (cmd : Command) :
    s.minted ≤ (s.run cmd).2.minted := by
  have hincoming (t : Session) (id : Id) (r : Except Offence Document) :
      (t.incoming id r).2.minted = t.minted := by
    cases r <;> rfl
  have hchecked (t : Session) (r : Except Offence (Option Document)) :
      (t.checked r).2.minted = t.minted := by
    cases r <;> rfl
  cases cmd with
  | addRoot c => exact Nat.le_of_eq (hincoming s c.id _).symm
  | addChild parent c => exact Nat.le_of_eq (hchecked s _).symm
  | replace id c => exact Nat.le_of_eq (hchecked s _).symm
  | update id change => exact Nat.le_of_eq (hchecked s _).symm
  | patch id fields =>
      rw [run, patch]
      split
      next => exact Nat.le_refl _
      next c _ =>
        split
        next => exact Nat.le_refl _
        next new n happly =>
          rw [hchecked]
          exact Patch.le_minted_apply happly
  | duplicate id =>
      rw [run]
      split
      next copy d n hdup =>
        obtain ⟨source, f, -, hn, -⟩ := Document.duplicate_eq_some hdup
        rw [← hn]
        exact Component.le_minted_remintForest [source] s.minted
      next => exact Nat.le_refl _
  | applyTemplate t => exact Template.le_minted_remintAll t.components s.minted
  | paste payload parent =>
      cases hcopy : Document.readCopy payload s.minted with
      | error e =>
          rw [run, Document.paste, hcopy]
          exact Nat.le_refl _
      | ok copied =>
          rw [minted_run_paste parent hcopy]
          exact Document.le_minted_readCopy hcopy
  | _ => exact Nat.le_refl _

/-! ## Applications of templates -/

/-- A template is applied in a session. -/
structure Application where
  session : Session
  template : Template

namespace Application

open Component (forget)

/-- The session after an application. -/
def after (a : Application) : Session := (a.session.run (.applyTemplate a.template)).2

/-- The trees that stand behind the old roots after an application. -/
def inserted (a : Application) : Forest Id :=
  a.after.document.components.drop a.session.document.components.length

/-- A template came in as one faithful batch. -/
structure Faithful (a : Application) : Prop where
  /-- The answer has the identities of the new roots, in order. -/
  reply : (a.session.run (.applyTemplate a.template)).1 = .addedAll (a.inserted.map (·.id))
  /-- The new roots come to the end, and what was there is as it was. -/
  components : a.after.document.components = a.session.document.components ++ a.inserted
  selected : a.after.document.selected = a.session.document.selected
  /-- There are as many new roots as the template has components. -/
  length : a.inserted.length = a.template.components.length
  /-- In all but its identities each new root is a component of the template. -/
  same : forget a.inserted = a.template.components
  /-- The copies are made in turn, and the components of the template stay as they are, whatever
  identities they have. -/
  source : ∀ f, forget f = a.template.components →
    RedrawnAll Id.mint a.session.minted f a.inserted a.after.minted
  /-- One undo point is taken, of the state before the first of the new roots. -/
  undone : a.after.document.history.undone =
    (a.session.document.snapshot ("Apply Template: " ++ a.template.name) ::
      a.session.document.history.undone).take a.session.document.history.capacity
  redone : a.after.document.history.redone = []
  /-- One undo takes back the whole batch. -/
  undo : ∃ s, a.after.run .undo = (.did true, s) ∧
    s.document.components = a.session.document.components ∧
    s.document.selected = a.session.document.selected ∧
    s.document.history.undone =
      a.session.document.history.undone.take (a.session.document.history.capacity - 1)

theorem after_eq (a : Application) : a.after =
    ⟨{ a.session.document.record ("Apply Template: " ++ a.template.name) with
        components :=
          a.session.document.components ++ (a.template.instantiate a.session.minted).1 },
      (a.template.instantiate a.session.minted).2⟩ := by
  show Session.mk _ _ = _
  rw [Document.foldl_addRootUnrecorded]
  rfl

theorem inserted_eq (a : Application) :
    a.inserted = (a.template.instantiate a.session.minted).1 := by
  rw [inserted, after_eq]
  exact List.drop_left

/-- The identities that come in are those that are drawn, in some order. -/
theorem ids_inserted (a : Application) :
    (Forest.ids a.inserted).Perm (Id.drawn a.session.minted a.after.minted) := by
  rw [inserted_eq, after_eq]
  exact Template.ids_remintAll a.template.components a.session.minted

theorem faithful (a : Application) (hroom : 0 < a.session.document.history.capacity) :
    a.Faithful := by
  have hforget : forget a.inserted = a.template.components := by
    rw [inserted_eq, Template.instantiate, Template.forget_remintAll, Component.forget_unit]
  constructor
  case reply =>
    rw [inserted_eq]
    rfl
  case components => rw [inserted_eq, after_eq]
  case selected => rw [after_eq]; rfl
  case length =>
    rw [← hforget, Component.length_forget]
  case same => exact hforget
  case source =>
    intro f hf
    rw [inserted_eq, after_eq, Template.instantiate_eq hf]
    exact Template.redrawnAll_remintAll f a.session.minted
  case undone => rw [after_eq]; rfl
  case redone => rw [after_eq]; rfl
  case undo =>
    obtain ⟨room, hcapacity⟩ := Nat.exists_eq_succ_of_ne_zero (Nat.ne_of_gt hroom)
    have hundone : a.after.document.history.undone =
        a.session.document.snapshot ("Apply Template: " ++ a.template.name) ::
          a.session.document.history.undone.take room := by
      rw [after_eq, ← List.take_succ_cons]
      exact congrArg (List.take · _) hcapacity
    rw [Session.run, Document.undo_of_cons hundone]
    refine ⟨_, rfl, rfl, rfl, ?_⟩
    rw [hcapacity]
    rfl

/-! ## Applications in turn -/

/-- One application is over before another begins. -/
def Before (a b : Application) : Prop := a.after.minted ≤ b.session.minted

/-- Applications one after the other, whatever happens in between and whether they are to one
document or to several. -/
def InTurn (as : List Application) : Prop := as.Pairwise Before

/-- What was drawn up to one number is not drawn after it. -/
theorem disjoint_drawn {k l m n : Nat} (h : l ≤ m) : (Id.drawn k l).Disjoint (Id.drawn m n) := by
  intro i hk hm
  obtain ⟨x, hx, rfl⟩ := List.mem_map.mp hk
  obtain ⟨y, hy, hxy⟩ := List.mem_map.mp hm
  rw [Id.ofCount_injective hxy, List.mem_range'_1] at hy
  rw [List.mem_range'_1] at hx
  omega

theorem nodup_ids_inserted {as : List Application} (h : InTurn as) :
    (as.flatMap fun a => Forest.ids a.inserted).Nodup := by
  refine List.nodup_flatMap.mpr ⟨fun a _ => ?_, ?_⟩
  · exact a.ids_inserted.nodup_iff.mpr (Id.nodup_drawn _ _)
  · refine h.imp fun {a b} hab i ha hb => ?_
    exact disjoint_drawn hab (a.ids_inserted.mem_iff.mp ha) (b.ids_inserted.mem_iff.mp hb)

end Application

namespace Session

open Application (InTurn Before)

/-- The application of a template that a command asks for. -/
def application? (s : Session) : Command → Option Application
  | .applyTemplate t => some ⟨s, t⟩
  | _ => none

/-- The applications of templates among some commands, each with the session that it begins in. -/
def applications (s : Session) : List Command → List Application
  | [] => []
  | cmd :: cmds => (s.application? cmd).toList ++ applications (s.run cmd).2 cmds

theorem application_eq_some {s : Session} {cmd : Command} {a : Application}
    (h : s.application? cmd = some a) : a.session = s ∧ a.after = (s.run cmd).2 := by
  cases cmd with
  | applyTemplate t =>
      cases h
      exact ⟨rfl, rfl⟩
  | _ => cases h

theorem le_minted_applications {s : Session} {cmds : List Command} {a : Application}
    (h : a ∈ s.applications cmds) : s.minted ≤ a.session.minted := by
  induction cmds generalizing s with
  | nil => cases h
  | cons cmd cmds ih =>
      rcases List.mem_append.mp h with h | h
      · rw [(application_eq_some (Option.mem_toList.mp h)).1]
      · exact Nat.le_trans (s.le_minted_run cmd) (ih h)

/-- The applications among some commands are in turn. -/
theorem inTurn_applications (s : Session) (cmds : List Command) :
    InTurn (s.applications cmds) := by
  induction cmds generalizing s with
  | nil => exact .nil
  | cons cmd cmds ih =>
      rw [applications]
      cases happlication : s.application? cmd with
      | none => exact ih _
      | some a =>
          refine List.pairwise_cons.mpr ⟨fun b hb => ?_, ih _⟩
          rw [Before, (application_eq_some happlication).2]
          exact le_minted_applications hb

/-! ## The law -/

/-- Templates come in as faithful batches.  Each application puts a copy of every component of the
template at the end of the roots, in order and the same in all but identities, answers with the
identities of the copies, leaves the selection, the other components and the template as they are,
and takes one undo point, so that one undo takes back the batch.  All identities that come in by
applications one after the other are distinct, of one template or of several, in one document or
in several, and whatever commands there are in between. -/
theorem templates_apply {as : List Application} (hturn : InTurn as)
    (hroom : ∀ a ∈ as, 0 < a.session.document.history.capacity) :
    (∀ a ∈ as, a.Faithful) ∧ (as.flatMap fun a => Forest.ids a.inserted).Nodup ∧
      ∀ (s : Session) (cmds : List Command), InTurn (s.applications cmds) :=
  ⟨fun a ha => a.faithful (hroom a ha), Application.nodup_ids_inserted hturn, inTurn_applications⟩

/-- A template of two trees is applied to the sample, taken back and applied again.  Three identities
are drawn each time, and the second time the same trees come in under others. -/
theorem templates_apply_sample :
    let pair : Template := {
      id := "pair", name := "Pair", description := "", category := .custom
      components := [.branch () none (.card {}) [.leaf () none (.text {})],
        .leaf () none (.button {})] }
    let as := sample.applications [.applyTemplate pair, .undo, .applyTemplate pair]
    as.map (fun a => Forest.ids a.inserted) =
        [[3, 4, 5].map Id.ofCount, [6, 7, 8].map Id.ofCount] ∧
      (∀ a ∈ as, a.Faithful) ∧ (as.flatMap fun a => Forest.ids a.inserted).Nodup := by
  intro pair as
  have hroom : ∀ a ∈ as, 0 < a.session.document.history.capacity := by decide +kernel
  obtain ⟨hfaithful, hdistinct, -⟩ := templates_apply (inTurn_applications sample _) hroom
  exact ⟨by decide +kernel, hfaithful, hdistinct⟩

end Session

end PageDesign
