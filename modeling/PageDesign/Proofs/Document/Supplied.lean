/-
# PageDesign.Proofs.Document.Supplied -- documents with what the readers yield

What comes into a document from outside may have been read, or made in another way.  A session
is supplied if all of it is acceptable: the components, the fields of a patch, and what an update
makes of a component.  Then every state that it knows is acceptable, too, and no identity comes
twice in any of them (`Supplied.states`).  What a command reads by itself, from a stored
document or from the text of a paste, needs no condition, however damaged the text is.

A template is not checked when it is applied, so it may bring in components that break their
rules.  A session is therefore supplied along with the templates that were applied, and its
states obey the rules if these do.
-/
import PageDesign.Proofs.Component.Acceptable
import PageDesign.Proofs.Document.Integrity
import PageDesign.Proofs.Document.Reopen
import PageDesign.Proofs.Json.Repaired

namespace PageDesign

open Json (Everywhere KeysDistinct)
open Requirement (acceptable acceptable_ensuredBy)

/-! ## Copies that are read -/

namespace Document

/-- The component in a text, read or pieced together, is acceptable. -/
theorem acceptable_readCopy {payload : String} {c : Component Id} {m n : Minted}
    (h : readCopy payload m = .ok (c, n)) : acceptable.Met [c] := by
  rw [readCopy] at h
  split at h
  next => cases h
  next ms hms =>
    split at h
    next => cases h
    next read k hload =>
      obtain ⟨d, hread, heq⟩ := Schema.Check.map_eq_ok_iff.mp hload
      have hd : acceptable.Met [d] :=
        (acceptable_ensuredBy.of_read (Json.keysDistinct_of_extractObject hms)).1 d hread
      -- missing identities are filled in and then all are drawn anew, the rest stays
      have hfilled : acceptable.Met [(d.fill m).1] :=
        Requirement.met_of_forget_eq (Component.forget_fillForest [d] m).symm hd
      have hcopy := Component.forget_remintForest [read] k
      rw [Component.remintForest_singleton, Except.ok.inj h] at hcopy
      rw [heq] at hfilled
      exact Requirement.met_of_forget_eq hcopy.symm hfilled

end Document

/-- The templates that a command applies. -/
def Command.templates : Command → List Template
  | .applyTemplate t => [t]
  | _ => []

namespace Session

variable {s : Session} {cmd : Command} {f : Forest Id} {selected : Option Id}

/-- What a command brings from outside is acceptable. -/
def Acceptable (s : Session) : Command → Prop
  | .addRoot c | .addChild _ c | .replace _ c => acceptable.Met [c]
  | .update id change =>
    ∀ c, s.document.components.get? id = some c → acceptable.Met [change c]
  | .patch _ fields => Everywhere KeysDistinct (.obj fields)
  | .applyTemplate t => acceptable.Met t.components
  | _ => True

/-- A command that checks what comes in, draws identities that do not occur, and brings only
what is acceptable. -/
structure Admissible (s : Session) (cmd : Command) : Prop where
  checked : cmd.Checked
  fresh : s.DrawsFresh cmd
  acceptable : s.Acceptable cmd

/-! ## Edits -/

theorem acceptable_arrival {c : Component Id} (h : s.arrival? cmd = some c)
    (hcmd : s.Acceptable cmd) : acceptable.Met [c] := by
  cases cmd with
  | addRoot d | addChild parent d =>
      cases h
      exact hcmd
  | paste payload parent =>
      rw [arrival?] at h
      cases hcopy : Document.readCopy payload s.minted with
      | error e =>
          rw [hcopy] at h
          cases h
      | ok copied =>
          rw [hcopy] at h
          cases h
          exact Document.acceptable_readCopy hcopy
  | _ => cases h

theorem acceptable_exchange {id : Id} {c : Component Id} (h : s.exchange? cmd = some (id, c))
    (hcmd : s.Acceptable cmd) (hs : acceptable.Met s.document.components) :
    acceptable.Met [c] := by
  cases cmd with
  | replace id d =>
      obtain ⟨-, heq⟩ := Option.ite_none_right_eq_some.mp h
      cases heq
      exact hcmd
  | update id change =>
      obtain ⟨old, hget, heq⟩ := Option.map_eq_some_iff.mp h
      cases heq
      exact hcmd old hget
  | patch id fields =>
      obtain ⟨old, hget, h⟩ := Option.bind_eq_some_iff.mp h
      cases happly : Patch.apply fields old s.minted with
      | fail issues =>
          rw [happly] at h
          cases h
      | ok new =>
          rw [happly] at h
          cases h
          exact Patch.met_apply happly hcmd (Requirement.met_of_get hs hget)
  | _ => cases h

/-- An edit of an acceptable design makes an acceptable design. -/
theorem Edit.acceptable (h : s.Edit cmd f selected) (hchecked : cmd.Checked)
    (hcmd : s.Acceptable cmd) (hs : acceptable.Met s.document.components) :
    acceptable.Met f := by
  cases h with
  | come harrival _ hf =>
      exact (Requirement.met_iff_of_comprises hf).mpr ⟨acceptable_arrival harrival hcmd, hs⟩
  | exchange hexchange _ hr hf =>
      -- the rest without the old tree is acceptable, and so it is with the new one
      have hc := acceptable_exchange hexchange hcmd hs
      have hrest := ((Requirement.met_iff_of_comprises (Forest.comprises_remove hr)).mp hs).2
      exact (Requirement.met_iff_of_comprises hf).mpr
        ⟨(Requirement.met_withId_iff _).mpr hc, hrest⟩
  | leave _ hr =>
      exact ((Requirement.met_iff_of_comprises (Forest.comprises_remove hr)).mp hs).2
  | rearrange hf =>
      exact (Requirement.met_iff_of_comprises hf).mpr ⟨Requirement.met_nil, hs⟩
  | @copy _ source _ hsource _ hf =>
      have hcopy := Requirement.met_of_forget_eq
        (Component.forget_remintForest [source] s.minted).symm (Requirement.met_of_get hs hsource)
      exact (Requirement.met_iff_of_comprises hf).mpr ⟨hcopy, hs⟩
  | @template t ht =>
      subst ht
      have hcopy := Requirement.met_of_forget_eq
        (Template.forget_remintAll t.components s.minted).symm hcmd
      exact (Requirement.met_iff_of_comprises (Forest.Comprises.append _ _)).mpr ⟨hcopy, hs⟩
  | clear => exact Requirement.met_nil
  | select => exact hs
  | unchecked hunchecked => exact absurd hchecked hunchecked

/-! ## Runs -/

/-- The sessions that arise from a document without components or one that was read, by
admissible commands, which apply the templates of a list.  A value that is read has no key
twice, as a text has none.  Identities may be drawn in between. -/
inductive Supplied : List Template → Session → Prop
  | empty {capacity : Option Int} {d : Document} {n : Minted} :
      Document.ofForest [] none capacity = .ok d → Supplied [] ⟨d, n⟩
  | value {v : Json} {capacity : Option Int} {d : Document} {m n : Minted} :
      Everywhere KeysDistinct v → Document.ofJson v capacity m = .ok (d, n) → Supplied [] ⟨d, n⟩
  | text {t : String} {capacity : Option Int} {d : Document} {m n : Minted} :
      Document.ofText t capacity m = .ok (d, n) → Supplied [] ⟨d, n⟩
  | draw {ts : List Template} {s : Session} {n : Minted} :
      Supplied ts s → s.minted ≤ n → Supplied ts { s with minted := n }
  | run {ts : List Template} {s : Session} {cmd : Command} :
      Supplied ts s → s.Admissible cmd → Supplied (ts ++ cmd.templates) (s.run cmd).2

/-- A state without a repeated identity that is acceptable, and obeys the rules if some
templates do. -/
structure Kept (ts : List Template) (f : Forest Id) : Prop where
  distinct : f.ids.Nodup
  acceptable : acceptable.Met f
  obeys : (∀ t ∈ ts, ∀ c ∈ t.components, c.validate = .ok ()) → f.Obeys

theorem Kept.mono {ts us : List Template} (h : Kept ts f) (hsub : ∀ t ∈ ts, t ∈ us) :
    Kept us f where
  distinct := h.distinct
  acceptable := h.acceptable
  obeys hus := h.obeys fun t ht => hus t (hsub t ht)

/-- An edit that an admissible command makes of such a state makes another. -/
theorem Edit.kept {ts : List Template} (h : s.Edit cmd f selected) (hcmd : s.Admissible cmd)
    (hs : Kept ts s.document.components) : Kept (ts ++ cmd.templates) f where
  distinct := h.distinct hcmd.checked hcmd.fresh hs.distinct
  acceptable := h.acceptable hcmd.checked hcmd.acceptable hs.acceptable
  obeys htemplates := by
    refine h.obeys hcmd.checked ?_ (hs.obeys fun t ht => htemplates t (List.mem_append_left _ ht))
    rintro t rfl
    exact obeys_of_validate (htemplates t (List.mem_append_right _ List.mem_cons_self))

/-- Every state that a supplied session knows is acceptable, no identity comes twice in it, and
it obeys the rules if the templates do that were applied. -/
theorem Supplied.states {ts : List Template} (hs : Supplied ts s) :
    ∀ x ∈ s.document.states, Kept ts x.1 := by
  -- a document that was not edited knows no state but its present one
  have fresh {d : Document} (hd : d.Unedited) (hmet : acceptable.Met d.components) :
      ∀ x ∈ d.states, Kept [] x.1 := by
    obtain ⟨f, selected, capacity, -, hf, -, rfl⟩ := hd
    intro x hx
    obtain rfl : x = (f, selected) := List.mem_singleton.mp hx
    exact ⟨hf.distinct, hmet, fun _ => hf.obeys⟩
  induction hs with
  | empty h =>
      -- there is nothing to be acceptable yet
      refine fresh (Document.unedited_empty h) ?_
      obtain ⟨capacity, -, rfl⟩ := Document.ofForest_eq_ok h
      exact Requirement.met_nil
  | value hv h =>
      exact fresh (Document.unedited_ofJson h) (Document.met_of_ofJson acceptable_ensuredBy hv h)
  | text h =>
      obtain ⟨ms, hms, hjson⟩ := Document.ofText_eq_ok_iff.mp h
      have hkeys := Json.keysDistinct_of_extractObject hms
      exact fresh (Document.unedited_ofText h)
        (Document.met_of_ofJson acceptable_ensuredBy hkeys hjson)
  | draw _ _ ih => exact ih
  | @run ts s cmd _ hcmd ih =>
      intro x hx
      rcases mem_states_run hx with hx | hedit
      · exact (ih x hx).mono fun t ht => List.mem_append_left _ ht
      · exact hedit.kept hcmd (ih _ s.document.present_mem_states)

end Session

end PageDesign
