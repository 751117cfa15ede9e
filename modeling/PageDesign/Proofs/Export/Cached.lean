/-
# PageDesign.Proofs.Export.Cached -- keeping exports changes no answer

An exporter that keeps its exports answers every call as one that keeps none
(`run_eq_uncached`).  What is kept under a digest is the export of some earlier call with that
digest; this is preserved by every call (`Faithful.call`).  A hit then answers rightly because
the target and the stored form of a design tell which design it is: the fields of a key can be
told apart in the text that is digested (`keyText_inj`), and the text of a stored design of
finite numbers belongs to one design only.

That different texts have different digests is a hypothesis, for the texts of the run.
-/
import Mathlib.Data.Set.Function
import PageDesign.Export.Exporter
import PageDesign.Proofs.Cache.Entries
import PageDesign.Proofs.Component.Record
import PageDesign.Proofs.Json.Whole

namespace PageDesign

/-! ## Designs of finite numbers -/

/-- The numbers of a design are finite: the times of animations and the numbers among the
properties of custom components. -/
def Requirement.finite : Requirement where
  animation a := a.duration.isFinite = true ∧ a.delay.isFinite = true
  leaf
    | .custom c => ∀ k x, (k, PropValue.number x) ∈ c.props → x.isFinite = true
    | _ => True
  frame _ := True

theorem Json.plain_isFinite : Json.Plain Json.IsFinite :=
  ⟨trivial, fun _ => trivial, fun _ => trivial, fun _ => trivial, fun _ _ => trivial⟩

theorem Leaf.everywhere_dictionary {l : Leaf} (h : Requirement.finite.leaf l) :
    Json.Everywhere Json.IsFinite l.dictionary := by
  have hbindings (bs : Bindings) : Json.Everywhere Json.IsFinite bs.record :=
    Json.everywhere_obj.mpr ⟨trivial,
      List.forall_mem_map.mpr fun _ _ => Json.plain_isFinite.everywhere_text _⟩
  cases l with
  | button b => exact hbindings b.bindings
  | text t => exact hbindings t.bindings
  | input i => exact hbindings i.bindings
  | select s | image i => exact Json.plain_isFinite.everywhere_null
  | custom c =>
      refine Json.everywhere_obj.mpr ⟨trivial, List.forall_mem_map.mpr fun ⟨k, p⟩ hp => ?_⟩
      cases p with
      | number x => exact (Json.everywhere_scalar rfl).mpr (h k x hp)
      | bool b => exact Json.plain_isFinite.everywhere_bool b
      | text s => exact Json.plain_isFinite.everywhere_text s
      | empty => exact Json.plain_isFinite.everywhere_null

/-- A design of finite numbers is stored as a value of finite numbers. -/
theorem everywhere_isFinite_recordAll {f : Forest Id} (h : Requirement.finite.Met f) :
    Json.Everywhere Json.IsFinite (Component.recordAll f) := by
  refine (everywhere_recordAll_iff Json.plain_isFinite).mpr fun c hc => ?_
  cases c with
  | leaf i a l =>
      obtain ⟨ha, hl⟩ := h _ hc
      exact ⟨ha, Leaf.everywhere_dictionary hl⟩
  | branch i a f cs =>
      obtain ⟨ha, -⟩ := h _ hc
      refine ⟨ha, ?_⟩
      cases f <;> simp [Frame.Within, Requirement.stored, Json.IsFinite]

/-! ## Keys -/

theorem toList_joinFields (s t : String) :
    (Digest.joinFields [s, t]).toList = s.toList ++ '\x00' :: t.toList := by
  simp [Digest.joinFields]

/-- What stands in front of a separator and behind it, where it does not occur in front. -/
theorem append_cons_inj_of_notMem {α : Type} {sep : α} {xs xs' ys ys' : List α} (hxs : sep ∉ xs)
    (hxs' : sep ∉ xs') (h : xs ++ sep :: ys = xs' ++ sep :: ys') : xs = xs' ∧ ys = ys' := by
  rcases List.append_eq_append_iff.mp h with ⟨zs, rfl, hzs⟩ | ⟨zs, rfl, hzs⟩
  · cases zs with
    | nil => simpa using hzs
    | cons z zs =>
        obtain ⟨rfl, -⟩ := List.cons.inj hzs
        simp at hxs'
  · cases zs with
    | nil => simpa [eq_comm] using hzs
    | cons z zs =>
        obtain ⟨rfl, -⟩ := List.cons.inj hzs
        simp at hxs

theorem Target.nul_notMem_name (t : Target) : '\x00' ∉ (Choice.name t).toList := by
  cases t <;> decide

namespace Exporter

/-- The text whose digest an export is kept under. -/
def keyText (target : String) (f : Forest Id) : String := Digest.joinFields (keyFields target f)

/-- The text tells the target and the design. -/
theorem keyText_inj {t t' : Target} {f g : Forest Id} (hf : Requirement.finite.Met f)
    (hg : Requirement.finite.Met g) (h : keyText (Choice.name t) f = keyText (Choice.name t') g) :
    Choice.name t = Choice.name t' ∧ f = g := by
  have hlists := congrArg String.toList h
  rw [keyText, keyText, keyFields, keyFields, toList_joinFields, toList_joinFields] at hlists
  obtain ⟨hname, hdump⟩ :=
    append_cons_inj_of_notMem t.nul_notMem_name t'.nul_notMem_name hlists
  have hrecord : Component.recordAll f = Component.recordAll g :=
    Json.dump_injective (everywhere_isFinite_recordAll hf) (everywhere_isFinite_recordAll hg)
      (String.toList_injective hdump)
  exact ⟨String.toList_injective hname, Component.recordAll_injective hrecord⟩

/-! ## Single exports -/

section Single

variable {s : Exporter} {p : ExportPlan} {target : String} {f : Forest Id}

theorem exportWith_hit {c after : Cache String} {text : String} (hcache : s.cache = some c)
    (hget : c.get (keyFields target f) = (some text, after)) :
    s.exportWith p target f = (text, { s with cache := some after }) := by
  simp only [exportWith, hcache, hget]

theorem exportWith_miss {c after : Cache String} (hcache : s.cache = some c)
    (hget : c.get (keyFields target f) = (none, after)) :
    s.exportWith p target f =
      (p.render f, { s with cache := some (after.set (keyFields target f) (p.render f)) }) := by
  simp only [exportWith, hcache, hget]

theorem exportTo_ok (hp : ExportPlan.ofSettings s.settings target = .ok p) :
    s.exportTo f target = (.ok (s.exportWith p target f).1, (s.exportWith p target f).2) := by
  simp only [exportTo, hp]

theorem exportTo_error {e : ExportError} (hp : ExportPlan.ofSettings s.settings target = .error e) :
    s.exportTo f target = (.error e, s) := by
  simp only [exportTo, hp]

/-- The target is unknown, or it is one with a preset and the preset is unknown. -/
def Unknown (s : Settings) (target : String) : Prop :=
  (Choice.ofName? target : Option Target) = none ∨
    Choice.ofName? target = some Target.leptos ∧ (Choice.ofName? s.preset : Option Preset) = none

/-- An export that names something unknown is refused and leaves the exporter as it is. -/
theorem exportTo_unknown (h : Unknown s.settings target) :
    ∃ e, s.exportTo f target = (.error e, s) := by
  obtain ⟨e, he⟩ : ∃ e, ExportPlan.ofSettings s.settings target = .error e := by
    obtain htarget | ⟨htarget, hpreset⟩ := h
    · exact ⟨.unknownTarget target, by simp only [ExportPlan.ofSettings, htarget]⟩
    · exact ⟨.unknownPreset s.settings.preset target,
        by simp only [ExportPlan.ofSettings, htarget, hpreset]⟩
  exact ⟨e, exportTo_error he⟩

theorem settings_exportWith : (s.exportWith p target f).2.settings = s.settings := by
  simp only [exportWith]
  split
  next => rfl
  next => split <;> rfl

end Single

/-! ## Calls -/

/-- A call of an exporter. -/
inductive Call where
  | exportTo (f : Forest Id) (target : String)
  | clear

/-- The answer to a call, which only an export has, and the exporter after it. -/
def call (s : Exporter) : Call → Option (Except ExportError String) × Exporter
  | .exportTo f target => (some (s.exportTo f target).1, (s.exportTo f target).2)
  | .clear => (none, s.clear)

/-- The answers to calls one after the other, and the exporter after them. -/
def run (s : Exporter) : List Call → List (Option (Except ExportError String)) × Exporter
  | [] => ([], s)
  | c :: cs => ((s.call c).1 :: (run (s.call c).2 cs).1, (run (s.call c).2 cs).2)

/-- The answer to a call under some settings when nothing is kept. -/
def Call.answer (s : Settings) : Call → Option (Except ExportError String)
  | .exportTo f target => some ((ExportPlan.ofSettings s target).map (·.render f))
  | .clear => none

/-- The designs and targets of the exports of a run that are not refused. -/
def exports (s : Settings) (calls : List Call) : Set (Forest Id × String) :=
  {e | .exportTo e.1 e.2 ∈ calls ∧ ∃ p, ExportPlan.ofSettings s e.2 = .ok p}

/-! ## What is kept -/

/-- Exports of finite designs whose digests tell them apart. -/
structure Distinct (used : Set (Forest Id × String)) : Prop where
  finite : ∀ e ∈ used, Requirement.finite.Met e.1
  digest : Set.InjOn (Digest.ofText .xxhash64) {k | ∃ e ∈ used, keyText e.2 e.1 = k}

/-- Every text that is kept is the export of a design to a target, both among the given ones,
and is kept under their digest. -/
def Faithful (used : Set (Forest Id × String)) (s : Exporter) : Prop :=
  ∀ c, s.cache = some c → c.algorithm = .xxhash64 ∧ ∀ entry ∈ c.entries,
    ∃ e ∈ used, ∃ p, ExportPlan.ofSettings s.settings e.2 = .ok p ∧
      entry = (Digest.ofText .xxhash64 (keyText e.2 e.1), p.render e.1)

variable {used : Set (Forest Id × String)} {s : Exporter}

/-- A plan is made for the target with the given name. -/
theorem exists_name_of_ofSettings {s : Settings} {target : String} {p : ExportPlan}
    (h : ExportPlan.ofSettings s target = .ok p) : ∃ t : Target, Choice.name t = target := by
  rw [ExportPlan.ofSettings] at h
  split at h
  next => cases h
  next ht => exact ⟨_, Choice.name_of_ofName? ht⟩
  next t _ ht => exact ⟨t, Choice.name_of_ofName? ht⟩

theorem Distinct.eq_of_digest (h : Distinct used) {e e' : Forest Id × String} (he : e ∈ used)
    (he' : e' ∈ used) {s : Settings} {p p' : ExportPlan}
    (hp : ExportPlan.ofSettings s e.2 = .ok p) (hp' : ExportPlan.ofSettings s e'.2 = .ok p')
    (hdigest : Digest.ofText .xxhash64 (keyText e.2 e.1) =
      Digest.ofText .xxhash64 (keyText e'.2 e'.1)) : e = e' := by
  have htext : keyText e.2 e.1 = keyText e'.2 e'.1 :=
    h.digest ⟨e, he, rfl⟩ ⟨e', he', rfl⟩ hdigest
  obtain ⟨t, ht⟩ := exists_name_of_ofSettings hp
  obtain ⟨t', ht'⟩ := exists_name_of_ofSettings hp'
  rw [← ht, ← ht'] at htext
  obtain ⟨hname, hdesign⟩ := keyText_inj (h.finite e he) (h.finite e' he') htext
  exact Prod.ext hdesign (by rw [← ht, ← ht', hname])

theorem faithful_ofSettings (used : Set (Forest Id × String)) (s : Settings) :
    Faithful used (ofSettings s) := by
  intro c hc
  rw [ofSettings] at hc
  split at hc
  next =>
    cases hc
    exact ⟨rfl, by simp [Cache.empty]⟩
  next => cases hc

theorem Faithful.clear (h : Faithful used s) : Faithful used s.clear := by
  intro c hc
  obtain ⟨c, hcache, rfl⟩ := Option.map_eq_some_iff.mp hc
  exact ⟨(h c hcache).1, by simp [Cache.clear]⟩

/-- An export answers with the page of the design, and only such pages are kept after it. -/
theorem Faithful.exportWith (h : Faithful used s) (hdistinct : Distinct used) {f : Forest Id}
    {target : String} {p : ExportPlan} (hused : (f, target) ∈ used)
    (hp : ExportPlan.ofSettings s.settings target = .ok p) :
    (s.exportWith p target f).1 = p.render f ∧ Faithful used (s.exportWith p target f).2 := by
  cases hcache : s.cache with
  | none =>
      have hplain : s.exportWith p target f = (p.render f, s) := by
        simp only [Exporter.exportWith, hcache]
      rw [hplain]
      exact ⟨rfl, h⟩
  | some c =>
      obtain ⟨halgorithm, hentries⟩ := h c hcache
      have hkey : c.keyOf (keyFields target f) = Digest.ofText .xxhash64 (keyText target f) := by
        rw [Cache.keyOf, halgorithm]
        rfl
      have hafter entry (hentry : entry ∈ (c.get (keyFields target f)).2.entries) :=
        hentries entry (Cache.mem_of_mem_get hentry)
      cases hget : c.get (keyFields target f) with
      | mk hit after =>
          have halgorithm' : after.algorithm = .xxhash64 :=
            calc after.algorithm
                = (c.get (keyFields target f)).2.algorithm := by rw [hget]
              _ = c.algorithm := Cache.algorithm_get
              _ = .xxhash64 := halgorithm
          rw [hget] at hafter
          cases hit with
          | some text =>
              -- the entry was kept for the same target and the same design
              have hmem := Cache.mem_of_get_eq_some (by rw [hget] : (c.get _).1 = some text)
              obtain ⟨e, he, p', hp', hentry⟩ := hentries _ hmem
              obtain ⟨hdigest, htext⟩ := Prod.mk.inj hentry
              obtain rfl : (f, target) = e :=
                hdistinct.eq_of_digest hused he hp hp' (hkey.symm.trans hdigest)
              obtain rfl : p = p' := Except.ok.inj (hp.symm.trans hp')
              rw [exportWith_hit hcache hget]
              refine ⟨htext, fun c' hc' => ?_⟩
              cases hc'
              exact ⟨halgorithm', hafter⟩
          | none =>
              rw [exportWith_miss hcache hget]
              refine ⟨rfl, fun c' hc' => ?_⟩
              cases hc'
              refine ⟨Cache.algorithm_set.trans halgorithm', fun entry hentry => ?_⟩
              rcases Cache.mem_of_mem_set hentry with hold | hnew
              · exact hafter entry hold
              · -- the new entry is the page of this call
                refine ⟨(f, target), hused, p, hp, hnew.trans ?_⟩
                rw [Cache.keyOf, halgorithm']
                rfl

theorem Faithful.call (h : Faithful used s) (hdistinct : Distinct used) {c : Call}
    (hused : ∀ f target p, c = .exportTo f target →
      ExportPlan.ofSettings s.settings target = .ok p → (f, target) ∈ used) :
    (s.call c).1 = c.answer s.settings ∧ Faithful used (s.call c).2 := by
  cases c with
  | clear => exact ⟨rfl, h.clear⟩
  | exportTo f target =>
      rw [Exporter.call, Call.answer]
      cases hp : ExportPlan.ofSettings s.settings target with
      | error e =>
          rw [exportTo_error hp]
          exact ⟨rfl, h⟩
      | ok p =>
          obtain ⟨htext, hkept⟩ := h.exportWith hdistinct (hused f target p rfl hp) hp
          rw [exportTo_ok hp]
          exact ⟨congrArg (some ∘ Except.ok) htext, hkept⟩

theorem settings_call (s : Exporter) (c : Call) : (s.call c).2.settings = s.settings := by
  cases c with
  | clear => rfl
  | exportTo f target =>
      rw [call]
      cases hp : ExportPlan.ofSettings s.settings target with
      | error e => rw [exportTo_error hp]
      | ok p =>
          rw [exportTo_ok hp]
          exact settings_exportWith

/-- Every call of a run is answered under the settings as if nothing were kept. -/
theorem Faithful.run (hdistinct : Distinct used) {calls : List Call} (h : Faithful used s)
    (hused : ∀ f target p, .exportTo f target ∈ calls →
      ExportPlan.ofSettings s.settings target = .ok p → (f, target) ∈ used) :
    (s.run calls).1 = calls.map (Call.answer s.settings) := by
  induction calls generalizing s with
  | nil => rfl
  | cons c cs ih =>
      obtain ⟨hanswer, hkept⟩ := h.call hdistinct (c := c) fun f target p hc hp =>
        hused f target p (by simp [hc]) hp
      have hrest := ih hkept fun f target p hmem hp =>
        hused f target p (List.mem_cons_of_mem c hmem) (by rwa [settings_call] at hp)
      rw [Exporter.run, hanswer, hrest, settings_call, List.map_cons]

theorem settings_run (s : Exporter) (calls : List Call) :
    (s.run calls).2.settings = s.settings := by
  induction calls generalizing s with
  | nil => rfl
  | cons c cs ih => exact (ih _).trans (settings_call s c)

/-- An exporter answers all calls of a run as one that keeps nothing does, and an export that
names something unknown is refused and leaves it as it is, with all that it keeps and counts. -/
theorem run_eq_uncached (s : Settings) (calls : List Call)
    (hfinite : ∀ f target, .exportTo f target ∈ calls → Requirement.finite.Met f)
    (hdigest : Set.InjOn (Digest.ofText .xxhash64)
      {k | ∃ e ∈ exports s calls, keyText e.2 e.1 = k}) :
    ((ofSettings s).run calls).1 = ((ofSettings { s with enableCache := false }).run calls).1 ∧
      ∀ f target, Unknown s target →
        ∃ e, ((ofSettings s).run calls).2.exportTo f target =
          (.error e, ((ofSettings s).run calls).2) := by
  have hdistinct : Distinct (exports s calls) := ⟨fun e he => hfinite e.1 e.2 he.1, hdigest⟩
  constructor
  · rw [(faithful_ofSettings _ s).run hdistinct fun f target p hmem hp => ⟨hmem, p, hp⟩,
      (faithful_ofSettings _ { s with enableCache := false }).run hdistinct
        fun f target p hmem hp => ⟨hmem, p, hp⟩]
    rfl
  · intro f target h
    exact exportTo_unknown (by rwa [settings_run])

/-- Two targets take turns in a cache for one export, which is cleared in between. -/
theorem run_eq_uncached_sample :
    let s : Settings := { cacheSize := 1 }
    let f : Forest Id := [.leaf "a" none (.text {})]
    let calls : List Call := [.exportTo f "html", .exportTo f "html", .exportTo f "css",
      .exportTo f "html", .clear, .exportTo f "css"]
    ((ofSettings s).run calls).1 = ((ofSettings { s with enableCache := false }).run calls).1 ∧
      ∃ e, ((ofSettings s).run calls).2.exportTo f "pdf" =
        (.error e, ((ofSettings s).run calls).2) := by
  intro s f calls
  have hcalls {g : Forest Id} {target : String} (hmem : .exportTo g target ∈ calls) :
      g = f ∧ (target = "html" ∨ target = "css") := by
    simp only [calls, List.mem_cons, Call.exportTo.injEq, reduceCtorEq, List.not_mem_nil,
      or_false, false_or] at hmem
    tauto
  have hdigest : Digest.ofText .xxhash64 (keyText "html" f) ≠
      Digest.ofText .xxhash64 (keyText "css" f) := by decide +kernel
  have hfinite : Requirement.finite.Met f :=
    Requirement.met_cons_iff.mpr
      ⟨⟨fun _ h => (by cases h), trivial⟩, Requirement.met_nil, Requirement.met_nil⟩
  have hall := run_eq_uncached s calls
    (fun g target hmem => (hcalls hmem).1 ▸ hfinite)
    (by
      rintro _ ⟨⟨g, t⟩, ⟨hmem, -⟩, rfl⟩ _ ⟨⟨g', t'⟩, ⟨hmem', -⟩, rfl⟩ heq
      obtain ⟨rfl, rfl | rfl⟩ := hcalls hmem <;> obtain ⟨rfl, rfl | rfl⟩ := hcalls hmem'
      · rfl
      · exact absurd heq hdigest
      · exact absurd heq.symm hdigest
      · rfl)
  exact ⟨hall.1, hall.2 f "pdf" (.inl (by decide))⟩

end Exporter

end PageDesign
