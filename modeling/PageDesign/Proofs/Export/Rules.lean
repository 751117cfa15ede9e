/-
# PageDesign.Proofs.Export.Rules -- a stylesheet has a rule for every container

A stylesheet is made in one walk through a design (`Draft.visit`).  The rule for a container is
written where the container is met, and a movement is noted where it is met first; the keyframes of
the movements are written when the walk is over.  What is noted after a part of the walk are the
movements of that part, in the order of their first use (`InOrderOfUse`), and every step keeps this
(`InOrderOfUse.note`).

`stylesheet_exact` says what is written, for every design.  It is told by the containers and the
components with a movement, in the order of the walk, so that other components may come and go.
-/
import Mathlib.Data.List.Induction
import PageDesign.Export.Stylesheet
import PageDesign.Proofs.Forest.Comprise

namespace PageDesign.Stylesheet

variable {ι : Type}

/-! ## What is written -/

/-- Lines with their ends. -/
def text (ls : List String) : String := String.join (ls.map (· ++ "\n"))

theorem text_append (ls ms : List String) : text (ls ++ ms) = text ls ++ text ms := by
  rw [text, List.map_append, String.join_append]
  rfl

/-- The rule for a container as it is written.  It is selected by the first eight digits of the
digest of its identity. -/
def ruleText (id : Id) (c : Container) : String :=
  ".container-" ++ String.ofList ((Digest.ofText .xxhash64 id).toList.take 8) ++ " \x7b\n" ++
    text ((Style.container c).map fun d => "  " ++ d.text) ++ "\x7d\n\n"

/-- The keyframes of a movement as they are written. -/
def keyframesText (m : AnimationType) : String :=
  "@keyframes " ++ m.keyframes ++ " \x7b\n" ++ text ((stages m).map ("  " ++ ·)) ++ "\x7d\n\n"

/-- What a container is, with its identity. -/
def container? : Component ι → Option (ι × Container)
  | .branch i _ (.container c) _ => some (i, c)
  | _ => none

theorem text_block (title : String) (ls : List String) :
    text ([title ++ " \x7b"] ++ ls ++ ["\x7d", ""]) =
      title ++ " \x7b\n" ++ text ls ++ "\x7d\n\n" := by
  have hopen : " \x7b" ++ "\n" = " \x7b\n" := rfl
  have hfirst : text [title ++ " \x7b"] = title ++ " \x7b\n" := by
    rw [text, List.map_singleton, String.join_cons, String.join_nil, String.append_empty,
      String.append_assoc, hopen]
  have hlast : text ["\x7d", ""] = "\x7d\n\n" := by decide
  rw [text_append, text_append, hfirst, hlast]

theorem text_rule (id : Id) (c : Container) : text (rule id c) = ruleText id c := by
  have hclass : "." ++ containerClass id =
      ".container-" ++ String.ofList ((Digest.ofText .xxhash64 id).toList.take 8) := by
    rw [containerClass, ← String.append_assoc]
    rfl
  rw [rule, text_block, hclass, ruleText]

theorem text_keyframes (m : AnimationType) : text (keyframes m) = keyframesText m :=
  text_block ("@keyframes " ++ m.keyframes) _

theorem text_rules (cs : List (Component Id)) :
    text (cs.flatMap ruleOf) =
      String.join ((cs.filterMap container?).map fun x => ruleText x.1 x.2) := by
  induction cs with
  | nil => rfl
  | cons c cs ih =>
      rw [List.flatMap_cons, text_append, ih, List.filterMap_cons]
      cases c with
      | leaf i a l => exact String.empty_append
      | branch i a fr ds =>
          cases fr with
          | card card => exact String.empty_append
          | container c =>
              simp only [container?, List.map_cons, String.join_cons]
              exact congrArg (· ++ _) (text_rule i c)

theorem render_eq (f : Forest Id) :
    render f = text preamble ++
      String.join ((f.nodes.filterMap container?).map fun x => ruleText x.1 x.2) ++
        String.join ((movements f).map keyframesText) := by
  have hkeyframes (ms : List AnimationType) :
      text (ms.flatMap keyframes) = String.join (ms.map keyframesText) := by
    induction ms with
    | nil => rfl
    | cons m ms ih =>
        rw [List.flatMap_cons, text_append, ih, text_keyframes, List.map_cons, String.join_cons]
  show text (lines f) = _
  rw [lines, text_append, text_append, text_rules, hkeyframes]

/-! ## The digits of a class -/

/-- A digit of base 16 in lower case. -/
def IsHexDigit (c : Char) : Prop := c ∈ "0123456789abcdef".toList

instance (c : Char) : Decidable (IsHexDigit c) := inferInstanceAs (Decidable (_ ∈ _))

/-- The digest of an identity has sixteen digits. -/
theorem digits_ofText (id : Id) : (Digest.ofText .xxhash64 id).toList.length = 16 ∧
    ∀ c ∈ (Digest.ofText .xxhash64 id).toList, IsHexDigit c := by
  have hdigit : ∀ k < 16, IsHexDigit (Text.hexDigit k) := by decide
  rw [Digest.ofText, Digest.ofBytes, String.toList_ofList]
  exact ⟨Text.length_hexDigits _ _, Text.forall_mem_hexDigits hdigit _ _⟩

/-! ## The walk -/

/-- A movement is noted where it is met first. -/
def note (used : List AnimationType) : Option AnimationType → List AnimationType
  | some m => if m ∈ used then used else used ++ [m]
  | none => used

theorem mem_note {used : List AnimationType} {o : Option AnimationType} {m : AnimationType} :
    m ∈ note used o ↔ m ∈ used ∨ o = some m := by
  cases o with
  | none => simp [note]
  | some k =>
      rw [note, Option.some_inj]
      split
      next hk =>
        refine ⟨.inl, ?_⟩
        rintro (hm | rfl)
        · exact hm
        · exact hk
      next => rw [List.mem_append, List.mem_singleton, eq_comm (a := m)]

/-- A stylesheet in the making: the lines so far and the movements that were noted. -/
structure Draft where
  lines : List String
  used : List AnimationType

namespace Draft

/-- A stylesheet before the walk. -/
def start : Draft := ⟨preamble, []⟩

/-- A component is met. -/
def visit (s : Draft) (c : Component Id) : Draft :=
  ⟨s.lines ++ ruleOf c, note s.used (movement? c)⟩

/-- The lines when the walk is over. -/
def finish (s : Draft) : List String := s.lines ++ s.used.flatMap keyframes

end Draft

/-- The movements that are noted on the way through components. -/
def noted (cs : List (Component ι)) : List AnimationType :=
  cs.foldl (fun used c => note used (movement? c)) []

theorem noted_concat (cs : List (Component ι)) (c : Component ι) :
    noted (cs ++ [c]) = note (noted cs) (movement? c) := by
  rw [noted, List.foldl_append]
  rfl

theorem foldl_visit (s : Draft) (cs : List (Component Id)) :
    cs.foldl Draft.visit s = ⟨s.lines ++ cs.flatMap ruleOf,
      cs.foldl (fun used c => note used (movement? c)) s.used⟩ := by
  induction cs generalizing s with
  | nil => rw [List.foldl_nil, List.foldl_nil, List.flatMap_nil, List.append_nil]
  | cons c cs ih =>
      rw [List.foldl_cons, ih, List.foldl_cons, List.flatMap_cons, ← List.append_assoc]
      rfl

theorem eraseDups_concat {α : Type} [DecidableEq α] (l : List α) (x : α) :
    (l ++ [x]).eraseDups = if x ∈ l then l.eraseDups else l.eraseDups ++ [x] := by
  have hone : [x].eraseDups = [x] := rfl
  rw [List.eraseDups_append]
  by_cases hx : x ∈ l
  · simp [hx, List.removeAll]
  · simp [hx, List.removeAll, hone]

/-- What is noted is each movement once. -/
theorem noted_eq (cs : List (Component ι)) : noted cs = (cs.filterMap movement?).eraseDups := by
  induction cs using List.reverseRecOn with
  | nil => rfl
  | append_singleton cs c ih =>
      rw [noted_concat, List.filterMap_append, ih]
      cases hc : movement? c with
      | none => simp [note, hc]
      | some m =>
          have hone : [c].filterMap movement? = [m] := by simp [hc]
          rw [hone, eraseDups_concat, note]
          simp only [List.mem_eraseDups]

/-! ## The order of first use -/

/-- The position of the first component with a movement; the number of components if there is
none. -/
def firstUse (cs : List (Component ι)) (m : AnimationType) : Nat :=
  cs.findIdx fun c => movement? c = some m

/-- The movements of components, each once, in the order of their first use. -/
structure InOrderOfUse (cs : List (Component ι)) (ms : List AnimationType) : Prop where
  mem_iff : ∀ m, m ∈ ms ↔ ∃ c ∈ cs, movement? c = some m
  order : ms.Pairwise fun m m' => firstUse cs m < firstUse cs m'

theorem firstUse_lt_length_iff {cs : List (Component ι)} {m : AnimationType} :
    firstUse cs m < cs.length ↔ ∃ c ∈ cs, movement? c = some m := by
  rw [firstUse, List.findIdx_lt_length]
  simp only [decide_eq_true_eq]

theorem firstUse_append (cs ds : List (Component ι)) (m : AnimationType) :
    firstUse (cs ++ ds) m =
      if firstUse cs m < cs.length then firstUse cs m else firstUse ds m + cs.length :=
  List.findIdx_append

namespace InOrderOfUse

variable {cs : List (Component ι)} {ms : List AnimationType}

theorem nodup (h : InOrderOfUse cs ms) : ms.Nodup :=
  h.order.imp fun hlt heq => by
    subst heq
    exact Nat.lt_irrefl _ hlt

theorem empty : InOrderOfUse ([] : List (Component ι)) [] where
  mem_iff _ := by simp
  order := .nil

/-- What was noted stays in order when a component is met. -/
theorem note (h : InOrderOfUse cs ms) (c : Component ι) :
    InOrderOfUse (cs ++ [c]) (note ms (movement? c)) := by
  have hused {m : AnimationType} (hm : m ∈ ms) :
      firstUse cs m < cs.length ∧ firstUse (cs ++ [c]) m = firstUse cs m := by
    have hlt : firstUse cs m < cs.length := firstUse_lt_length_iff.mpr ((h.mem_iff m).mp hm)
    exact ⟨hlt, by rw [firstUse_append, if_pos hlt]⟩
  have hkept : ms.Pairwise fun m m' => firstUse (cs ++ [c]) m < firstUse (cs ++ [c]) m' := by
    refine h.order.imp_of_mem fun {m m'} hm hm' hlt => ?_
    rwa [(hused hm).2, (hused hm').2]
  constructor
  case mem_iff =>
    intro m
    rw [mem_note, h.mem_iff]
    simp [or_and_right, exists_or]
  case order =>
    cases hc : movement? c with
    | none => exact hkept
    | some k =>
        rw [Stylesheet.note]
        split
        next => exact hkept
        next hk =>
          -- a movement that was not noted is used behind all that were
          have hnew : cs.length ≤ firstUse (cs ++ [c]) k := by
            rw [firstUse_append, if_neg (mt firstUse_lt_length_iff.mp (mt (h.mem_iff k).mpr hk))]
            exact Nat.le_add_left _ _
          refine List.pairwise_append.mpr ⟨hkept, List.pairwise_singleton _ _, ?_⟩
          intro m hm m' hm'
          rw [List.mem_singleton.mp hm', (hused hm).2]
          exact Nat.lt_of_lt_of_le (hused hm).1 hnew

/-- What is noted on the way through components is in order. -/
theorem noted (cs : List (Component ι)) : InOrderOfUse cs (noted cs) := by
  induction cs using List.reverseRecOn with
  | nil => exact .empty
  | append_singleton cs c ih =>
      rw [noted_concat]
      exact ih.note c

end InOrderOfUse

theorem movements_eq (f : Forest ι) : movements f = noted f.nodes := (noted_eq f.nodes).symm

/-- The loop of the walk ends with the lines of the stylesheet. -/
theorem finish_foldl_visit (f : Forest Id) :
    (f.nodes.foldl Draft.visit Draft.start).finish = lines f := by
  rw [foldl_visit, Draft.finish, lines, movements_eq]
  rfl

/-! ## Components without styling -/

/-- A component that has a say in a stylesheet: a container, or a component with a movement. -/
def IsStyled (c : Component ι) : Prop := c.kind = .container ∨ (movement? c).isSome = true

instance (c : Component ι) : Decidable (IsStyled c) := inferInstanceAs (Decidable (_ ∨ _))

/-- The components of a forest that have a say in a stylesheet, without their children. -/
def styled (f : Forest ι) : List (Component ι) := f.parts.filter (IsStyled ·)

/-- Trees without containers and without movements. -/
def Unstyled (f : Forest ι) : Prop :=
  ∀ c ∈ f.nodes, c.kind ≠ .container ∧ movement? c = none

theorem filterMap_styled {α : Type} {g : Component ι → Option α} (hbare : ∀ c, g c.bare = g c)
    (hnone : ∀ c, ¬ IsStyled c → g c = none) (f : Forest ι) :
    (styled f).filterMap g = f.nodes.filterMap g := by
  have hparts : f.parts.filterMap g = f.nodes.filterMap g := by
    rw [Forest.parts, List.filterMap_map]
    exact List.filterMap_congr fun c _ => hbare c
  rw [styled, List.filterMap_filter, ← hparts]
  refine List.filterMap_congr fun c _ => ?_
  split
  next => rfl
  next hc => exact (hnone c (by simpa using hc)).symm

theorem container_bare (c : Component ι) : container? c.bare = container? c := by
  cases c with
  | leaf i a l => rfl
  | branch i a fr cs => cases fr <;> rfl

theorem movement_bare (c : Component ι) : movement? c.bare = movement? c := by
  cases c <;> rfl

theorem container_of_not_isStyled (c : Component ι) (h : ¬ IsStyled c) : container? c = none := by
  cases c with
  | leaf i a l => rfl
  | branch i a fr cs =>
      cases fr with
      | card card => rfl
      | container c => exact absurd (.inl rfl) h

theorem movement_of_not_isStyled (c : Component ι) (h : ¬ IsStyled c) : movement? c = none := by
  rw [← Option.not_isSome_iff_eq_none]
  exact fun hm => h (.inr hm)

/-- A stylesheet is told by the components that have a say in it. -/
theorem render_congr {f g : Forest Id} (h : styled f = styled g) : render f = render g := by
  have hcontainers : f.nodes.filterMap container? = g.nodes.filterMap container? := by
    rw [← filterMap_styled container_bare container_of_not_isStyled f, h,
      filterMap_styled container_bare container_of_not_isStyled]
  have hmovements : f.nodes.filterMap movement? = g.nodes.filterMap movement? := by
    rw [← filterMap_styled movement_bare movement_of_not_isStyled f, h,
      filterMap_styled movement_bare movement_of_not_isStyled]
  rw [render_eq, render_eq, hcontainers, movements, movements, hmovements]

/-! ## Edits without styling -/

theorem styled_append (f g : Forest ι) : styled (f ++ g) = styled f ++ styled g := by
  rw [styled, Forest.parts_append, List.filter_append]
  rfl

theorem styled_of_unstyled {f : Forest ι} (h : Unstyled f) : styled f = [] := by
  refine List.filter_eq_nil_iff.mpr fun c hc => ?_
  obtain ⟨d, hd, rfl⟩ := List.mem_map.mp hc
  obtain ⟨hkind, hmovement⟩ := h d hd
  have hbare : d.bare.kind = d.kind := by cases d <;> rfl
  simp [IsStyled, movement_bare, hbare, hkind, hmovement]

/-- An edit of siblings that leaves what is styled among them leaves it in the forest. -/
theorem styled_editSequence {path : List Nat} {f s : Forest ι} {edit : Forest ι → Forest ι}
    (h : Forest.Leads path f s) (hs : styled (edit s) = styled s) :
    styled (Forest.editSequence edit path f) = styled f := by
  obtain ⟨pre, post, hframe⟩ := Forest.parts_editSequence h
  have hself := hframe fun s => s
  rw [Forest.editSequence_self h] at hself
  rw [styled, styled] at hs
  rw [styled, styled, hframe, hself]
  simp only [List.filter_append, hs]

section Edits

variable {f g : Forest Id} {new : Component Id}

theorem styled_insertClamped (hnew : Unstyled [new]) (index : Int) (s : Forest Id) :
    styled (Forest.insertClamped index new s) = styled s := by
  have hcons (l r : Forest Id) : styled (l ++ new :: r) = styled (l ++ r) := by
    rw [← List.singleton_append, styled_append, styled_append, styled_of_unstyled hnew,
      List.nil_append, styled_append]
  rw [Forest.insertClamped, hcons, List.take_append_drop]

theorem render_insertChildAt (hnew : Unstyled [new]) {parent : Option Id} {index : Int}
    (h : f.insertChildAt? parent index new = some g) : render g = render f := by
  apply render_congr
  cases parent with
  | none =>
      cases h
      exact styled_insertClamped hnew index f
  | some id =>
      obtain ⟨a, ha, rfl⟩ := Option.map_eq_some_iff.mp h
      obtain ⟨b, -, hb, -, hbranch⟩ := Forest.branch_eq_some ha
      exact styled_editSequence (hb.leads hbranch) (styled_insertClamped hnew index _)

theorem styled_concat (hnew : Unstyled [new]) (s : Forest Id) :
    styled (s ++ [new]) = styled s := by
  rw [styled_append, styled_of_unstyled hnew, List.append_nil]

theorem render_addChild (hnew : Unstyled [new]) {parent : Id}
    (h : f.addChild? parent new = some g) : render g = render f := by
  obtain ⟨a, ha, rfl⟩ := Option.map_eq_some_iff.mp h
  obtain ⟨b, -, hb, -, hbranch⟩ := Forest.branch_eq_some ha
  exact render_congr (styled_editSequence (hb.leads hbranch) (styled_concat hnew _))

theorem render_remove {id : Id} {c : Component Id} (hc : Unstyled [c])
    (h : f.remove? id = some (c, g)) : render g = render f := by
  obtain ⟨pre, post, hf, hg⟩ := Forest.parts_remove h
  have hnone : (Forest.parts [c]).filter (IsStyled ·) = [] := styled_of_unstyled hc
  apply render_congr
  rw [styled, styled, hf, hg]
  simp only [List.filter_append, hnone, List.append_nil]

end Edits

/-! ## The law -/

/-- A stylesheet is the fixed rules, then a rule for every container wherever it stands, in the
order of the design, then the keyframes of every movement in use, each once and in the order of
their first use.  The walk with its two collections makes these lines.  A rule is selected by eight
of the sixteen digits of a digest.  Designs in which the same containers and movements come in the
same order have the same stylesheet, so that a tree without any can be put in anywhere or taken
out. -/
theorem stylesheet_exact (f : Forest Id) :
    let cs := (Forest.preorder 0 f).map (·.1)
    render f = text preamble ++
        String.join ((cs.filterMap container?).map fun x => ruleText x.1 x.2) ++
          String.join ((movements f).map keyframesText) ∧
      render f = text (cs.foldl Draft.visit Draft.start).finish ∧
      InOrderOfUse cs (movements f) ∧ (movements f).Nodup ∧ .none ∉ movements f ∧
      (∀ id : Id, (Digest.ofText .xxhash64 id).toList.length = 16 ∧
        ∀ c ∈ (Digest.ofText .xxhash64 id).toList, IsHexDigit c) ∧
      (∀ g, styled g = styled f → render g = render f) ∧
      (∀ new, Unstyled [new] → render (f.addRoot new) = render f ∧
        (∀ parent g, f.addChild? parent new = some g → render g = render f) ∧
        ∀ parent index g, f.insertChildAt? parent index new = some g → render g = render f) ∧
      ∀ id c g, f.remove? id = some (c, g) → Unstyled [c] → render g = render f := by
  intro cs
  have hcs : cs = f.nodes := (Forest.nodes_eq 0 f).symm
  have hused : InOrderOfUse cs (movements f) := by
    rw [movements_eq, hcs]
    exact InOrderOfUse.noted f.nodes
  refine ⟨?_, ?_, hused, hused.nodup, fun h => ?_, digits_ofText, fun g => render_congr,
    fun new hnew => ⟨render_congr (styled_concat hnew f), fun _ _ => render_addChild hnew,
      fun _ _ _ => render_insertChildAt hnew⟩, fun _ _ _ h hc => render_remove hc h⟩
  · rw [hcs]
    exact render_eq f
  · rw [hcs, finish_foldl_visit]
    rfl
  · obtain ⟨c, -, hc⟩ := (hused.mem_iff .none).mp h
    simpa [movement?] using (Option.filter_eq_some_iff.mp hc).2

/-- A picture comes into a card, in front of a container and a button that pulse, and a text leaves
it. -/
theorem stylesheet_exact_sample :
    let pulse : Animation := { movement := .pulse }
    let text : Component Id := .leaf "t" none (.text {})
    let image : Component Id := .leaf "i" none (.image {})
    let container : Component Id := .branch "c" (some pulse) (.container {}) []
    let button : Component Id := .leaf "b" (some pulse) (.button {})
    let f : Forest Id := [.branch "a" none (.card {}) [text, container, button]]
    let g : Forest Id := [.branch "a" none (.card {}) [text, image, container, button]]
    let h : Forest Id := [.branch "a" none (.card {}) [container, button]]
    Unstyled [image] ∧ f.insertChildAt? (some "a") 1 image = some g ∧ render g = render f ∧
      Unstyled [text] ∧ f.remove? "t" = some (text, h) ∧ render h = render f ∧
      movements f = [.pulse] := by
  intro pulse text image container button f g h
  have himage : Unstyled [image] := by
    show ∀ c ∈ Forest.nodes [image], c.kind ≠ .container ∧ movement? c = none
    decide +kernel
  have htext : Unstyled [text] := by
    show ∀ c ∈ Forest.nodes [text], c.kind ≠ .container ∧ movement? c = none
    decide +kernel
  have hinsert : f.insertChildAt? (some "a") 1 image = some g := rfl
  have hremove : f.remove? "t" = some (text, h) := rfl
  obtain ⟨-, -, -, -, -, -, -, hcoming, hleaving⟩ := stylesheet_exact f
  exact ⟨himage, hinsert, (hcoming image himage).2.2 (some "a") 1 g hinsert, htext, hremove,
    hleaving "t" text h hremove htext, by decide +kernel⟩

end PageDesign.Stylesheet
