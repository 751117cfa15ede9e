/-
# PageDesign.Proofs.Export.Anonymous -- what an export tells of identities

An export shows a design, and identities are not part of what it shows: two designs that are the
same apart from them have the same export to every kind of markup, to the outline and to the type
declarations.  A stylesheet has a class for every container, whose name is made from the identity.
It is a text with gaps for these names, and the text is the same (`ExportsAlike`).

Properties of a custom component are not shown either.  `Component.shown` leaves both away, and
all exports are followed through it: the steps through what is shown are those through the design
(`steps_shownForest`), and no fragment looks at what is not shown.
-/
import PageDesign.Proofs.Document.Clipboard
import PageDesign.Proofs.Document.Payload
import PageDesign.Proofs.Export.Markup
import PageDesign.Proofs.Export.Rules

namespace PageDesign

variable {ι κ : Type}

/-! ## What is shown -/

/-- A leaf as it is shown: the properties of a custom component are not. -/
def Leaf.shown : Leaf → Leaf
  | .custom c => .custom { c with props := [] }
  | l => l

namespace Component

mutual

/-- A component as it is shown: identities are not. -/
def shown : Component ι → Component Unit
  | leaf _ a l => leaf () a l.shown
  | branch _ a f cs => branch () a f (shownForest cs)

/-- A forest as it is shown. -/
def shownForest : Forest ι → Forest Unit
  | [] => []
  | c :: cs => shown c :: shownForest cs

end

theorem children_shown (c : Component ι) : c.shown.children = shownForest c.children := by
  cases c <;> rfl

theorem shownForest_eq_map (f : Forest ι) : shownForest f = f.map shown := by
  induction f with
  | nil => rfl
  | cons c cs ih => rw [shownForest, ih, List.map_cons]

/-- What is shown does not depend on identities. -/
theorem shownForest_mapForest (g : ι → κ) (f : Forest ι) :
    shownForest (mapForest g f) = shownForest f := by
  induction f using Forest.induction with
  | nil => rfl
  | cons c cs ihc ihcs =>
      have hc : (c.map g).shown = c.shown := by
        cases c with
        | leaf i a l => rfl
        | branch i a fr ds => exact congrArg (branch () a fr) ihc
      rw [mapForest, shownForest, shownForest, hc, ihcs]

theorem shownForest_of_forget_eq {f : Forest ι} {g : Forest κ} (h : forget f = forget g) :
    shownForest f = shownForest g := by
  rw [← shownForest_mapForest (fun _ => ()) f, ← shownForest_mapForest (fun _ => ()) g]
  exact congrArg shownForest h

end Component

open Component (shownForest)
open Json (IntegersTaken)
open Requirement (acceptable)

namespace Forest

theorem nodes_shownForest (f : Forest ι) : nodes (shownForest f) = f.nodes.map Component.shown := by
  induction f using Forest.induction with
  | nil => rw [shownForest, nodes_nil, nodes_nil, List.map_nil]
  | cons c cs ihc ihcs =>
      rw [shownForest, nodes_cons, nodes_cons, Component.children_shown, ihc, ihcs, List.map_cons,
        List.map_append]

/-- A step as it is shown. -/
def Event.shown (e : Event ι) : Event Unit := ⟨e.kind, e.node.shown, e.depth⟩

theorem steps_shownForest (d : Nat) (f : Forest ι) :
    steps d (shownForest f) = (steps d f).map Event.shown := by
  induction f using Forest.induction generalizing d with
  | nil => rfl
  | cons c cs ihc ihcs =>
      have hc : treeSteps d c.shown = (treeSteps d c).map Event.shown := by
        cases c with
        | leaf i a l => rfl
        | branch i a fr ds =>
            have hds : steps (d + 1) (shownForest ds) = (steps (d + 1) ds).map Event.shown :=
              ihc (d + 1)
            rw [Component.shown, treeSteps, treeSteps, hds, List.map_cons, List.map_append]
            rfl
      rw [shownForest, steps, steps, hc, ihcs, List.map_append]

theorem events_shownForest (f : Forest ι) :
    (shownForest f).events = f.events.map Event.shown := by
  rw [events_eq, events_eq, steps_shownForest]

/-- What is made from the steps one by one is made from the steps as they are shown, if nothing
else is looked at. -/
theorem flatMap_events_shownForest {α : Type} {step : Event Unit → List α}
    {step' : Event ι → List α} (h : ∀ e, step e.shown = step' e) (f : Forest ι) :
    (shownForest f).events.flatMap step = f.events.flatMap step' := by
  rw [events_shownForest, List.flatMap_map]
  simp only [h]

end Forest

/-! ## Markup and outlines -/

/-- Markup that does not look at what is not shown of a leaf. -/
def Dialect.OfShown (d : Dialect) : Prop := ∀ a l, d.leaf a l.shown = d.leaf a l

theorem Dialect.OfShown.render {d : Dialect} (h : d.OfShown) (width : Int) (f : Forest ι) :
    d.render width (shownForest f) = d.render width f := by
  have hfragment (e : Forest.Event ι) : d.fragment e.shown = d.fragment e := by
    obtain ⟨kind, node, depth⟩ := e
    cases node with
    | leaf i a l => cases kind <;> exact h a l
    | branch i a fr cs => cases kind <;> rfl
  have hbody : d.body (shownForest f) = d.body f :=
    Forest.flatMap_events_shownForest (fun e => by rw [hfragment]; rfl) f
  rw [Dialect.render, Dialect.render, hbody]

/-- All kinds of markup show only what is shown. -/
theorem ExportPlan.ofShown_of_dialect {p : ExportPlan} {d : Dialect} (h : p.dialect? = some d) :
    d.OfShown := by
  obtain ⟨target, preset, width⟩ := p
  intro a l
  cases target <;> cases h <;> cases l <;> rfl

namespace Outline

theorem entry_shown (c : Component ι) : entry c.shown = entry c := by
  cases c with
  | leaf i a l => cases l <;> rfl
  | branch i a f cs =>
      rw [Component.shown, entry, entry, Component.shownForest_eq_map, List.length_map]

theorem render_shownForest (f : Forest ι) : render (shownForest f) = render f := by
  have hstep (e : Forest.Event ι) : step e.shown = step e := by
    obtain ⟨kind, node, depth⟩ := e
    cases kind <;> simp only [step, Forest.Event.shown, bullets, entry_shown]
  have hsection (c : Component ι) (i : Nat) : rootSection c.shown i = rootSection c i := by
    have hevents := Forest.flatMap_events_shownForest hstep [c]
    rw [shownForest, shownForest] at hevents
    rw [rootSection, hevents, rootSection]
  have hlines : lines (shownForest f) = lines f := by
    rw [lines, lines, Component.shownForest_eq_map, List.zipIdx_map, List.flatMap_map]
    simp only [Prod.map, hsection, id]
  rw [render, render, hlines]

end Outline

/-! ## Texts with gaps -/

/-- A part of a text: words, or a gap for a name. -/
inductive Piece where
  | words (s : String)
  | gap
  deriving DecidableEq, Repr

namespace Piece

/-- The number of gaps. -/
def gaps (ps : List Piece) : Nat := ps.count .gap

/-- A text with names in its gaps, one after the other. -/
def fill : List Piece → List String → String
  | [], _ => ""
  | .words s :: ps, names => s ++ fill ps names
  | .gap :: ps, [] => fill ps []
  | .gap :: ps, name :: names => name ++ fill ps names

theorem gaps_append (ps qs : List Piece) : gaps (ps ++ qs) = gaps ps + gaps qs :=
  List.count_append

theorem fill_append {ps : List Piece} {names : List String} (h : gaps ps = names.length)
    (qs : List Piece) (more : List String) :
    fill (ps ++ qs) (names ++ more) = fill ps names ++ fill qs more := by
  induction ps generalizing names with
  | nil =>
      cases names with
      | nil => rw [fill, String.empty_append]; rfl
      | cons name names => cases h
  | cons p ps ih =>
      cases p with
      | words s =>
          have hrest : gaps ps = names.length := by simpa [gaps] using h
          rw [List.cons_append, fill, fill, ih hrest, String.append_assoc]
      | gap =>
          cases names with
          | nil => simp [gaps] at h
          | cons name names =>
              have hrest : gaps ps = names.length := by simpa [gaps] using h
              rw [List.cons_append, List.cons_append, fill, fill, ih hrest, String.append_assoc]

end Piece

/-! ## Stylesheets -/

namespace Stylesheet

open Piece (fill gaps)

/-- The identity of a container. -/
def containerId? : Component ι → Option ι
  | .branch i _ (.container _) _ => some i
  | _ => none

/-- The class names of all containers, in the order of a walk. -/
def classNames (f : Forest Id) : List String := (f.nodes.filterMap containerId?).map containerClass

/-- The rule for a component, with a gap for the name of its class. -/
def rulePieces : Component ι → List Piece
  | .branch _ _ (.container c) _ =>
    [.words ".", .gap, .words (" \x7b\n" ++
      text ((Style.container c).map (fun d => "  " ++ d.text) ++ ["\x7d", ""]))]
  | _ => []

/-- A stylesheet, with gaps for the names of classes. -/
def pieces (f : Forest ι) : List Piece :=
  .words (text preamble) :: (f.nodes.flatMap rulePieces ++
    [.words (text ((movements f).flatMap keyframes))])

/-- What is not shown has no say in a stylesheet but for the names. -/
theorem pieces_shownForest (f : Forest ι) : pieces (shownForest f) = pieces f := by
  have hrule (c : Component ι) : rulePieces c.shown = rulePieces c := by
    cases c with
    | leaf i a l => rfl
    | branch i a fr cs => cases fr <;> rfl
  have hmovement (c : Component ι) : movement? c.shown = movement? c := by cases c <;> rfl
  have hmovements : movements (shownForest f) = movements f := by
    rw [movements, movements, Forest.nodes_shownForest, List.filterMap_map]
    simp only [Function.comp_def, hmovement]
  rw [pieces, pieces, hmovements, Forest.nodes_shownForest, List.flatMap_map]
  simp only [hrule]

theorem fill_rulePieces_container (i : Id) (a : Option Animation) (c : Container)
    (cs : Forest Id) :
    fill (rulePieces (.branch i a (.container c) cs)) [containerClass i] = text (rule i c) := by
  have hline (s : String) : text [s] = s ++ "\n" := by
    rw [text, List.map_singleton, String.join_cons, String.join_nil, String.append_empty]
  rw [rule, List.append_assoc, text_append, hline, rulePieces, fill, fill, fill, fill]
  simp only [String.append_assoc, String.append_empty]
  rfl

/-- The rules of components have a gap for every container, and are the rules with the names in
these gaps. -/
theorem fill_rulePieces (cs : List (Component Id)) :
    gaps (cs.flatMap rulePieces) = ((cs.filterMap containerId?).map containerClass).length ∧
      fill (cs.flatMap rulePieces) ((cs.filterMap containerId?).map containerClass) =
        text (cs.flatMap ruleOf) := by
  induction cs with
  | nil => exact ⟨rfl, rfl⟩
  | cons c cs ih =>
      cases c with
      | leaf i a l => exact ih
      | branch i a fr ds =>
          cases fr with
          | card card => exact ih
          | container c =>
              obtain ⟨hgaps, hfill⟩ := ih
              constructor
              · rw [List.flatMap_cons, Piece.gaps_append, hgaps, Nat.add_comm]
                rfl
              · rw [List.flatMap_cons, List.flatMap_cons, text_append, ← hfill]
                show fill (_ ++ _) ([containerClass i] ++ _) = _
                rw [Piece.fill_append rfl, fill_rulePieces_container]
                rfl

/-- A stylesheet has a gap for every container, and is the text with the names in these gaps. -/
theorem render_eq_fill (f : Forest Id) :
    gaps (pieces f) = (classNames f).length ∧ render f = fill (pieces f) (classNames f) := by
  obtain ⟨hgaps, hfill⟩ := fill_rulePieces f.nodes
  constructor
  · have hends : gaps (pieces f) = gaps (f.nodes.flatMap rulePieces) := by
      simp [pieces, gaps]
    rw [hends, hgaps, classNames]
  · have htail : fill [.words (text ((movements f).flatMap keyframes))] [] =
        text ((movements f).flatMap keyframes) := String.append_empty
    rw [pieces, fill, ← List.append_nil (classNames f), classNames, Piece.fill_append hgaps, hfill,
      htail, ← text_append, ← text_append, ← List.append_assoc]
    rfl

end Stylesheet

/-! ## Exports -/

/-- The targets that never name a component. -/
def Target.nameless : List Target := Target.markup ++ [.typescript, .markdown]

/-- Two designs have the same exports but for the names of classes. -/
structure ExportsAlike (f g : Forest Id) : Prop where
  /-- This is so of every width of a level and of every preset. -/
  text : ∀ p : ExportPlan, p.target ∈ Target.nameless → p.render f = p.render g
  /-- There is one text, and the names of the classes of containers stand in its gaps. -/
  stylesheet : ∃ ps : List Piece,
    Piece.gaps ps = (Stylesheet.classNames f).length ∧
    Piece.gaps ps = (Stylesheet.classNames g).length ∧
    ∀ p : ExportPlan, p.target = .css →
      p.render f = Piece.fill ps (Stylesheet.classNames f) ∧
      p.render g = Piece.fill ps (Stylesheet.classNames g)

/-- Properties that are hushed were not shown. -/
theorem Component.shownForest_hushForest (f : Forest ι) :
    shownForest (hushForest f) = shownForest f := by
  induction f using Forest.induction with
  | nil => rfl
  | cons c cs ihc ihcs =>
      have hc : c.hush.shown = c.shown := by
        cases c with
        | leaf i a l => cases l <;> rfl
        | branch i a fr ds => exact congrArg (branch () a fr) ihc
      rw [hushForest, shownForest, shownForest, hc, ihcs]

/-- Designs that are shown alike have the same exports. -/
theorem exportsAlike_of_shown_eq {f g : Forest Id} (h : shownForest f = shownForest g) :
    ExportsAlike f g := by
  constructor
  case text =>
    intro p hp
    cases hd : p.dialect? with
    | some d =>
        have hshown := ExportPlan.ofShown_of_dialect hd
        rw [ExportPlan.render, ExportPlan.render, hd]
        show d.render _ f = d.render _ g
        rw [← hshown.render, h, hshown.render]
    | none =>
        have houtline : Outline.render f = Outline.render g := by
          rw [← Outline.render_shownForest f, h, Outline.render_shownForest]
        obtain ⟨target, preset, width⟩ := p
        cases target with
        | markdown => exact houtline
        | typescript => rfl
        | json | jsonSchema | css => simp [Target.nameless, Target.markup] at hp
        | leptos | html | tailwind | react | vue | svelte => cases hd
  case stylesheet =>
    have hpieces : Stylesheet.pieces f = Stylesheet.pieces g := by
      rw [← Stylesheet.pieces_shownForest f, h, Stylesheet.pieces_shownForest]
    obtain ⟨hgaps, hfill⟩ := Stylesheet.render_eq_fill f
    obtain ⟨hgaps', hfill'⟩ := Stylesheet.render_eq_fill g
    rw [← hpieces] at hgaps' hfill'
    refine ⟨Stylesheet.pieces f, hgaps, hgaps', ?_⟩
    rintro ⟨target, preset, width⟩ rfl
    exact ⟨hfill, hfill'⟩

theorem exportsAlike_of_forget_eq {f g : Forest Id} (h : Component.forget f = Component.forget g) :
    ExportsAlike f g :=
  exportsAlike_of_shown_eq (Component.shownForest_of_forget_eq h)

/-- What is pasted of a copy has the exports of the component that was copied, whatever its
numbers are. -/
theorem exportsAlike_of_paste {source : Component Id} {d d' : Document} {target : Option Id}
    {i : Id} {m n : Minted} (hsource : acceptable.Met [source])
    (hints : (Requirement.stored IntegersTaken).Met [source])
    (h : d.paste source.record.dump target m = .ok (.ok (i, d'), n)) :
    ∃ new, d.putIn new target = .ok (i, d') ∧ ExportsAlike [new] [source] := by
  cases hcopy : Document.readCopy source.record.dump m with
  | error e =>
      rw [Document.paste, hcopy] at h
      cases h
  | ok r =>
      obtain rfl := Document.readCopy_eq hsource hints hcopy
      rw [Document.paste_of_readCopy d target hcopy] at h
      refine ⟨(source.hush.remint m).1, (Prod.mk.inj (Except.ok.inj h)).1, ?_⟩
      have hforget : Component.forget [(source.hush.remint m).1] = Component.forget [source.hush] :=
        Component.forget_remintForest [source.hush] m
      apply exportsAlike_of_shown_eq
      calc shownForest [(source.hush.remint m).1]
          = shownForest [source.hush] := Component.shownForest_of_forget_eq hforget
        _ = shownForest [source] := Component.shownForest_hushForest [source]

/-- Two designs that are the same apart from identities have the same exports but for the names of
classes in stylesheets.  So have a component and its duplicate, the components that a template was
made of and those that it brings in, and a component and what is pasted of its copy, if its
integers are no longer than a text may have them. -/
theorem exports_anonymous :
    (∀ f g : Forest Id, Component.forget f = Component.forget g → ExportsAlike f g) ∧
    (∀ (c : Component Id) n, ExportsAlike [(c.remint n).1] [c]) ∧
    (∀ (t : Template) (f : Forest Id) n, t.components = Component.forget f →
      ExportsAlike (t.instantiate n).1 f) ∧
    ∀ (source : Component Id) (d e e' : Document) id payload target i m n,
      d.components.get? id = some source → d.copy? id = some payload →
      acceptable.Met [source] → (Requirement.stored IntegersTaken).Met [source] →
      e.paste payload target m = .ok (.ok (i, e'), n) →
      ∃ new, e.putIn new target = .ok (i, e') ∧ ExportsAlike [new] [source] := by
  refine ⟨fun f g => exportsAlike_of_forget_eq, fun c n => ?_, fun t f n hf => ?_, ?_⟩
  · exact exportsAlike_of_forget_eq (Component.forget_remintForest [c] n)
  · have hcopy : Component.forget (t.instantiate n).1 = Component.forget t.components :=
      Template.forget_remintAll t.components n
    apply exportsAlike_of_shown_eq
    calc shownForest (t.instantiate n).1
        = shownForest t.components := Component.shownForest_of_forget_eq hcopy
      _ = shownForest (Component.forget f) := by rw [hf]
      _ = shownForest f := Component.shownForest_mapForest _ f
  · intro source d e e' id payload target i m n hget hcopy hsource hints hpaste
    cases (Document.copy_of_get hget).symm.trans hcopy
    exact exportsAlike_of_paste hsource hints hpaste

/-- A container with a button in it under other identities, the button copied and pasted, and a
template made of it. -/
theorem exports_anonymous_sample :
    let button (i : Id) : Component Id := .leaf i none (.button {})
    let container (i j : Id) : Component Id := .branch i none (.container {}) [button j]
    let d : Document := { Document.empty with components := [container "a" "b"] }
    let t : Template := ⟨"t", "T", "", .custom, Component.forget [button "b"], [], none⟩
    ExportsAlike [container "a" "b"] [container "x" "y"] ∧
      ExportsAlike (t.instantiate 7).1 [button "b"] ∧
      ∃ payload new i e n, d.copy? "b" = some payload ∧
        Document.empty.paste payload none 0 = .ok (.ok (i, e), n) ∧
        Document.empty.putIn new none = .ok (i, e) ∧ ExportsAlike [new] [button "b"] := by
  intro button container d t
  obtain ⟨hsame, -, htemplate, hpaste⟩ := exports_anonymous
  refine ⟨hsame _ _ rfl, htemplate t [button "b"] 7 rfl, ?_⟩
  have hget : d.components.get? "b" = some (button "b") := rfl
  have hcopy := Document.copy_of_get hget
  obtain ⟨hbutton, hnumbers⟩ := Session.met_button "b" "Button"
  have hints : (Requirement.stored IntegersTaken).Met [button "b"] :=
    Requirement.met_cons_iff.mpr ⟨⟨by simp, (Json.everywhere_scalar rfl).mpr trivial⟩,
      Requirement.met_nil, Requirement.met_nil⟩
  have hcheck : Document.empty.checkIncoming ((button "b").remint 0).1 = .ok () := by
    decide +kernel
  obtain ⟨e, he⟩ : ∃ e, Document.empty.putIn ((button "b").remint 0).1 none =
      .ok (((button "b").remint 0).1.id, e) := by
    rw [Document.putIn, Document.addRoot, hcheck]
    exact ⟨_, rfl⟩
  have hpasted : Document.empty.paste (button "b").record.dump none 0 =
      .ok (.ok (((button "b").remint 0).1.id, e), ((button "b").remint 0).2) := by
    rw [← he]
    exact Document.paste_of_readCopy _ none (Document.readCopy_dump hbutton hnumbers 0)
  obtain ⟨new, hnew, halike⟩ :=
    hpaste (button "b") d Document.empty e "b" _ none _ 0 _ hget hcopy hbutton hints hpasted
  exact ⟨_, new, _, e, _, hcopy, hpasted, hnew, halike⟩

end PageDesign
