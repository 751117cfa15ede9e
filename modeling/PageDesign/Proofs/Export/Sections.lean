/-
# PageDesign.Proofs.Export.Sections -- an outline has a section for every root

An outline is written along the steps through a design, in one loop that counts the headings
(`writeFrom`).  A heading comes at a step that begins a root, and a blank line at one that ends it;
a root without children is begun and ended at one step if it is a leaf, and at two if it is a
branch.

The same outline is given by recursion on the design: a component has its headline, its details one
level deeper, and the components below it (`treeParts`).  `outline_recursive` says that the loop
writes a section of this kind for every root, for every design.  What is written is told by its
parts, so that headings, headlines and blank lines can be counted whatever the texts of components
hold.
-/
import PageDesign.Export.Outline
import PageDesign.Proofs.Export.Markup

namespace PageDesign.Outline

open Markup

variable {ι : Type}

/-! ## Parts -/

/-- What an outline is made of. -/
inductive Part (ι : Type) where
  /-- The heading of a section, with an empty line below it. -/
  | heading (number : Nat)
  /-- The bullet that names a component. -/
  | headline (node : Component ι) (depth : Nat)
  /-- The bullet of a detail. -/
  | detail (text : String) (depth : Nat)
  /-- The empty line that ends a section. -/
  | blank

namespace Part

/-- A part as it is written.  A level of depth is two spaces. -/
def text : Part ι → String
  | heading n => "## Component " ++ Style.number n ++ "\n\n"
  | headline c d => spaces (2 * d) ++ "- " ++ (entry c).1 ++ "\n"
  | detail s d => spaces (2 * d) ++ "- " ++ s ++ "\n"
  | blank => "\n"

/-- The number of a heading. -/
def heading? : Part ι → Option Nat
  | heading n => some n
  | _ => none

/-- The component that a headline names, with its depth. -/
def headline? : Part ι → Option (Component ι × Nat)
  | headline c d => some (c, d)
  | _ => none

/-- Whether a part ends a section. -/
def isBlank : Part ι → Bool
  | blank => true
  | _ => false

end Part

/-- Parts as they are written. -/
def written (ps : List (Part ι)) : String := String.join (ps.map Part.text)

theorem written_append (ps qs : List (Part ι)) : written (ps ++ qs) = written ps ++ written qs := by
  rw [written, List.map_append, String.join_append]
  rfl

theorem written_cons (p : Part ι) (ps : List (Part ι)) : written (p :: ps) = p.text ++ written ps :=
  String.join_cons

/-! ## The outline by recursion -/

/-- The headline of a component and its details, one level deeper. -/
def own (d : Nat) (c : Component ι) : List (Part ι) :=
  .headline c d :: (entry c).2.map (.detail · (d + 1))

mutual

/-- The outline of a tree whose root is at depth `d`. -/
def treeParts (d : Nat) : Component ι → List (Part ι)
  | .leaf i a l => own d (.leaf i a l)
  | .branch i a f cs => own d (.branch i a f cs) ++ forestParts (d + 1) cs

/-- The outlines of the trees of a forest whose roots are at depth `d`. -/
def forestParts (d : Nat) : Forest ι → List (Part ι)
  | [] => []
  | c :: cs => treeParts d c ++ forestParts d cs

end

/-- The sections of a forest, the first one with the number `n`. -/
def sections (n : Nat) : Forest ι → List (Part ι)
  | [] => []
  | c :: cs => .heading n :: treeParts 0 c ++ .blank :: sections (n + 1) cs

theorem treeParts_eq (d : Nat) (c : Component ι) :
    treeParts d c = own d c ++ forestParts (d + 1) c.children := by
  cases c with
  | leaf i a l => exact (List.append_nil _).symm
  | branch i a f cs => rfl

theorem treeParts_eq_forestParts (d : Nat) (c : Component ι) :
    treeParts d c = forestParts d [c] := by
  rw [forestParts, forestParts, List.append_nil]

theorem sections_eq_flatMap (n : Nat) (f : Forest ι) : sections n f =
    (f.zipIdx n).flatMap fun (c, n) => .heading n :: treeParts 0 c ++ [.blank] := by
  induction f generalizing n with
  | nil => rfl
  | cons c cs ih =>
      rw [sections, ih, List.zipIdx_cons, List.flatMap_cons, List.append_assoc,
        List.singleton_append]

/-! ## The loop -/

/-- The parts for a step, after `count` headings. -/
def stepParts (count : Nat) (e : Forest.Event ι) : List (Part ι) :=
  if e.kind = .exit then
    if e.depth = 0 then [.blank] else []
  else
    (if e.depth = 0 then [.heading (count + 1)] else []) ++ own e.depth e.node ++
      if e.kind = .leaf ∧ e.depth = 0 then [.blank] else []

/-- The number of headings after a step. -/
def countAfter (count : Nat) (e : Forest.Event ι) : Nat :=
  if e.kind ≠ .exit ∧ e.depth = 0 then count + 1 else count

/-- The parts for steps one after the other. -/
def writeFrom (count : Nat) : List (Forest.Event ι) → List (Part ι)
  | [] => []
  | e :: es => stepParts count e ++ writeFrom (countAfter count e) es

section Steps

variable (count d : Nat) (c : Component ι) (es : List (Forest.Event ι))

theorem writeFrom_leaf_root : writeFrom count (⟨.leaf, c, 0⟩ :: es) =
    .heading (count + 1) :: own 0 c ++ .blank :: writeFrom (count + 1) es := by
  simp [writeFrom, stepParts, countAfter]

theorem writeFrom_enter_root : writeFrom count (⟨.enter, c, 0⟩ :: es) =
    .heading (count + 1) :: own 0 c ++ writeFrom (count + 1) es := by
  simp [writeFrom, stepParts, countAfter]

theorem writeFrom_exit_root :
    writeFrom count (⟨.exit, c, 0⟩ :: es) = .blank :: writeFrom count es := by
  simp [writeFrom, stepParts, countAfter]

theorem writeFrom_leaf_below :
    writeFrom count (⟨.leaf, c, d + 1⟩ :: es) = own (d + 1) c ++ writeFrom count es := by
  simp [writeFrom, stepParts, countAfter]

theorem writeFrom_enter_below :
    writeFrom count (⟨.enter, c, d + 1⟩ :: es) = own (d + 1) c ++ writeFrom count es := by
  simp [writeFrom, stepParts, countAfter]

theorem writeFrom_exit_below : writeFrom count (⟨.exit, c, d + 1⟩ :: es) = writeFrom count es := by
  simp [writeFrom, stepParts, countAfter]

end Steps

/-- Below a root there are no headings and no blank lines. -/
theorem writeFrom_below (count d : Nat) (f : Forest ι) (es : List (Forest.Event ι)) :
    writeFrom count (Forest.steps (d + 1) f ++ es) =
      forestParts (d + 1) f ++ writeFrom count es := by
  induction f using Forest.induction generalizing d es with
  | nil => rfl
  | cons c cs ihc ihcs =>
      rw [Forest.steps, forestParts, treeParts_eq, List.append_assoc, List.append_assoc,
        List.append_assoc]
      cases c with
      | leaf i a l =>
          rw [Forest.treeSteps, List.singleton_append, writeFrom_leaf_below, ihcs]
          rfl
      | branch i a fr ds =>
          rw [Forest.treeSteps, List.cons_append, List.append_assoc, List.singleton_append,
            writeFrom_enter_below]
          rw [Component.children] at ihc ⊢
          rw [ihc, writeFrom_exit_below, ihcs]

/-- A root makes a section, whether it is left at the step that begins it or at a later one. -/
theorem writeFrom_steps (count : Nat) (f : Forest ι) :
    writeFrom count (Forest.steps 0 f) = sections (count + 1) f := by
  induction f generalizing count with
  | nil => rfl
  | cons c cs ih =>
      rw [Forest.steps, sections, treeParts_eq]
      cases c with
      | leaf i a l =>
          rw [Forest.treeSteps, List.singleton_append, writeFrom_leaf_root, ih,
            Component.children, forestParts, List.append_nil]
      | branch i a fr ds =>
          rw [Forest.treeSteps, List.cons_append, List.append_assoc, List.singleton_append,
            writeFrom_enter_root, writeFrom_below, writeFrom_exit_root, ih, Component.children]
          simp only [List.cons_append, List.append_assoc]

/-! ## The lines of an outline -/

theorem render_bullets (d : Nat) (c : Component ι) :
    Markup.render 2 (bullets c d) = written (own d c) := by
  have hbullet (k : Nat) (s : String) :
      (bullet k s).render 2 = spaces (2 * k) ++ "- " ++ s ++ "\n" := by
    simp only [bullet, Line.render, String.append_assoc]
  simp only [bullets, own, Markup.render, written, List.map_cons, List.map_map,
    Function.comp_def, hbullet, Part.text]

theorem render_steps (d : Nat) (f : Forest ι) :
    Markup.render 2 ((Forest.steps d f).flatMap step) = written (forestParts d f) := by
  induction f using Forest.induction generalizing d with
  | nil => rfl
  | cons c cs ihc ihcs =>
      rw [Forest.steps, forestParts, treeParts_eq, List.flatMap_append, render_append,
        written_append, written_append, ihcs, ← ihc, ← render_bullets, ← render_append]
      cases c with
      | leaf i a l => rfl
      | branch i a fr ds =>
          -- the step that leaves the branch has no lines
          rw [Forest.treeSteps, List.flatMap_cons, List.flatMap_append, List.flatMap_singleton,
            Component.children]
          exact congrArg (fun ls => Markup.render 2 (bullets _ d ++ ls) ++ _) (List.append_nil _)

theorem render_rootSection (c : Component ι) (i : Nat) :
    Markup.render 2 (rootSection c i) =
      written (.heading (i + 1) :: treeParts 0 c ++ [.blank]) := by
  have hsteps : Markup.render 2 ((Forest.events [c]).flatMap step) = written (treeParts 0 c) := by
    rw [Forest.events_eq, render_steps, forestParts, forestParts, List.append_nil]
  have hheading : Markup.render 2 [flat ("## Component " ++ Style.number (i + 1)), flat ""] =
      (Part.heading (i + 1) : Part ι).text := by
    have hflat (s : String) : (flat s).render 2 = s ++ "\n" :=
      congrArg (· ++ "\n") String.empty_append
    have hends : "\n" ++ "\n" = "\n\n" := rfl
    rw [Markup.render, List.map_cons, List.map_singleton, String.join_cons, String.join_cons,
      String.join_nil, String.append_empty, hflat, hflat, String.empty_append,
      String.append_assoc, hends]
    rfl
  rw [rootSection, render_append, render_append, hsteps, hheading, written_append, written_cons]
  rfl

/-- The sections of a forest whose first root has the position `n`. -/
theorem render_sections (n : Nat) (f : Forest ι) :
    Markup.render 2 ((f.zipIdx n).flatMap fun (c, i) => rootSection c i) =
      written (sections (n + 1) f) := by
  induction f generalizing n with
  | nil => rfl
  | cons c cs ih =>
      rw [List.zipIdx_cons, List.flatMap_cons, render_append, ih, render_rootSection,
        ← written_append, sections, List.append_assoc, List.singleton_append]

/-- An outline is its title and the sections. -/
theorem render_eq_written (f : Forest ι) :
    render f = "# Generated Layout Documentation\n\n" ++ written (sections 1 f) := by
  have htitle : Markup.render 2 [flat "# Generated Layout Documentation", flat ""] =
      "# Generated Layout Documentation\n\n" := by decide
  rw [render, lines, render_append, htitle, render_sections]

/-! ## What there is of each kind -/

/-- The parts of a forest are those of its components in the order of a walk. -/
theorem forestParts_eq_flatMap (d : Nat) (f : Forest ι) :
    forestParts d f = (Forest.preorder d f).flatMap fun x => own x.2 x.1 := by
  induction f using Forest.induction generalizing d with
  | nil => rfl
  | cons c cs ihc ihcs =>
      rw [forestParts, treeParts_eq, ihc, ihcs, Forest.preorder_cons, List.flatMap_cons,
        List.flatMap_append, List.append_assoc]

theorem headings_forestParts (d : Nat) (f : Forest ι) :
    (forestParts d f).filterMap Part.heading? = [] := by
  have hown (d : Nat) (c : Component ι) : (own d c).filterMap Part.heading? = [] := by
    simp [own, Part.heading?]
  rw [forestParts_eq_flatMap, List.filterMap_flatMap]
  simp only [hown, List.flatMap_eq_nil_iff, implies_true]

theorem headlines_forestParts (d : Nat) (f : Forest ι) :
    (forestParts d f).filterMap Part.headline? = Forest.preorder d f := by
  have hown (d : Nat) (c : Component ι) : (own d c).filterMap Part.headline? = [(c, d)] := by
    simp [own, Part.headline?]
  rw [forestParts_eq_flatMap, List.filterMap_flatMap]
  simp only [hown, List.flatMap_singleton']

theorem blanks_forestParts (d : Nat) (f : Forest ι) :
    (forestParts d f).countP Part.isBlank = 0 := by
  have hown (d : Nat) (c : Component ι) : (own d c).countP Part.isBlank = 0 := by
    simp [own, Part.isBlank]
  rw [forestParts_eq_flatMap, List.countP_flatMap]
  simp [hown, Function.comp_def]

/-- Sections are numbered without gaps. -/
theorem headings_sections (n : Nat) (f : Forest ι) :
    (sections n f).filterMap Part.heading? = List.range' n f.length := by
  induction f generalizing n with
  | nil => rfl
  | cons c cs ih =>
      rw [sections, treeParts_eq_forestParts, List.cons_append, List.filterMap_cons,
        List.filterMap_append, headings_forestParts, List.filterMap_cons, ih, List.length_cons,
        List.range'_succ]
      rfl

/-- Every component has one headline. -/
theorem headlines_sections (n : Nat) (f : Forest ι) :
    (sections n f).filterMap Part.headline? = f.walk := by
  rw [Forest.walk_eq_preorder]
  induction f generalizing n with
  | nil => rfl
  | cons c cs ih =>
      rw [sections, treeParts_eq_forestParts, List.cons_append, List.filterMap_cons,
        List.filterMap_append, headlines_forestParts, List.filterMap_cons, ih,
        ← List.singleton_append (x := c) (l := cs), Forest.preorder_append]
      rfl

theorem blanks_sections (n : Nat) (f : Forest ι) :
    (sections n f).countP Part.isBlank = f.length := by
  induction f generalizing n with
  | nil => rfl
  | cons c cs ih =>
      rw [sections, treeParts_eq_forestParts, List.cons_append, List.countP_cons,
        List.countP_append, blanks_forestParts, List.countP_cons, ih, List.length_cons]
      simp [Part.isBlank]

/-! ## The law -/

theorem treeParts_eq_flatMap (d : Nat) (c : Component ι) :
    treeParts d c = .headline c d :: (entry c).2.map (.detail · (d + 1)) ++
      c.children.flatMap (treeParts (d + 1)) := by
  have hchildren (cs : Forest ι) : forestParts (d + 1) cs = cs.flatMap (treeParts (d + 1)) := by
    induction cs with
    | nil => rfl
    | cons c cs ih => rw [forestParts, ih, List.flatMap_cons]
  rw [treeParts_eq, hchildren, own]

/-- The outline of a design is its title and a section for every root: a heading, the outline of
the root and a blank line.  The outline of a component is its headline, its details one level
deeper, and the outlines of its children one level deeper in their order, whatever its kind and
even if there are none.  The loop along the steps through the design makes these parts, and where a
branch is left it makes none but the blank line behind a root.  Headings are numbered from one
without gaps, there is a blank line for each of them and no other, and every component has one
headline, at its depth and in the order of a walk. -/
theorem outline_recursive (f : Forest ι) :
    render f = "# Generated Layout Documentation\n\n" ++ written (sections 1 f) ∧
    sections 1 f =
      ((f.zipIdx 1).flatMap fun (c, n) => .heading n :: treeParts 0 c ++ [.blank]) ∧
    (∀ d (c : Component ι), treeParts d c =
      .headline c d :: (entry c).2.map (.detail · (d + 1)) ++
        c.children.flatMap (treeParts (d + 1))) ∧
    writeFrom 0 f.events = sections 1 f ∧
    (∀ count (c : Component ι) d,
      stepParts count ⟨.exit, c, d⟩ = if d = 0 then [.blank] else []) ∧
    (sections 1 f).filterMap Part.heading? = List.range' 1 f.length ∧
    (sections 1 f).countP Part.isBlank = f.length ∧
    (sections 1 f).filterMap Part.headline? = f.walk := by
  refine ⟨render_eq_written f, sections_eq_flatMap 1 f, treeParts_eq_flatMap, ?_,
    fun _ _ _ => rfl, headings_sections 1 f, blanks_sections 1 f, headlines_sections 1 f⟩
  rw [Forest.events_eq]
  exact writeFrom_steps 0 f

/-- A card without children ends its section as a leaf does. -/
example :
    render [.branch "a" none (.card {}) [],
      .branch "b" none (.container {}) [.leaf "c" none (.image { src := "s", alt := "t" })]] =
      "# Generated Layout Documentation\n\n" ++
      "## Component 1\n\n- **Card**\n  - Padding: 16\n  - Children: 0\n\n" ++
      "## Component 2\n\n- **Container**\n  - Layout: Flex (column)\n  - Children: 1\n" ++
      "  - **Image**\n    - Src: s\n    - Alt: t\n\n" := by
  decide +kernel

end PageDesign.Outline
